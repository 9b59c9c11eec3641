import Mathlib
import WasmLisp.Proofs.Engine.Lasting

/-!
# Data symbols with two providers

A data symbol is registered, or a loaded artifact owns it. Registration looks for an owner first, and a
load refuses an artifact that owns what is registered. The search in the catalog looks for neither, so a
symbol that it registers can have an owner as well.

* `Engine.Doubled`: a name that is owned and registered at once;
* `Engine.bound_registers`: how a search for providers comes to register a name;
* `Engine.doubled_run`, `Engine.doubled_after`: only a load doubles a name, by finding it in the catalog;
* `Engine.data_singular_outside_catalog`: all other names have one provider of data for good.
-/

namespace WasmLisp

/-- To register a symbol registers its name and no other. -/
theorem Registry.name_of_register {r r' : Registry} {s : Registry.Foreign} {origin x : String}
    {record : Registry.Record} (h : r.register s origin = .ok (record, r')) (hnone : r.resolve? x = none)
    (hsome : r'.resolve? x ≠ none) : s.name = x := by
  obtain rfl | ⟨-, added, rfl, hrecords⟩ := Registry.register_cases h
  · exact absurd hnone hsome
  · rw [Ne, resolve?_eq_none, recorded, hrecords, List.map_append, List.mem_append] at hsome
    rw [resolve?_eq_none] at hnone
    obtain hold | hnew := not_not.mp hsome
    · exact absurd hold hnone
    · exact (List.mem_singleton.mp hnew).symm

namespace Engine

open Artifact (envModule)
open Registry (recorded)

variable {e e₁ e₂ : Engine} {ns name x : String} {art : Artifact} {info : Binary.Info}

/-! ## Names that are found in the catalog -/

/-- A loaded artifact owns data of the name, and a symbol of the name is registered. -/
def Doubled (e : Engine) (x : String) : Prop :=
  e.globals.get? x ≠ none ∧ e.registry.resolve? x ≠ none

instance (e : Engine) (x : String) : Decidable (e.Doubled x) := inferInstanceAs (Decidable (_ ∧ _))

/-- An import of a name that is not registered, and that the catalog has. What it wants is not among the
data that loaded artifacts own: it wants a function, or nobody owns data of the name. -/
structure Finds (e : Engine) (info : Binary.Info) (i : Binary.Import) (x : String) : Prop where
  named : i.module = envModule ∧ i.name = x
  unregistered : e.registry.resolve? x = none
  catalogued : ∃ c found, e.catalog = some c ∧ c.lookup? x = some found
  passed : ∃ w, want? info i = some w ∧ (w.kind = .data → e.globals.get? x = none)

theorem fromModules_eq_none {i : Binary.Import} {w : Want} {p : Plan}
    (h : e.fromModules name i w p = none) (hw : w.kind = .data) : e.globals.get? i.name = none := by
  rw [fromModules, if_pos hw] at h
  exact Option.map_eq_none_iff.mp h

/-- A name that an import comes to register was found in the catalog. -/
theorem resolveImport_registers {i : Binary.Import} {p : Plan} (hnone : e.registry.resolve? x = none)
    (hsome : (e.resolveImport name info i p).1.registry.resolve? x ≠ none) : e.Finds info i x := by
  unfold resolveImport at hsome
  split at hsome
  case isFalse =>
    split at hsome
    · exact absurd hnone hsome
    split at hsome
    · exact absurd hnone hsome
    · exact absurd hnone hsome
  rename_i hmodule
  unfold resolveEnv at hsome
  split at hsome
  · exact absurd hnone hsome
  rename_i w hwant
  split at hsome
  · exact absurd hnone hsome
  rename_i hpassed
  cases hcatalog : e.fromCatalog name i w p with
  | none =>
    rw [hcatalog] at hsome
    exact absurd hnone hsome
  | some found =>
    rw [hcatalog] at hsome
    simp only [fromCatalog, bind, Option.bind_eq_some_iff] at hcatalog
    obtain ⟨c, hc, ⟨symbol, lib⟩, hlookup, hcatalog⟩ := hcatalog
    split at hcatalog
    · cases hcatalog
      exact absurd hnone hsome
    · rename_i record registry hregister
      obtain ⟨r, -, rfl⟩ := Option.map_eq_some_iff.mp hcatalog
      rw [Option.getD_some, registry_materialize] at hsome
      have hname := Registry.name_of_register hregister hnone hsome
      rw [Catalog.name_of_lookup? hlookup] at hname
      subst hname
      obtain ⟨-, hmodules⟩ := Option.or_eq_none_iff.mp hpassed
      exact ⟨⟨hmodule, rfl⟩, hnone, ⟨c, _, hc, hlookup⟩, w, hwant, fromModules_eq_none hmodules⟩

theorem Finds.of_searched {i : Binary.Import} (h : e₁.Finds info i x) (hsearched : e.Searched e₁)
    (hnone : e.registry.resolve? x = none) : e.Finds info i x := by
  obtain ⟨hcatalog, hglobals, -⟩ := hsearched.kept
  obtain ⟨hnamed, -, hcatalogued, hpassed⟩ := h
  rw [hcatalog] at hcatalogued
  rw [hglobals] at hpassed
  exact ⟨hnamed, hnone, hcatalogued, hpassed⟩

/-- A name that a search for providers comes to register was found in the catalog for an import. -/
theorem bound_registers {a : Prepared} (hnone : e.registry.resolve? x = none)
    (hsome : (e.bound name a).1.registry.resolve? x ≠ none) : ∃ i ∈ a.info.imports, e.Finds a.info i x := by
  have hall : ∀ (imports : List Binary.Import) (p : Plan) (e : Engine), e.registry.resolve? x = none →
      (e.resolveAll name a.info p imports).1.registry.resolve? x ≠ none →
      ∃ i ∈ imports, e.Finds a.info i x := by
    intro imports
    induction imports with
    | nil => exact fun p e hnone hsome => absurd hnone hsome
    | cons i imports ih =>
      intro p e hnone hsome
      by_cases hfirst : (e.resolveImport name a.info i p).1.registry.resolve? x = none
      · unfold resolveAll at hsome
        have hsearched := searched_resolveImport e name a.info i p
        split at hsome
        all_goals rename_i heq
        all_goals rw [heq] at hfirst hsearched
        · exact absurd hfirst hsome
        · obtain ⟨j, hj, hfinds⟩ := ih _ _ hfirst hsome
          exact ⟨j, List.mem_cons_of_mem _ hj, hfinds.of_searched hsearched hnone⟩
      · exact ⟨i, List.mem_cons_self, resolveImport_registers hnone hfirst⟩
  have hmade : e.materialize.registry.resolve? x = none := by rwa [registry_materialize]
  obtain ⟨i, hi, hfinds⟩ := hall _ _ _ hmade hsome
  exact ⟨i, hi, hfinds.of_searched (searched_materialize e) hnone⟩

/-! ## Names that are doubled -/

/-- The artifact imports a name that is found in the catalog, while data of the name is owned: by a loaded
artifact, or by this one. -/
def FindsOwned (e : Engine) (art : Artifact) (x : String) : Prop :=
  ∃ info, Binary.Info.inspect art.bytes = .ok info ∧ (∃ i ∈ info.imports, e.Finds info i x) ∧
    (e.globals.get? x ≠ none ∨ x ∈ info.exportedGlobals)

theorem doubled_link (hnot : ¬e.Doubled x) (h : (e.link ns art name).1.Doubled x) :
    e.FindsOwned art x := by
  obtain ⟨-, e₁, hran, rfl | ⟨a, hprepare, rfl⟩⟩ | ⟨-, a, p, e₁, e₂, hprepare, hbound, hran, hpublish⟩ :=
    link_cases e ns art name
  · obtain ⟨_, _, _, heq, -⟩ := hran
    rw [heq] at h
    exact absurd h hnot
  · obtain ⟨_, _, _, heq, -⟩ := hran
    rw [heq] at h
    have howned : e.globals.get? x ≠ none := (searched_bound e name a).kept.2.1 ▸ h.1
    have hnone : e.registry.resolve? x = none := by
      by_contra hsome
      exact hnot ⟨howned, hsome⟩
    exact ⟨a.info, (prepare_eq_ok hprepare).1, bound_registers hnone h.2, .inl howned⟩
  · obtain ⟨hinspect, -, -, hfree⟩ := prepare_eq_ok hprepare
    have hkept := (searched_bound e name a).kept
    have hregisters : e.registry.resolve? x = none → (e.bound name a).1.registry.resolve? x ≠ none → _ :=
      bound_registers
    rw [hbound] at hkept hregisters
    obtain ⟨_, _, _, rfl, -⟩ := hran
    rw [hpublish] at h
    obtain ⟨howned, hregistered⟩ := h
    rw [globals_publish, show _ = e.globals from hkept.2.1] at howned
    have hnone : e.registry.resolve? x = none := by
      by_contra hsome
      split at howned
      · exact hsome (hfree x ‹_›).1
      · exact hnot ⟨howned, hsome⟩
    refine ⟨a.info, hinspect, hregisters hnone hregistered, ?_⟩
    split at howned
    · exact .inr ‹_›
    · exact .inl howned

/-- Of all requests only loads double a name. -/
theorem doubled_run {event : Event} (hnot : ¬e.Doubled x) (h : (event.run e).Doubled x) :
    ∃ ns art name, event = .load ns art name ∧ e.FindsOwned art x := by
  cases event with
  | load ns art name =>
    refine ⟨ns, art, name, rfl, ?_⟩
    unfold Event.run at h
    dsimp only at h
    obtain ⟨failure, -, heq⟩ | ⟨-, record, result, metrics, -, -, heq⟩ | ⟨-, -, heq⟩ :=
      load_cases e ns art name
    · rw [heq] at h
      exact absurd h hnot
    · rw [heq] at h
      exact absurd h hnot
    · rw [heq] at h
      have hbegin : ¬(e.begin art name).Doubled x := hnot
      obtain ⟨info, hinspect, ⟨i, hi, hfinds⟩, howned⟩ := doubled_link hbegin h
      exact ⟨info, hinspect, ⟨i, hi, hfinds.named, hfinds.unregistered, hfinds.catalogued, hfinds.passed⟩,
        howned⟩
  | register symbol origin =>
    unfold Event.run registerForeign at h
    dsimp only at h
    split at h
    · exact absurd h hnot
    · rename_i hfree
      split at h
      · rename_i hregister
        obtain ⟨howned, hregistered⟩ := h
        have hnone : e.registry.resolve? x = none := by
          by_contra hsome
          exact hnot ⟨howned, hsome⟩
        obtain rfl := Registry.name_of_register hregister hnone hregistered
        exact absurd hfree howned
      · exact absurd h hnot
  | call qualified args =>
    unfold Event.run at h
    dsimp only at h
    obtain heq | ⟨function, heq⟩ := call_cases e qualified args
    · rw [heq] at h
      exact absurd h hnot
    · rw [heq] at h
      obtain ⟨_, _, _, hran, -⟩ := ran_invokeForValue e function args
      rw [hran] at h
      exact absurd h hnot

/-- A name that is doubled was so before, or a load doubled it. -/
theorem doubled_after {events : List Event} (hnot : ¬e.Doubled x) (h : (e.after events).Doubled x) :
    ∃ before ns art name rest, events = before ++ .load ns art name :: rest ∧
      ¬(e.after before).Doubled x ∧ (e.after before).FindsOwned art x := by
  induction events generalizing e with
  | nil => exact absurd h hnot
  | cons event events ih =>
    by_cases hfirst : (event.run e).Doubled x
    · obtain ⟨ns, art, name, rfl, hfinds⟩ := doubled_run hnot hfirst
      exact ⟨[], ns, art, name, events, rfl, hnot, hfinds⟩
    · obtain ⟨before, ns, art, name, rest, rfl, hbefore, hfinds⟩ := ih hfirst h
      exact ⟨event :: before, ns, art, name, rest, rfl, hbefore, hfinds⟩

/-! ## Providers that stay -/

theorem Lasting.later_bound (h : e.Lasting) (name : String) (a : Prepared) :
    e.Later (e.bound name a).1 := by
  obtain ⟨hcatalog, hglobals, hgrown⟩ := (searched_bound e name a).kept
  exact ⟨hcatalog, hgrown, (h.bound name a).2.symbols, fun x m hx => hglobals ▸ hx⟩

/-- What was found stays while the artifact runs and its definitions are published. -/
theorem later_published {a : Prepared} {p : Plan} (hprepare : e.prepare art name = .ok a)
    (hbound : e.bound name a = (e₁, .ok p)) (hran : e₁.Ran e₂) :
    e₁.Later (e₂.publish name a.manifest.functions a.info.exportedGlobals) := by
  have hkept := (searched_bound e name a).kept
  rw [hbound] at hkept
  refine hran.later.trans (later_publish _ _ _ fun g hg => ?_)
  obtain ⟨_, _, _, rfl, -⟩ := hran
  rw [show _ = e.globals from hkept.2.1]
  exact ((prepare_eq_ok hprepare).2.2.2 g hg).2

theorem Lasting.later_link (h : e.Lasting) (ns : String) (art : Artifact) (name : String) :
    e.Later (e.link ns art name).1 := by
  obtain ⟨-, e₁, hran, rfl | ⟨a, -, rfl⟩⟩ | ⟨-, a, p, e₁, e₂, hprepare, hbound, hran, hpublish⟩ :=
    link_cases e ns art name
  · exact hran.later
  · exact (h.later_bound name a).trans hran.later
  · have hlater := h.later_bound name a
    rw [hbound] at hlater
    rw [hpublish]
    exact hlater.trans (later_published hprepare hbound hran)

/-- Providers stay what they are, whatever is asked. -/
theorem Lasting.later_run (h : e.Lasting) (event : Event) : e.Later (event.run e) := by
  cases event with
  | load ns art name =>
    unfold Event.run
    dsimp only
    obtain ⟨failure, -, heq⟩ | ⟨-, record, result, metrics, -, -, heq⟩ | ⟨-, -, heq⟩ :=
      load_cases e ns art name
    · rw [heq]
      exact .refl e
    · rw [heq]
      exact ⟨rfl, .refl _, fun _ _ hx => hx, fun _ _ hx => hx⟩
    · have hbegin : (e.begin art name).Lasting := ⟨h.orderly, h.counted, h.made, h.provided, h.single⟩
      have hlater := hbegin.later_link ns art name
      rw [heq]
      exact ⟨hlater.catalog, hlater.store, hlater.symbols, hlater.globals⟩
  | register symbol origin =>
    unfold Event.run Engine.registerForeign
    dsimp only
    split
    · exact .refl e
    · split
      · exact ⟨rfl, .refl _, fun _ _ hx => hx, fun _ _ hx => hx⟩
      · exact .refl e
  | call qualified args =>
    unfold Event.run
    dsimp only
    obtain heq | ⟨function, heq⟩ := call_cases e qualified args
    · rw [heq]
      exact .refl e
    · rw [heq]
      exact (ran_invokeForValue e function args).later

theorem Lasting.event (h : e.Lasting) (event : Event) : (event.run e).Lasting := by
  cases event with
  | load ns art name => exact (h.load ns (some art) name).1
  | register symbol origin => exact (h.registerForeign symbol origin).1
  | call qualified args =>
    unfold Event.run
    dsimp only
    obtain heq | ⟨function, heq⟩ := call_cases e qualified args
    · rw [heq]
      exact h
    · -- a call makes no instance
      rw [heq]
      have hname : Loadable "main" := ⟨by decide, by decide⟩
      exact (h.kept (ran_invokeForValue e function args).keepsSymbols hname
        (Machine.Store.adds_of_instances (instances_invokeForValue e function args))).1

theorem Lasting.after (h : e.Lasting) (events : List Event) :
    (e.after events).Lasting ∧ e.Later (e.after events) := by
  induction events generalizing e with
  | nil => exact ⟨h, .refl e⟩
  | cons event events ih =>
    obtain ⟨hlasting, hlater⟩ := ih (h.event event)
    exact ⟨hlasting, (h.later_run event).trans hlater⟩

/-- A name that is owned has no instance as a symbol, unless it is doubled. -/
theorem Lasting.symbols_of_owned (h : e.Lasting) (hx : ¬e.Doubled x) (howned : e.globals.get? x ≠ none) :
    e.symbols.get? x = none := by
  by_contra hne
  have hmem := (h.made x).mp hne
  refine hx ⟨howned, fun hnone => ?_⟩
  rw [Registry.resolve?_eq_none] at hnone
  obtain ⟨r, hr, rfl⟩ := List.mem_map.mp hmem
  exact hnone (List.mem_map_of_mem (List.mem_of_mem_take hr))

/-! ## Data that artifacts import -/

/-- The artifact imports data of the name, and no function of it. -/
def ImportsData (info : Binary.Info) (x : String) : Prop :=
  (∃ i ∈ info.imports, i.module = envModule ∧ i.name = x) ∧
    ∀ i ∈ info.imports, i.module = envModule → i.name = x → (want? info i).map (·.kind) = some .data

/-- The artifact is linked and started, and its imports of data of the name come from a module. -/
structure ImportsFrom (e : Engine) (ns : String) (art : Artifact) (name x m : String) : Prop where
  fresh : e.modules.get? name = none
  loaded : (e.load ns (some art) name).2.2.isOk = true
  bound : ∃ a e₁ p, (e.begin art name).prepare art name = .ok a ∧
    (e.begin art name).bound name a = (e₁, .ok p) ∧ ImportsData a.info x ∧ m = p.target envModule x

/-- An engine in which a module provides data, as an instance of the symbol or as an owner. -/
def ProvidesData (e : Engine) (x m : String) : Prop := e.symbols.get? x = some m ∨ e.globals.get? x = some m

theorem Later.provides (h : e.Later e₁) {m : String} (hm : e.ProvidesData x m) : e₁.ProvidesData x m :=
  hm.imp (h.symbols x m) (h.globals x m)

theorem Lasting.dataModule?_of_provides (h : e.Lasting) (hx : ¬e.Doubled x) {m : String}
    (hm : e.ProvidesData x m) : e.dataModule? x = some m := by
  unfold dataModule?
  obtain hsymbol | howned := hm
  · rw [hsymbol]
    rfl
  · rw [h.symbols_of_owned hx (by rw [howned]; exact Option.some_ne_none m), howned]
    rfl

/-- Imports of data are bound to a module that provides it. -/
theorem Lasting.provides_bound (h : e.Lasting) {a : Prepared} {p : Plan}
    (hbound : e.bound name a = (e₁, .ok p)) (hx : ImportsData a.info x) :
    e₁.ProvidesData x (p.target envModule x) := by
  obtain ⟨⟨i, hi, hmodule, hname⟩, hdata⟩ := hx
  obtain ⟨choices, hchoices, hremap, -, -⟩ := resolveAll_eq_ok (motive := Lasting)
    (P := fun e i m => i.module = envModule → (want? a.info i).map (·.kind) = some .data →
      e.ProvidesData i.name m)
    (fun e i p he => (he.resolveImport name a.info i p).1)
    (fun e i m he hchosen henv hkind => by
      obtain ⟨w, hw, hprovided⟩ := hchosen.of_env henv
      have hwant : w.kind = .data := by rw [hw] at hkind; exact Option.some.inj hkind
      cases hprovided with
      | registered r _ _ _ hm => exact .inl hm
      | global _ hm => exact .inr hm
      | defined hne _ => exact absurd hwant hne)
    (fun e i p j m he hkept henv hkind => by
      have hglobals := (searched_resolveImport e name a.info i p).kept.2.1
      refine (hkept henv hkind).imp ((he.resolveImport name a.info i p).2.symbols _ m) fun hm => ?_
      rw [hglobals]
      exact hm)
    h.materialize hbound
  obtain ⟨j, hj, hkey, hprovides⟩ := Plan.target_of_choices hchoices (by simpa using hremap) hi
  obtain ⟨hjmodule, hjname⟩ := Prod.mk.inj hkey
  have hprovides := hprovides (hjmodule.trans hmodule) (hdata j hj (hjmodule.trans hmodule)
    (hjname.trans hname))
  rwa [hmodule, hname, hjname.trans hname] at hprovides

theorem Lasting.provides_load (h : e.Lasting) {m : String} (hm : e.ImportsFrom ns art name x m) :
    (e.load ns (some art) name).1.ProvidesData x m := by
  obtain ⟨hfresh, hloaded, a, e₁, p, hprepare, hbound, hdata, rfl⟩ := hm
  obtain ⟨failure, -, heq⟩ | ⟨-, record, result, metrics, hget, -, -⟩ | ⟨-, -, heq⟩ :=
    load_cases e ns art name
  · rw [heq] at hloaded
    cases hloaded
  · rw [hfresh] at hget
    cases hget
  rw [heq] at hloaded ⊢
  have hbegin : (e.begin art name).Lasting := ⟨h.orderly, h.counted, h.made, h.provided, h.single⟩
  have hprovides := hbegin.provides_bound hbound hdata
  show ((e.begin art name).link ns art name).1.ProvidesData x _
  obtain ⟨hfailed, -⟩ | ⟨-, a', p', e₁', e₂, hprepare', hbound', hran, hpublish⟩ :=
    link_cases (e.begin art name) ns art name
  · cases hfailed.symm.trans hloaded
  · cases hprepare.symm.trans hprepare'
    cases hbound.symm.trans hbound'
    rw [hpublish]
    exact (later_published hprepare hbound hran).provides hprovides

/-! ## All requests -/

/-- A data symbol is found where it is provided. -/
theorem global?_eq (e : Engine) (x : String) : e.global? x = (e.dataAddress? x).map e.store.globalValue := by
  unfold global? dataAddress?
  show (e.dataModule? x).bind _ = _
  cases e.dataModule? x with
  | none => rfl
  | some m =>
    simp only [Option.bind_some]
    cases e.store.export? m x with
    | none => rfl
    | some ext => cases ext <;> rfl

/-- Data symbols are singular, but for those that the catalog provides. Take an engine that is new,
whatever it is asked, loads that fail included:

* if a name is owned by a loaded artifact and registered at once, that is because of a load that imports it
  while data of the name is owned, and finds it in the catalog;
* any other data symbol is found in the same place for good once it is found, and its value is what is there;
  and all artifacts that import it are bound to the module that provides it. -/
theorem data_singular_outside_catalog (catalog : Option Catalog) (around : Surroundings)
    (events : List Event) (x : String) :
    let fresh : Engine := { catalog, around }
    let e := fresh.after events
    (e.Doubled x → ∃ before ns art name rest, events = before ++ .load ns art name :: rest ∧
      ¬(fresh.after before).Doubled x ∧ (fresh.after before).FindsOwned art x) ∧
    (¬e.Doubled x →
      e.global? x = (e.dataAddress? x).map e.store.globalValue ∧
      (∀ before rest, events = before ++ rest → ∀ a,
        (fresh.after before).dataAddress? x = some a → e.dataAddress? x = some a) ∧
      ∀ before ns art name rest m, events = before ++ .load ns art name :: rest →
        (fresh.after before).ImportsFrom ns art name x m → e.dataModule? x = some m) := by
  intro fresh e
  have hfresh : fresh.Lasting := lasting_fresh catalog _ around
  have hlasting : e.Lasting := (hfresh.after events).1
  refine ⟨fun h => doubled_after (fun hdoubled => hdoubled.1 rfl) h, fun hx => ⟨e.global?_eq x, ?_, ?_⟩⟩
  · rintro before rest rfl a ha
    have hlater := ((hfresh.after before).1.after rest).2
    rw [← after_append] at hlater
    exact hlater.dataAddress? (hlasting.symbols_of_owned hx) ha
  · rintro before ns art name rest m rfl hm
    have hprovides := (hfresh.after before).1.provides_load hm
    have hloaded := (hfresh.after before).1.event (.load ns art name)
    have hlater := (hloaded.after rest).2
    refine hlasting.dataModule?_of_provides hx ?_
    have hsplit : e = ((Event.load ns art name).run (fresh.after before)).after rest :=
      after_append fresh before (.load ns art name :: rest)
    rw [hsplit]
    exact hlater.provides hprovides

/-- The artifact of a unit. -/
def unitArtifact (forms : List Node) : Artifact :=
  let g := (Codegen.generate { forms } [] 0).toOption.getD default
  { manifest := some g.manifest, bytes := g.module.encode }

/-- An engine in which a loaded artifact owns data that has the name of a function of the catalog. -/
def gcdOwned : Engine :=
  ({ catalog := some Catalog.standard } : Engine).after
    [.load "user" (unitArtifact [.defGlobal "gcd" 3]) "owner"]

/-- The same after an artifact was loaded that calls the function. -/
def gcdCalled : Engine :=
  gcdOwned.after [.load "user" (unitArtifact [.foreignCall "gcd" [.const 12, .const 18]]) "caller"]

/-- The call doubles the name, and the data is not found any more. -/
theorem gcd_doubled :
    gcdOwned.global? "gcd" = some 3 ∧ ¬gcdOwned.Doubled "gcd" ∧
      gcdCalled.stateOf "caller" = .loaded ∧ gcdCalled.Doubled "gcd" ∧ gcdCalled.global? "gcd" = none := by
  decide +kernel

end Engine

end WasmLisp
