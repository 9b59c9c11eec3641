import Mathlib
import WasmLisp.Proofs.Engine.Generations
import WasmLisp.Proofs.Engine.Linked
import WasmLisp.Proofs.Engine.Once

/-!
# Registered symbols keep their identity

* `Engine.binds_resolveAll`: the addresses that a plan binds are those of the registered symbols;
* `Engine.Growth`: everything that adds to the symbols of an engine or links to them;
* `Engine.identity_for_life`: what stays the same however these follow on one another.
-/

namespace WasmLisp

namespace Engine

open Artifact (envModule)
open Registry (recorded)

variable {e e₁ e₂ : Engine} {name : String}

/-! ## Addresses that are bound -/

variable {info : Binary.Info} {i : Binary.Import} {p p' : Plan}

theorem bindings_fromRegistry {w : Want} (h : e.fromRegistry name i w p = some (.ok p')) :
    ∃ r, e.registry.resolve? i.name = some r ∧ p'.bindings = p.bindings.insert i.name r.address := by
  unfold fromRegistry at h
  obtain ⟨r, hr, h⟩ := Option.bind_eq_some_iff.mp h
  refine ⟨r, hr, ?_⟩
  simp only [pure, Option.some.injEq] at h
  split at h
  · cases h
  split at h
  · cases h
  split at h
  · cases h
  · cases h
    rfl

theorem resolve?_of_fromRegistry {w : Want} (h : e.fromRegistry name i w p = none) :
    e.registry.resolve? i.name = none := by
  unfold fromRegistry at h
  cases hr : e.registry.resolve? i.name with
  | none => rfl
  | some r =>
    rw [hr] at h
    cases h

theorem bindings_fromModules {w : Want} (h : e.fromModules name i w p = some (.ok p')) :
    p'.bindings = p.bindings := by
  unfold fromModules at h
  split at h
  · obtain ⟨owner, -, heq⟩ := Option.map_eq_some_iff.mp h
    cases heq
    rfl
  · obtain ⟨provider, -, heq⟩ := Option.map_eq_some_iff.mp h
    split at heq
    · cases heq
    · cases heq
      rfl

theorem binds_resolveEnv {names : List String} (hbinds : e.registry.Binds names p.bindings)
    (h : e.resolveEnv name info i p = (e₁, .ok p')) :
    e₁.registry.Binds (names ++ [i.name]) p'.bindings := by
  unfold Engine.resolveEnv at h
  split at h
  · cases h
  rename_i w hw
  split at h
  · rename_i r hr
    cases h
    obtain hregistry | ⟨hnone, hmodules⟩ := Option.or_eq_some_iff.mp hr
    · obtain ⟨r, hr, hbindings⟩ := bindings_fromRegistry hregistry
      rw [hbindings]
      exact hbinds.insert hr fun _ _ => rfl
    · rw [bindings_fromModules hmodules]
      exact hbinds.skip (resolve?_of_fromRegistry hnone)
  · cases hcatalog : e.fromCatalog name i w p with
    | none =>
      rw [hcatalog] at h
      cases h
    | some found =>
      rw [hcatalog] at h
      simp only [Option.getD_some] at h
      subst h
      simp only [fromCatalog, bind, Option.bind_eq_some_iff] at hcatalog
      obtain ⟨c, -, ⟨symbol, lib⟩, hlookup, hcatalog⟩ := hcatalog
      split at hcatalog
      · cases hcatalog
      · -- a symbol of the catalog is registered first and then found in the registry
        rename_i record registry hregister
        obtain ⟨found, hfound, heq⟩ := Option.map_eq_some_iff.mp hcatalog
        cases heq
        obtain ⟨r, hr, hbindings⟩ := bindings_fromRegistry hfound
        rw [hbindings]
        refine hbinds.insert hr fun y hy => ?_
        rw [registry_materialize]
        exact Registry.resolve?_register_of_ne hregister (Catalog.name_of_lookup? hlookup ▸ hy)

theorem binds_resolveImport {names : List String} (hbinds : e.registry.Binds names p.bindings)
    (h : e.resolveImport name info i p = (e₁, .ok p')) :
    e₁.registry.Binds (names ++ namesFrom envModule [i]) p'.bindings := by
  unfold Engine.resolveImport at h
  split at h
  · rename_i henv
    have hnames : namesFrom envModule [i] = [i.name] := by simp [namesFrom, henv]
    rw [hnames]
    exact binds_resolveEnv hbinds h
  · rename_i henv
    have hnames : namesFrom envModule [i] = [] := by simp [namesFrom, henv]
    rw [hnames, List.append_nil]
    split at h
    · cases h
      exact hbinds
    split at h
    · cases h
      exact hbinds
    · cases h

/-- What the plan for all imports binds. -/
theorem binds_resolveAll {names : List String} {imports : List Binary.Import}
    (hbinds : e.registry.Binds names p.bindings)
    (h : e.resolveAll name info p imports = (e₁, .ok p')) :
    e₁.registry.Binds (names ++ namesFrom envModule imports) p'.bindings := by
  induction imports generalizing e p names with
  | nil =>
    cases h
    simpa [namesFrom] using hbinds
  | cons i imports ih =>
    unfold Engine.resolveAll at h
    split at h
    · cases h
    · rename_i e₂ p₂ hi
      have hnext := ih (binds_resolveImport hbinds hi) h
      rw [List.append_assoc] at hnext
      have hnames : namesFrom envModule [i] ++ namesFrom envModule imports =
          namesFrom envModule (i :: imports) := by
        unfold namesFrom
        rw [← List.map_append, ← List.filter_append]
        rfl
      rwa [hnames] at hnext

/-- The entry point is bound to the addresses of the registered symbols that its artifact imports. -/
def Addressed (r : Registry) (art : Artifact) (entry : EntryPoint) : Prop :=
  ∃ info, Binary.Info.inspect art.bytes = .ok info ∧
    r.Binds (namesFrom envModule info.imports) entry.bindings

theorem addressed_link {ns ns' : String} {art : Artifact} {entry : EntryPoint}
    (h : e.link ns art name = (e₂, ns', .ok entry)) : Addressed e₂.registry art entry := by
  obtain ⟨a, p, e₁, r, hprepare, hbound, -, hstart⟩ := link_eq_published h (.inl rfl)
  have hbinds : e₁.registry.Binds (namesFrom envModule a.info.imports) p.bindings := by
    have hnone : e.materialize.registry.Binds [] ({} : Plan).bindings :=
      fun x a => by simp [Table.get?]
    simpa using binds_resolveAll hnone hbound
  have hkept : e₂.registry = e₁.registry := by
    obtain ⟨hfailed, -⟩ | ⟨-, e₃, hran, hpublish⟩ := start_cases e₁ ns name r.bytes p a
    · rw [hstart] at hfailed
      cases hfailed
    · rw [hstart] at hpublish
      rw [show e₂ = _ from hpublish]
      exact hran.keepsSymbols.registry
  obtain ⟨_, _, _, _, _, _, _, -, -, -, hentry⟩ := start_eq_published hstart (.inl rfl)
  obtain ⟨_, _, -, rfl⟩ := entryPoint_eq_ok hentry.symm
  exact ⟨a.info, (prepare_eq_ok hprepare).1, hkept ▸ hbinds⟩

/-! ## Histories -/

/-- What a program does that adds to the symbols of an engine or links to them. -/
inductive Growth where
  | register (symbol : Registry.Foreign) (origin : String)
  | library (lib : Registry.Library)
  | foreign (symbol : Registry.Foreign) (origin : String)
  | load (ns : String) (art : Option Artifact) (name : String)

/-- The engine afterwards. What is registered for an engine and what its registry is given meet in one
registry. -/
def Growth.run (e : Engine) : Growth → Engine
  | .register symbol origin =>
    match e.registry.register symbol origin with
    | .ok (_, registry) => { e with registry }
    | .error _ => e
  | .library lib => { e with registry := (e.registry.registerLibrary lib).1 }
  | .foreign symbol origin => (e.registerForeign symbol origin).1
  | .load ns art name => (e.load ns art name).1

def grown (e : Engine) (growths : List Growth) : Engine := growths.foldl Growth.run e

theorem Lasting.run (h : e.Lasting) (growth : Growth) :
    (growth.run e).Lasting ∧ e.Onward (growth.run e) := by
  cases growth with
  | register symbol origin =>
    unfold Growth.run
    dsimp only
    split
    · rename_i hr
      obtain ⟨horderly, hpre⟩ := h.orderly.register hr
      exact h.withRegistry horderly hpre
    · exact ⟨h, .refl e⟩
  | library lib =>
    obtain ⟨horderly, hpre⟩ := h.orderly.registerSymbols lib.name lib.symbols
    exact h.withRegistry horderly hpre
  | foreign symbol origin => exact h.registerForeign symbol origin
  | load ns art name => exact h.load ns art name

theorem Lasting.grown (h : e.Lasting) (growths : List Growth) :
    (e.grown growths).Lasting ∧ e.Onward (e.grown growths) := by
  induction growths generalizing e with
  | nil => exact ⟨h, .refl e⟩
  | cons growth growths ih =>
    obtain ⟨h₁, honward⟩ := h.run growth
    obtain ⟨h₂, honward'⟩ := ih h₁
    exact ⟨h₂, honward.trans honward'⟩

theorem lasting_fresh (catalog : Option Catalog) (env : Env) (around : Surroundings) :
    Lasting { catalog, env, around } := by
  refine ⟨Registry.orderly_empty, Nat.le_refl _, fun x => ?_, fun x m hx => ?_, ?_⟩
  · simp [Table.get?, recorded]
  · exact absurd hx (by simp [Table.get?])
  · rintro x g m ⟨-, i, inst, hi, -⟩
    exact absurd hi (by simp)

theorem modules_grow (growth : Growth) {name' : String} {record : LoadRecord} {entry : EntryPoint}
    (hget : (growth.run e).modules.get? name' = some record) (hok : record.outcome = .ok entry) :
    e.modules.get? name' = some record ∨
      ∃ ns art, growth = .load ns (some art) name' ∧ Addressed (growth.run e).registry art entry := by
  cases growth with
  | register symbol origin =>
    unfold Growth.run at hget
    dsimp only at hget
    split at hget
    · exact .inl hget
    · exact .inl hget
  | library lib => exact .inl hget
  | foreign symbol origin =>
    rw [Growth.run, (tables_registerForeign e symbol origin).modules] at hget
    exact .inl hget
  | load ns art name =>
    cases art with
    | none =>
      rw [Growth.run, load_none] at hget
      exact .inl hget
    | some art =>
      rw [Growth.run] at hget ⊢
      -- a load that is refused and one that was made before record nothing
      obtain ⟨failure, -, heq⟩ | ⟨-, _, result, metrics, -, -, heq⟩ | ⟨-, -, heq⟩ :=
        load_cases e ns art name
      · rw [heq] at hget
        exact .inl hget
      · rw [heq] at hget
        exact .inl hget
      · rw [heq] at hget ⊢
        unfold loadNew finish at hget ⊢
        have hmodules := (link_recorded (e.begin art name) ns art name).1
        cases hlink : (e.begin art name).link ns art name with
        | mk e₂ answer =>
          obtain ⟨ns', result⟩ := answer
          rw [hlink] at hget hmodules
          dsimp only at hget hmodules ⊢
          rw [hmodules, Table.get?_insert, begin, Table.get?_insert] at hget
          split at hget
          · rename_i hname
            subst hname
            cases hget
            obtain rfl : result = .ok entry := Outcome.ofResult_eq_ok.mp hok
            exact .inr ⟨ns, art, rfl, addressed_link hlink⟩
          · exact .inl hget

theorem registerForeign_error {symbol : Registry.Foreign} {origin : String} {failure : Failure}
    (h : (e.registerForeign symbol origin).2 = .error failure) :
    (e.registerForeign symbol origin).1 = e := by
  unfold registerForeign at h ⊢
  split at h
  · rfl
  · split at h
    · cases h
    · rfl

theorem grown_append (e : Engine) (growths : List Growth) (growth : Growth) :
    e.grown (growths ++ [growth]) = growth.run (e.grown growths) := by
  simp [Engine.grown]

/-- Every entry point that is recorded was bound by the load that recorded it. -/
theorem addressed_grown (hnone : ∀ name, e.modules.get? name = none) (growths : List Growth)
    {record : LoadRecord} {entry : EntryPoint}
    (hget : (e.grown growths).modules.get? name = some record) (hok : record.outcome = .ok entry) :
    ∃ before ns art rest, growths = before ++ .load ns (some art) name :: rest ∧
      Addressed (e.grown (before ++ [.load ns (some art) name])).registry art entry := by
  induction growths using List.reverseRecOn with
  | nil => exact absurd hget (by simp [Engine.grown, hnone])
  | append_singleton growths growth ih =>
    rw [grown_append] at hget
    obtain hold | ⟨ns, art, rfl, haddressed⟩ := modules_grow growth hget hok
    · obtain ⟨before, ns, art, rest, rfl, haddressed⟩ := ih hold
      exact ⟨before, ns, art, rest ++ [growth], by simp, haddressed⟩
    · exact ⟨growths, ns, art, [], rfl, by rwa [grown_append]⟩

/-- Registered symbols keep one identity for life. Take an engine that is new, whatever it has been asked
to register and load, and ask it for more:

* the records that there were are still the first ones and have not changed, and each name is still
  resolved to the record that it had;
* records of different names have different addresses;
* a registration that fails changes nothing;
* a symbol has instances of one generation only, which is the one that the table of symbols names, and
  the table never changes what it names;
* when another generation is made, no record is without an instance;
* an entry point is bound to the address of each symbol that its artifact imports and that was
  registered when it was loaded, and to nothing else. -/
theorem identity_for_life (catalog : Option Catalog) (env : Env) (around : Surroundings)
    (growths more : List Growth) :
    let fresh : Engine := { catalog, env, around }
    let e := fresh.grown growths
    let e' := fresh.grown (growths ++ more)
    (e.registry.records <+: e'.registry.records ∧
      ∀ x record, e.registry.resolve? x = some record → e'.registry.resolve? x = some record) ∧
    (∀ r ∈ e.registry.records, ∀ r' ∈ e.registry.records,
      r.symbol.name ≠ r'.symbol.name → r.address ≠ r'.address) ∧
    (∀ symbol origin failure, e.registry.register symbol origin = .error failure →
      (Growth.register symbol origin).run e = e) ∧
    (∀ symbol origin failure, (e.registerForeign symbol origin).2 = .error failure →
      (Growth.foreign symbol origin).run e = e) ∧
    (∀ x g m, e.Materialised x g m → e.symbols.get? x = some m ∧
      ∀ g' m', e'.Materialised x g' m' → g' = g ∧ m' = m) ∧
    (∀ x m, e.symbols.get? x = some m →
      (∃ g, e.Materialised x g m) ∧ e'.symbols.get? x = some m) ∧
    (e.generation < e'.generation → ∀ r ∈ e.registry.records,
      ∃ m, e'.symbols.get? r.symbol.name = some m) ∧
    ∀ name record entry, e.modules.get? name = some record → record.outcome = .ok entry →
      ∃ before ns art rest, growths = before ++ .load ns (some art) name :: rest ∧
        Addressed (fresh.grown (before ++ [.load ns (some art) name])).registry art entry := by
  intro fresh e e'
  have he : e.Lasting := ((lasting_fresh catalog env around).grown growths).1
  have hafter : e' = e.grown more := List.foldl_append
  have he' : e'.Lasting := hafter ▸ (he.grown more).1
  have honward : e.Onward e' := hafter ▸ (he.grown more).2
  refine ⟨⟨honward.records, fun x record => Registry.resolve?_of_prefix honward.records⟩,
    fun r hr r' hr' => he.orderly.address_ne hr hr', ?register, ?foreign, ?single, ?symbols, ?behind, ?bound⟩
  case register =>
    intro symbol origin failure hfailed
    simp only [Growth.run, hfailed]
  case foreign =>
    intro symbol origin failure hfailed
    exact registerForeign_error hfailed
  case single =>
    intro x g m hx
    obtain ⟨-, hm⟩ := he.single x g m hx
    refine ⟨hm, fun g' m' hx' => ?_⟩
    obtain ⟨-, hm'⟩ := he'.single x g' m' hx'
    cases hm'.symm.trans (honward.symbols x m hm)
    exact ⟨generation_unique hx'.1 hx.1, rfl⟩
  case symbols =>
    intro x m hm
    obtain ⟨g, -, hx⟩ := he.provided x m hm
    exact ⟨⟨g, hx⟩, honward.symbols x m hm⟩
  case behind =>
    intro hlater r hr
    have hovertaken := honward.overtaken hlater
    refine Option.ne_none_iff_exists'.mp ((he'.made r.symbol.name).mpr ?_)
    -- the records that there were are among those that have instances now
    obtain ⟨added, hadded⟩ := honward.records
    rw [← hadded, List.take_append, List.take_of_length_le hovertaken, recorded, List.map_append]
    exact List.mem_append_left _ (List.mem_map_of_mem hr)
  case bound =>
    intro name record entry hget hok
    exact addressed_grown (fun _ => by simp [fresh, Table.get?]) growths hget hok

end Engine

end WasmLisp
