import Mathlib
import WasmLisp.Proofs.Engine.Instances
import WasmLisp.Proofs.Engine.Singular

/-!
# Generations of registered symbols

A symbol is registered, and later an instance is made that provides it: all symbols that were registered
since the last time get theirs together, as one generation. The places of the records, the number of
records that have instances and the number of generations are counted apart.

* `Store.Offers`: what the live instances of a name export;
* `Engine.Lasting`: the records with instances are the first ones, and each has its instance in one
  generation only;
* `Engine.Onward`: what comes later in the life of an engine takes nothing back.

Loading keeps the one and leads to the other, whether it succeeds or not (`Engine.Lasting.load`).
-/

namespace WasmLisp

namespace Machine.Store

variable {η : Type} {s t : Store η} {inst : Instance} {m x : String}

/-! ## What instances offer -/

/-- A live instance of a name exports something under a name. -/
def Offers (s : Store η) (m x : String) : Prop :=
  ∃ (i : Nat) (inst : Instance), s.instances[i]? = some inst ∧ inst.live = true ∧ inst.name = m ∧
    x ∈ inst.exports.map (·.1)

theorem Offers.grown (h : s.Offers m x) (hgrown : s.Grown t) : t.Offers m x := by
  obtain ⟨i, inst, hi, hinst⟩ := h
  exact ⟨i, inst, hgrown.instances i inst hi, hinst⟩

/-- What is offered in addition has a name of an instance that was added. -/
theorem Offers.of_adds {P : String → Prop} (h : t.Offers m x) (hadds : s.Adds P t) :
    s.Offers m x ∨ P m := by
  obtain ⟨i, inst, hi, hlive, rfl, hx⟩ := h
  obtain hold | hnew := hadds i inst hi hlive
  · exact .inl ⟨i, inst, hold, hlive, rfl, hx⟩
  · exact .inr hnew

theorem offers_push (ht : t.instances = s.instances.push inst) (hlive : inst.live = true) :
    t.Offers m x ↔ s.Offers m x ∨ m = inst.name ∧ x ∈ inst.exports.map (·.1) := by
  constructor
  · rintro ⟨i, inst', hi, hlive', rfl, hx⟩
    rw [ht, Array.getElem?_push] at hi
    split at hi
    · cases hi
      exact .inr ⟨rfl, hx⟩
    · exact .inl ⟨i, inst', hi, hlive', rfl, hx⟩
  · rintro (⟨i, inst', hi, hinst'⟩ | ⟨rfl, hx⟩)
    · refine ⟨i, inst', ?_, hinst'⟩
      have hlt := (Array.getElem?_eq_some_iff.mp hi).1
      rw [ht, Array.getElem?_push, if_neg (by omega)]
      exact hi
    · refine ⟨s.instances.size, inst, ?_, hlive, rfl, hx⟩
      rw [ht, Array.getElem?_push_size]

theorem offers_addHost (s : Store η) {n : String} {fns : List (String × η × Binary.FuncType)} :
    (s.addHost n fns).Offers m x ↔ s.Offers m x ∨ m = n ∧ x ∈ fns.map (·.1) := by
  rw [offers_push (t := s.addHost n fns) rfl rfl, List.map_reverse, List.mem_reverse]
  exact or_congr_right (and_congr_right fun _ => by
    rw [map_fst_zipIdx fun i => Extern.func (s.funcs.size + i)])

theorem offers_addGlobals (s : Store η) {n : String} {data : List (String × Int64)} :
    (s.addGlobals n data).Offers m x ↔ s.Offers m x ∨ m = n ∧ x ∈ data.map (·.1) := by
  rw [offers_push (t := s.addGlobals n data) rfl rfl]
  exact or_congr_right (and_congr_right fun _ => by
    rw [map_fst_zipIdx fun i => Extern.global (s.globals.size + i)])

/-- To add an instance of nothing is to add none. -/
theorem offers_unlessEmpty {α β : Type} {n : String} {xs : List α} {f : α → String × β}
    (h : t.Offers m x ↔ s.Offers m x ∨ m = n ∧ x ∈ (xs.map f).map (·.1)) :
    (if xs.isEmpty then s else t).Offers m x ↔ s.Offers m x ∨ m = n ∧ x ∈ (xs.map f).map (·.1) := by
  split
  · rename_i hnil
    simp [List.isEmpty_iff.mp hnil]
  · exact h

end Machine.Store

namespace Engine

open Machine (Store)
open Registry (recorded)

variable {e e₁ e₂ : Engine} {name : String}

/-! ## Generations -/

/-- A live instance of a generation, which has the name `m`, provides a symbol. -/
def Materialised (e : Engine) (x : String) (g : Nat) (m : String) : Prop :=
  (m = s!"#foreign/{g}" ∨ m = s!"#foreign.data/{g}") ∧ e.store.Offers m x

/-- The generation can be read off the name. -/
theorem generation_unique {m : String} {g k : Nat}
    (h : m = s!"#foreign/{g}" ∨ m = s!"#foreign.data/{g}")
    (h' : m = s!"#foreign/{k}" ∨ m = s!"#foreign.data/{k}") : g = k := by
  rcases h with rfl | rfl
  · rcases h' with h' | h'
    · exact foreign_inj h'
    · exact absurd h' (foreign_ne_foreignData g k)
  · rcases h' with h' | h'
    · exact absurd h'.symm (foreign_ne_foreignData k g)
    · exact foreignData_inj h'

/-- The records are in order; those that have instances are the first ones, and the table of symbols
says in which instance. No instance of another generation provides them. -/
structure Lasting (e : Engine) : Prop where
  orderly : e.registry.Orderly
  counted : e.materialized ≤ e.registry.records.length
  made : ∀ x, e.symbols.get? x ≠ none ↔ x ∈ recorded (e.registry.records.take e.materialized)
  provided : ∀ x m, e.symbols.get? x = some m → ∃ g ≤ e.generation, e.Materialised x g m
  single : ∀ x g m, e.Materialised x g m → g ≤ e.generation ∧ e.symbols.get? x = some m

/-- What has happened stays: records, instances and the table of symbols only grow, and a further
generation takes in all that was registered before. -/
structure Onward (e e' : Engine) : Prop where
  records : e.registry.records <+: e'.registry.records
  symbols : ∀ x m, e.symbols.get? x = some m → e'.symbols.get? x = some m
  materialized : e.materialized ≤ e'.materialized
  generation : e.generation ≤ e'.generation
  overtaken : e.generation < e'.generation → e.registry.records.length ≤ e'.materialized

theorem Onward.refl (e : Engine) : e.Onward e :=
  ⟨List.prefix_rfl, fun _ _ h => h, Nat.le_refl _, Nat.le_refl _, fun h => absurd h (Nat.lt_irrefl _)⟩

theorem Onward.trans (h : e.Onward e₁) (h' : e₁.Onward e₂) : e.Onward e₂ where
  records := h.records.trans h'.records
  symbols x m hx := h'.symbols x m (h.symbols x m hx)
  materialized := h.materialized.trans h'.materialized
  generation := h.generation.trans h'.generation
  overtaken := by
    intro hlt
    by_cases hfirst : e.generation < e₁.generation
    · exact (h.overtaken hfirst).trans h'.materialized
    · have hgeneration := h.generation
      exact h.records.length_le.trans (h'.overtaken (by omega))

/-! ## A generation -/

/-- The names of the records of a kind that have no instances yet. -/
def fresh (e : Engine) (p : Registry.Record → Bool) : List String :=
  recorded ((e.registry.since e.materialized).filter p)

/-- Whether a record is one of a function. -/
def isFunction (r : Registry.Record) : Bool := r.symbol.kind == .function

def isData (r : Registry.Record) : Bool := r.symbol.kind != .function

theorem mem_fresh {x : String} : x ∈ recorded (e.registry.records.drop e.materialized) ↔
    x ∈ e.fresh isFunction ∨ x ∈ e.fresh isData := by
  unfold fresh recorded
  simp only [List.mem_map, List.mem_filter, isFunction, isData, Registry.since]
  constructor
  · rintro ⟨r, hr, rfl⟩
    by_cases hkind : r.symbol.kind = .function
    · exact .inl ⟨r, ⟨hr, by simp [hkind]⟩, rfl⟩
    · exact .inr ⟨r, ⟨hr, by simp [hkind]⟩, rfl⟩
  · rintro (⟨r, ⟨hr, -⟩, rfl⟩ | ⟨r, ⟨hr, -⟩, rfl⟩)
    · exact ⟨r, hr, rfl⟩
    · exact ⟨r, hr, rfl⟩

theorem get?_symbols_materialize (e : Engine) (x : String) :
    e.materialize.symbols.get? x =
      if x ∈ e.fresh isData then some s!"#foreign.data/{e.generation + 1}"
      else if x ∈ e.fresh isFunction then some s!"#foreign/{e.generation + 1}"
      else e.symbols.get? x := by
  unfold materialize fresh
  split
  · rename_i hnil
    simp [hnil, recorded]
  · dsimp only
    rw [Table.get?_foldl_insert, Table.get?_foldl_insert]
    rfl

theorem offers_materialize (e : Engine) (m x : String) :
    e.materialize.store.Offers m x ↔ e.store.Offers m x ∨
      m = s!"#foreign/{e.generation + 1}" ∧ x ∈ e.fresh isFunction ∨
        m = s!"#foreign.data/{e.generation + 1}" ∧ x ∈ e.fresh isData := by
  unfold materialize fresh
  split
  · rename_i hnil
    simp [hnil, recorded]
  · have hnames : ∀ {β : Type} (f : Registry.Record → β) (p : Registry.Record → Bool),
        (((e.registry.since e.materialized).filter p).map fun r => (r.symbol.name, f r)).map (·.1) =
          recorded ((e.registry.since e.materialized).filter p) := by
      intro β f p
      rw [List.map_map]
      rfl
    dsimp only
    rw [Store.offers_unlessEmpty (Store.offers_addGlobals _),
      Store.offers_unlessEmpty (Store.offers_addHost _), hnames, hnames, or_assoc]
    rfl

/-- What has an instance is not registered once more. -/
theorem Lasting.notMem_fresh (h : e.Lasting) {x : String} (hx : e.symbols.get? x ≠ none) :
    x ∉ e.fresh isFunction ∧ x ∉ e.fresh isData := by
  have hold := (h.made x).mp hx
  have hdistinct := h.orderly.distinct
  rw [← List.take_append_drop e.materialized e.registry.records, recorded, List.map_append]
    at hdistinct
  rw [← not_or, ← mem_fresh]
  exact fun hnew => (List.nodup_append.mp hdistinct).2.2 x hold x hnew rfl

/-- A record is of one kind. -/
theorem Lasting.notMem_fresh_isData (h : e.Lasting) {x : String} (hx : x ∈ e.fresh isFunction) :
    x ∉ e.fresh isData := by
  intro hx'
  obtain ⟨r, hr, rfl⟩ := List.mem_map.mp hx
  obtain ⟨r', hr', hname⟩ := List.mem_map.mp hx'
  obtain ⟨hmem, hfunction⟩ := List.mem_filter.mp hr
  obtain ⟨hmem', hdata⟩ := List.mem_filter.mp hr'
  have heq : r' = r := List.inj_on_of_nodup_map h.orderly.distinct (List.mem_of_mem_drop hmem')
    (List.mem_of_mem_drop hmem) hname
  subst heq
  unfold isData at hdata
  unfold isFunction at hfunction
  simp_all

/-- Making a generation either does nothing, or gives all records instances. -/
theorem materialize_cases (e : Engine) :
    e.materialize = e ∨ e.materialize.materialized = e.registry.records.length ∧
      e.materialize.generation = e.generation + 1 := by
  unfold materialize
  split
  · exact .inl rfl
  · exact .inr ⟨rfl, rfl⟩

theorem Lasting.onward_materialize (h : e.Lasting) : e.Onward e.materialize := by
  obtain heq | ⟨hall, hgeneration⟩ := materialize_cases e
  · rw [heq]
    exact .refl e
  refine ⟨by rw [registry_materialize], fun x m hx => ?_, ?_, by omega, fun _ => ?_⟩
  · obtain ⟨hfunction, hdata⟩ := h.notMem_fresh (x := x) (by simp [hx])
    rw [get?_symbols_materialize, if_neg hdata, if_neg hfunction, hx]
  · rw [hall]
    exact h.counted
  · rw [hall]

theorem Lasting.materialize (h : e.Lasting) : e.materialize.Lasting := by
  obtain heq | ⟨hall, hgeneration⟩ := materialize_cases e
  · rw [heq]
    exact h
  have honward := h.onward_materialize
  have hsymbols := get?_symbols_materialize e
  have hoffers := offers_materialize e
  refine ⟨by rw [registry_materialize]; exact h.orderly, ?counted, ?made, ?provided, ?single⟩
  case counted => rw [hall, registry_materialize]
  case made =>
    intro x
    have hnew : x ∈ recorded (e.registry.records.drop e.materialized) ↔ _ := mem_fresh
    rw [hall, registry_materialize, List.take_length, hsymbols,
      ← List.take_append_drop e.materialized e.registry.records, recorded, List.map_append,
      List.mem_append]
    rw [← recorded, ← recorded, hnew, ← h.made x]
    by_cases hdata : x ∈ e.fresh isData
    · simp [hdata]
    · by_cases hfunction : x ∈ e.fresh isFunction
      · simp [hdata, hfunction]
      · simp [hdata, hfunction]
  case provided =>
    intro x m hx
    by_cases hdata : x ∈ e.fresh isData
    · rw [hsymbols, if_pos hdata] at hx
      cases hx
      exact ⟨_, hgeneration.ge, .inr rfl, (hoffers _ _).mpr (.inr (.inr ⟨rfl, hdata⟩))⟩
    by_cases hfunction : x ∈ e.fresh isFunction
    · rw [hsymbols, if_neg hdata, if_pos hfunction] at hx
      cases hx
      exact ⟨_, hgeneration.ge, .inl rfl, (hoffers _ _).mpr (.inr (.inl ⟨rfl, hfunction⟩))⟩
    · rw [hsymbols, if_neg hdata, if_neg hfunction] at hx
      obtain ⟨g, hg, hm, hold⟩ := h.provided x m hx
      exact ⟨g, hg.trans honward.generation, hm, (hoffers _ _).mpr (.inl hold)⟩
  case single =>
    rintro x g m ⟨hm, hoffer⟩
    -- the instance is one of those before, or one of the two that were made now
    obtain hold | ⟨rfl, hfunction⟩ | ⟨rfl, hdata⟩ := (hoffers m x).mp hoffer
    · obtain ⟨hg, hx⟩ := h.single x g m ⟨hm, hold⟩
      exact ⟨hg.trans honward.generation, honward.symbols x m hx⟩
    · refine ⟨(generation_unique hm (.inl rfl)).le.trans hgeneration.ge, ?_⟩
      rw [hsymbols, if_neg (h.notMem_fresh_isData hfunction), if_pos hfunction]
    · refine ⟨(generation_unique hm (.inr rfl)).le.trans hgeneration.ge, ?_⟩
      rw [hsymbols, if_pos hdata]

/-! ## Steps of the engine -/

/-- To register symbols leaves the instances as they are. -/
theorem Lasting.withRegistry (h : e.Lasting) {registry : Registry} (horderly : registry.Orderly)
    (hpre : e.registry.records <+: registry.records) :
    ({ e with registry } : Engine).Lasting ∧ e.Onward { e with registry } := by
  refine ⟨⟨horderly, h.counted.trans hpre.length_le, fun x => ?_, h.provided, h.single⟩,
    hpre, fun _ _ hx => hx, Nat.le_refl _, Nat.le_refl _, fun hlt => absurd hlt (Nat.lt_irrefl _)⟩
  -- what is registered goes after the records that have instances
  obtain ⟨more, hmore⟩ := hpre
  dsimp only
  rw [h.made x, ← hmore, List.take_append_of_le_length h.counted]

theorem Lasting.resolveImport (h : e.Lasting) (module : String) (info : Binary.Info)
    (i : Binary.Import) (p : Plan) : (e.resolveImport module info i p).1.Lasting ∧
      e.Onward (e.resolveImport module info i p).1 := by
  obtain heq | ⟨_, _, _, _, registry, -, -, hregister, heq⟩ := resolveImport_cases e module info i p
  · rw [heq]
    exact ⟨h, .refl e⟩
  · rw [heq]
    obtain ⟨horderly, hpre⟩ := h.orderly.register hregister
    obtain ⟨h₁, honward⟩ := h.withRegistry horderly hpre
    exact ⟨h₁.materialize, honward.trans h₁.onward_materialize⟩

theorem Lasting.bound (h : e.Lasting) (name : String) (a : Prepared) :
    (e.bound name a).1.Lasting ∧ e.Onward (e.bound name a).1 := by
  refine resolveAll_induction (motive := fun e₁ => e₁.Lasting ∧ e.Onward e₁) ?_ _ _
    ⟨h.materialize, h.onward_materialize⟩
  rintro e₁ i p ⟨h₁, honward⟩
  obtain ⟨h₂, honward'⟩ := h₁.resolveImport name a.info i p
  exact ⟨h₂, honward.trans honward'⟩

/-- What running a module leaves as it is. -/
structure KeepsSymbols (e e' : Engine) : Prop where
  registry : e'.registry = e.registry
  symbols : e'.symbols = e.symbols
  materialized : e'.materialized = e.materialized
  generation : e'.generation = e.generation
  store : e.store.Grown e'.store

theorem Ran.keepsSymbols (h : e.Ran e₁) : e.KeepsSymbols e₁ := by
  obtain ⟨_, _, _, rfl, hgrown⟩ := h
  exact ⟨rfl, rfl, rfl, rfl, hgrown⟩

/-- Instances of modules are not those of generations. -/
theorem Lasting.kept (h : e.Lasting) (hkept : e.KeepsSymbols e₁) (hname : Loadable name)
    (hadds : e.store.Adds (Reserved name) e₁.store) : e₁.Lasting ∧ e.Onward e₁ := by
  obtain ⟨hregistry, hsymbols, hmaterialized, hgeneration, hgrown⟩ := hkept
  constructor
  · refine ⟨by rw [hregistry]; exact h.orderly, by rw [hregistry, hmaterialized]; exact h.counted,
      by rw [hregistry, hmaterialized, hsymbols]; exact h.made, fun x m hx => ?_, ?_⟩
    · rw [hsymbols] at hx
      obtain ⟨g, hg, hm, hoffer⟩ := h.provided x m hx
      exact ⟨g, hgeneration ▸ hg, hm, hoffer.grown hgrown⟩
    · rintro x g m ⟨hm, hoffer⟩
      rw [hgeneration, hsymbols]
      obtain hold | hreserved := hoffer.of_adds hadds
      · exact h.single x g m ⟨hm, hold⟩
      · -- an instance that was added has the module's name as its stem, one of a generation has none
        have hnil := (hreserved.stem hname).symm.trans (stem_foreign hm)
        exact absurd (String.toList_inj.mp hnil) hname.1
  · refine ⟨by rw [hregistry], fun x m hx => by rw [hsymbols]; exact hx, by rw [hmaterialized],
      by rw [hgeneration], fun hlt => ?_⟩
    rw [hgeneration] at hlt
    exact absurd hlt (Nat.lt_irrefl _)

/-- Linking first binds the imports and then runs the artifact, unless it fails before. -/
theorem link_stages (e : Engine) (ns : String) (art : Artifact) (name : String) :
    ∃ e₁, (e₁ = e ∨ ∃ a, e₁ = (e.bound name a).1) ∧ e₁.KeepsSymbols (e.link ns art name).1 ∧
      e₁.store.Adds (Reserved name) (e.link ns art name).1.store := by
  unfold link
  cases e.prepare art name with
  | error failure => exact ⟨e, .inl rfl, (Ran.refl e).keepsSymbols, .refl _ _⟩
  | ok a =>
    dsimp only
    cases hbound : e.bound name a with
    | mk e₁ r =>
      refine ⟨e₁, .inr ⟨a, by rw [hbound]⟩, ?_⟩
      rw [show e.materialize.resolveAll name a.info {} a.info.imports = (e₁, r) from hbound]
      cases r with
      | error failure => exact ⟨(Ran.refl e₁).keepsSymbols, .refl _ _⟩
      | ok p =>
        dsimp only
        split
        · exact ⟨(Ran.refl e₁).keepsSymbols, .refl _ _⟩
        · rename_i redirected _
          refine ⟨?_, adds_start e₁ ns name redirected.bytes p a⟩
          obtain ⟨-, hran⟩ | ⟨-, e₂, hran, hpublish⟩ := start_cases e₁ ns name redirected.bytes p a
          · exact hran.keepsSymbols
          · rw [hpublish]
            have hkept := hran.keepsSymbols
            exact ⟨hkept.registry, hkept.symbols, hkept.materialized, hkept.generation, hkept.store⟩

theorem Lasting.link (h : e.Lasting) (hname : Loadable name) (ns : String) (art : Artifact) :
    (e.link ns art name).1.Lasting ∧ e.Onward (e.link ns art name).1 := by
  obtain ⟨e₁, hbound, hkept, hadds⟩ := link_stages e ns art name
  have h₁ : e₁.Lasting ∧ e.Onward e₁ := by
    rcases hbound with rfl | ⟨a, rfl⟩
    · exact ⟨h, .refl _⟩
    · exact h.bound name a
  obtain ⟨h₂, honward⟩ := h₁.1.kept hkept hname hadds
  exact ⟨h₂, h₁.2.trans honward⟩

theorem load_none (e : Engine) (ns name : String) : (e.load ns none name).1 = e := by
  unfold load
  split
  · rfl
  · rfl
  · rename_i heq
    cases heq

theorem Lasting.load (h : e.Lasting) (ns : String) (art : Option Artifact) (name : String) :
    (e.load ns art name).1.Lasting ∧ e.Onward (e.load ns art name).1 := by
  cases art with
  | none =>
    rw [load_none]
    exact ⟨h, .refl e⟩
  | some art =>
    obtain ⟨failure, -, heq⟩ | ⟨-, record, result, metrics, -, -, heq⟩ | ⟨hrefusal, -, heq⟩ :=
      load_cases e ns art name
    · rw [heq]
      exact ⟨h, .refl e⟩
    · rw [heq]
      exact ⟨⟨h.orderly, h.counted, h.made, h.provided, h.single⟩,
        ⟨List.prefix_rfl, fun _ _ hx => hx, Nat.le_refl _, Nat.le_refl _,
          fun hlt => absurd hlt (Nat.lt_irrefl _)⟩⟩
    · rw [heq]
      have hbegin : (e.begin art name).Lasting := ⟨h.orderly, h.counted, h.made, h.provided, h.single⟩
      obtain ⟨h₁, honward⟩ := hbegin.link (loadable_of_refusal? hrefusal) ns art
      exact ⟨⟨h₁.orderly, h₁.counted, h₁.made, h₁.provided, h₁.single⟩,
        ⟨honward.records, honward.symbols, honward.materialized, honward.generation,
          honward.overtaken⟩⟩

theorem Lasting.registerForeign (h : e.Lasting) (s : Registry.Foreign) (origin : String) :
    (e.registerForeign s origin).1.Lasting ∧ e.Onward (e.registerForeign s origin).1 := by
  unfold Engine.registerForeign
  split
  · exact ⟨h, .refl e⟩
  · split
    · rename_i hr
      obtain ⟨horderly, hpre⟩ := h.orderly.register hr
      exact h.withRegistry horderly hpre
    · exact ⟨h, .refl e⟩

end Engine

end WasmLisp
