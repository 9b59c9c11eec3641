import Mathlib
import WasmLisp.Proofs.Engine
import WasmLisp.Proofs.Registry
import WasmLisp.Proofs.Results

/-!
# Data symbols have one provider

A data symbol is registered, or a loaded artifact defines it. Registration looks for a definition
first, and loading looks for a registration; only the search in the catalog looks for neither.

* `Engine.Singular`: what one step of the engine relies on, and keeps as long as no artifact defines a
  symbol of the catalog's names (`Engine.Singular.load`, `Engine.Singular.registerForeign`);
* `Engine.Later`: providers stay what they are.
-/

namespace WasmLisp

theorem Catalog.name_of_lookup? {c : Catalog} {x lib : String} {s : Registry.Foreign}
    (h : c.lookup? x = some (s, lib)) : s.name = x := by
  obtain ⟨l, -, hl⟩ := List.exists_of_findSome?_eq_some h
  obtain ⟨s', hs', heq⟩ := Option.map_eq_some_iff.mp hl
  cases heq
  simpa using List.find?_some hs'

namespace Engine

open Registry (recorded)

variable {e e₁ e₂ : Engine}

/-! ## Providers of data -/

/-- The module that provides a data symbol. -/
def dataModule? (e : Engine) (x : String) : Option String := (e.symbols.get? x).or (e.globals.get? x)

/-- The address of a data symbol. -/
def dataAddress? (e : Engine) (x : String) : Option Nat :=
  (e.dataModule? x).bind fun m => (e.store.export? m x).bind Machine.Extern.global?

/-- What has providers in an engine: every registered name is there once, only those that were
given instances are found as symbols, and no data that an artifact defines is registered or could be
registered from the catalog. -/
structure Singular (e : Engine) : Prop where
  distinct : (recorded e.registry.records).Nodup
  made : ∀ x, e.symbols.get? x ≠ none → x ∈ recorded (e.registry.records.take e.materialized)
  singular : ∀ x, e.globals.get? x ≠ none → e.registry.resolve? x = none
  apart : ∀ x, e.globals.get? x ≠ none → ∀ c, e.catalog = some c → c.lookup? x = none

/-- Providers and instances stay what they are. -/
structure Later (e e' : Engine) : Prop where
  catalog : e'.catalog = e.catalog
  store : e.store.Grown e'.store
  symbols : ∀ x m, e.symbols.get? x = some m → e'.symbols.get? x = some m
  globals : ∀ x m, e.globals.get? x = some m → e'.globals.get? x = some m

theorem Later.refl (e : Engine) : e.Later e := ⟨rfl, .refl _, fun _ _ h => h, fun _ _ h => h⟩

theorem Later.trans (h : e.Later e₁) (h' : e₁.Later e₂) : e.Later e₂ :=
  ⟨h'.catalog.trans h.catalog, h.store.trans h'.store,
    fun x m hx => h'.symbols x m (h.symbols x m hx),
    fun x m hx => h'.globals x m (h.globals x m hx)⟩

/-- A symbol with an instance is registered. -/
theorem Singular.symbols_eq_none (h : e.Singular) {x : String} (hx : e.registry.resolve? x = none) :
    e.symbols.get? x = none := by
  by_contra hne
  have hmem := h.made x hne
  rw [Registry.resolve?_eq_none] at hx
  obtain ⟨r, hr, rfl⟩ := List.mem_map.mp hmem
  exact hx (List.mem_map_of_mem (List.mem_of_mem_take hr))

/-- A module that provides data stays its provider, unless the symbol gets an instance of its own. -/
theorem Later.dataModule? (h : e.Later e₁) {x m : String}
    (hsingle : e₁.globals.get? x ≠ none → e₁.symbols.get? x = none) (hx : e.dataModule? x = some m) :
    e₁.dataModule? x = some m := by
  unfold Engine.dataModule? at hx ⊢
  cases hsymbol : e.symbols.get? x with
  | some m' =>
    rw [hsymbol] at hx
    rw [h.symbols x m' hsymbol]
    exact hx
  | none =>
    rw [hsymbol] at hx
    have hglobal : e₁.globals.get? x = some m := h.globals x m hx
    rw [hsingle (by simp [hglobal]), hglobal]
    rfl

/-- A data symbol that is found stays where it is. -/
theorem Later.dataAddress? (h : e.Later e₁) {x : String} {a : Nat}
    (hsingle : e₁.globals.get? x ≠ none → e₁.symbols.get? x = none) (hx : e.dataAddress? x = some a) :
    e₁.dataAddress? x = some a := by
  obtain ⟨m, hm, hx⟩ := Option.bind_eq_some_iff.mp hx
  obtain ⟨ext, hext, ha⟩ := Option.bind_eq_some_iff.mp hx
  exact Option.bind_eq_some_iff.mpr ⟨m, h.dataModule? hsingle hm,
    Option.bind_eq_some_iff.mpr ⟨ext, h.store.export? hext, ha⟩⟩

/-! ## Steps of the engine -/

theorem Ran.later (h : e.Ran e₁) : e.Later e₁ := by
  obtain ⟨store, env, around, rfl, hgrown⟩ := h
  exact ⟨rfl, hgrown, fun _ _ hx => hx, fun _ _ hx => hx⟩

theorem Singular.ran (h : e.Singular) (hran : e.Ran e₁) : e₁.Singular ∧ e.Later e₁ := by
  refine ⟨?_, hran.later⟩
  obtain ⟨store, env, around, rfl, -⟩ := hran
  exact ⟨h.distinct, h.made, h.singular, h.apart⟩

/-- To register a symbol that no artifact defines. -/
theorem Singular.register (h : e.Singular) {s : Registry.Foreign} {origin : String}
    {record : Registry.Record} {registry : Registry} (hs : e.globals.get? s.name = none)
    (hr : e.registry.register s origin = .ok (record, registry)) :
    ({ e with registry } : Engine).Singular ∧ e.Later { e with registry } := by
  have hlater : e.Later { e with registry } := ⟨rfl, .refl _, fun _ _ hx => hx, fun _ _ hx => hx⟩
  refine ⟨?_, hlater⟩
  obtain rfl | ⟨hnone, added, hadded, hrecords⟩ := Registry.register_cases hr
  · exact h
  have hnames : recorded registry.records = recorded e.registry.records ++ [s.name] := by
    simp [recorded, hrecords, hadded]
  refine ⟨?_, fun x hx => ?_, fun x hx => ?_, h.apart⟩
  · rw [hrecords]
    exact Registry.nodup_recorded_append h.distinct (hadded ▸ hnone)
  · have hmem := h.made x hx
    unfold recorded at hmem ⊢
    rw [hrecords, List.take_append, List.map_append]
    exact List.mem_append_left _ hmem
  · have hold := Registry.resolve?_eq_none.mp (h.singular x hx)
    rw [Registry.resolve?_eq_none, hnames, List.mem_append, List.mem_singleton]
    rintro (hmem | rfl)
    · exact hold hmem
    · exact hx hs

/-- The symbols that are made from records. -/
theorem symbols_materialize (e : Engine) (x : String) :
    e.materialize.symbols.get? x = e.symbols.get? x ∨
      x ∈ recorded (e.registry.records.drop e.materialized) := by
  unfold materialize
  split
  · exact .inl rfl
  · rename_i recs hrecs
    dsimp only
    rw [Table.get?_foldl_insert, Table.get?_foldl_insert]
    have hmem : ∀ p : Registry.Record → Bool,
        x ∈ ((e.registry.since e.materialized).filter p).map (·.symbol.name) →
        x ∈ recorded (e.registry.records.drop e.materialized) := by
      intro p hx
      obtain ⟨r, hr, rfl⟩ := List.mem_map.mp hx
      exact List.mem_map_of_mem (List.mem_filter.mp hr).1
    split
    · rename_i hx
      exact .inr (hmem _ hx)
    split
    · rename_i hx
      exact .inr (hmem _ hx)
    · exact .inl rfl

/-- Either there is nothing to make, or all records have instances then. -/
theorem materialized_materialize (e : Engine) :
    e.materialize = e ∨ e.materialize.materialized = e.registry.records.length := by
  unfold materialize
  split
  · exact .inl rfl
  · exact .inr rfl

theorem registry_materialize (e : Engine) : e.materialize.registry = e.registry := by
  unfold materialize
  split <;> rfl

theorem Searched.kept (h : e.Searched e₁) :
    e₁.catalog = e.catalog ∧ e₁.globals = e.globals ∧ e.store.Grown e₁.store := by
  obtain ⟨_, _, _, _, _, _, rfl, hgrown⟩ := h
  exact ⟨rfl, rfl, hgrown⟩

theorem Singular.materialize (h : e.Singular) : e.materialize.Singular ∧ e.Later e.materialize := by
  obtain ⟨hcatalog, hglobals, hgrown⟩ := (searched_materialize e).kept
  have hregistry := registry_materialize e
  constructor
  · refine ⟨by rw [hregistry]; exact h.distinct, fun x hx => ?_, ?_, ?_⟩
    · obtain heq | hall := materialized_materialize e
      · rw [heq] at hx ⊢
        exact h.made x hx
      · rw [hregistry, hall, List.take_length]
        obtain hsame | hnew := symbols_materialize e x
        · obtain ⟨r, hr, rfl⟩ := List.mem_map.mp (h.made x (hsame ▸ hx))
          exact List.mem_map_of_mem (List.mem_of_mem_take hr)
        · obtain ⟨r, hr, rfl⟩ := List.mem_map.mp hnew
          exact List.mem_map_of_mem (List.mem_of_mem_drop hr)
    · rw [hglobals, hregistry]
      exact h.singular
    · rw [hglobals, hcatalog]
      exact h.apart
  · refine ⟨hcatalog, hgrown, fun x m hx => ?_, fun x m hx => hglobals ▸ hx⟩
    obtain hsame | hnew := symbols_materialize e x
    · exact hsame.trans hx
    · -- a name that has an instance is not registered once more
      have hold := h.made x (by simp [hx])
      have hdistinct := h.distinct
      rw [← List.take_append_drop e.materialized e.registry.records, recorded, List.map_append]
        at hdistinct
      exact absurd rfl ((List.nodup_append.mp hdistinct).2.2 x hold x hnew)

/-- What an import leads to keeps providers single, and registers no name that the catalog lacks. -/
theorem Singular.resolveImport (h : e.Singular) (module : String) (info : Binary.Info)
    (i : Binary.Import) (p : Plan) :
    (e.resolveImport module info i p).1.Singular ∧ e.Later (e.resolveImport module info i p).1 ∧
      ∀ x, e.registry.resolve? x = none → (∀ c, e.catalog = some c → c.lookup? x = none) →
        (e.resolveImport module info i p).1.registry.resolve? x = none := by
  obtain heq | ⟨c, symbol, lib, record, registry, hc, hlookup, hregister, heq⟩ :=
    resolveImport_cases e module info i p
  · rw [heq]
    exact ⟨h, .refl e, fun x hx _ => hx⟩
  have hname := Catalog.name_of_lookup? hlookup
  have hfree : e.globals.get? symbol.name = none := by
    by_contra hne
    have hnone := h.apart _ hne c hc
    rw [hname, hlookup] at hnone
    cases hnone
  obtain ⟨hsingular, hlater⟩ := h.register hfree hregister
  obtain ⟨hsingular', hlater'⟩ := hsingular.materialize
  rw [heq]
  refine ⟨hsingular', hlater.trans hlater', fun x hx hcatalog => ?_⟩
  rw [registry_materialize]
  obtain rfl | ⟨-, added, hadded, hrecords⟩ := Registry.register_cases hregister
  · exact hx
  · rw [Registry.resolve?_eq_none] at hx ⊢
    unfold recorded at hx ⊢
    rw [hrecords, List.map_append, List.mem_append]
    rintro (hmem | hmem)
    · exact hx hmem
    · have hxs : x = i.name := by simpa [hadded, hname] using hmem
      have hnone := hcatalog c hc
      rw [hxs, hlookup] at hnone
      cases hnone

/-- The whole search for the providers of an artifact. -/
theorem Singular.bound (h : e.Singular) (name : String) (a : Prepared) :
    (e.bound name a).1.Singular ∧ e.Later (e.bound name a).1 ∧
      ∀ x, e.registry.resolve? x = none → (∀ c, e.catalog = some c → c.lookup? x = none) →
        (e.bound name a).1.registry.resolve? x = none := by
  obtain ⟨hsingular, hlater⟩ := h.materialize
  refine resolveAll_induction (motive := fun e₁ => e₁.Singular ∧ e.Later e₁ ∧
    ∀ x, e.registry.resolve? x = none → (∀ c, e.catalog = some c → c.lookup? x = none) →
      e₁.registry.resolve? x = none) ?_ _ _ ⟨hsingular, hlater, fun x hx _ => ?_⟩
  · rintro e₁ i p ⟨h₁, hlater₁, hfree₁⟩
    obtain ⟨h₂, hlater₂, hfree₂⟩ := h₁.resolveImport name a.info i p
    refine ⟨h₂, hlater₁.trans hlater₂, fun x hx hcatalog => ?_⟩
    exact hfree₂ x (hfree₁ x hx hcatalog) (hlater₁.catalog ▸ hcatalog)
  · rw [registry_materialize]
    exact hx

theorem checkGlobals_eq_ok {module : String} {names : List String}
    (h : e.checkGlobals module names = .ok ()) :
    ∀ g ∈ names, e.registry.resolve? g = none ∧ e.globals.get? g = none := by
  induction names with
  | nil => simp
  | cons g names ih =>
    unfold checkGlobals at h
    split at h
    · cases h
    · cases h
    · rename_i hregistry hglobals
      intro g' hg'
      rcases List.mem_cons.mp hg' with rfl | hg'
      · exact ⟨hregistry, hglobals⟩
      · exact ih h g' hg'

theorem prepare_eq_ok {art : Artifact} {name : String} {a : Prepared}
    (h : e.prepare art name = .ok a) :
    Binary.Info.inspect art.bytes = .ok a.info ∧ manifestOf art a.info name = .ok a.manifest ∧
      a.entry = (if art.entrySymbol = "" then a.manifest.entry else art.entrySymbol) ∧
      ∀ g ∈ a.info.exportedGlobals, e.registry.resolve? g = none ∧ e.globals.get? g = none := by
  unfold prepare at h
  cases hinspect : Binary.Info.inspect art.bytes with
  | error fault =>
    rw [hinspect] at h
    cases h
  | ok info =>
    rw [hinspect] at h
    obtain ⟨info', hinfo, h⟩ := Except.bind_eq_ok h
    cases hinfo
    obtain ⟨manifest, hmanifest, h⟩ := Except.bind_eq_ok h
    obtain ⟨_, hcheck, h⟩ := Except.bind_eq_ok h
    cases h
    exact ⟨rfl, hmanifest, rfl, checkGlobals_eq_ok hcheck⟩

/-- To publish data that nobody owns. -/
theorem later_publish (e : Engine) (name : String) (functions : List (String × Int)) {names : List String}
    (hfree : ∀ g ∈ names, e.globals.get? g = none) : e.Later (e.publish name functions names) := by
  refine ⟨rfl, .refl _, fun x m hx => hx, fun x m hx => ?_⟩
  rw [globals_publish]
  split
  · rename_i hmem
    rw [hfree x hmem] at hx
    cases hx
  · exact hx

/-- To publish data that is registered nowhere. -/
theorem Singular.publish (h : e.Singular) (name : String) (functions : List (String × Int))
    {names : List String}
    (hnames : ∀ g ∈ names, e.registry.resolve? g = none ∧ e.globals.get? g = none ∧
      ∀ c, e.catalog = some c → c.lookup? g = none) :
    (e.publish name functions names).Singular ∧ e.Later (e.publish name functions names) := by
  have hget := globals_publish e name functions names
  refine ⟨⟨h.distinct, h.made, fun x hx => ?_, fun x hx => ?_⟩,
    e.later_publish name functions fun g hg => (hnames g hg).2.1⟩
  · rw [hget] at hx
    split at hx
    · rename_i hmem
      exact (hnames x hmem).1
    · exact h.singular x hx
  · rw [hget] at hx
    split at hx
    · rename_i hmem
      exact (hnames x hmem).2.2
    · exact h.apart x hx

/-- No data that the artifact defines has the name of a symbol of the catalog. -/
def ApartFrom (catalog : Option Catalog) (art : Artifact) : Prop :=
  ∀ info, Binary.Info.inspect art.bytes = .ok info → ∀ g ∈ info.exportedGlobals,
    ∀ c, catalog = some c → c.lookup? g = none

theorem Singular.link (h : e.Singular) {art : Artifact} (hart : ApartFrom e.catalog art)
    (ns name : String) :
    (e.link ns art name).1.Singular ∧ e.Later (e.link ns art name).1 := by
  obtain ⟨-, e₁, hran, rfl | ⟨a, -, rfl⟩⟩ | ⟨-, a, p, e₁, e₂, hprepare, hbound, hran, hpublish⟩ :=
    link_cases e ns art name
  · exact h.ran hran
  · obtain ⟨h₁, hlater₁, -⟩ := h.bound name a
    obtain ⟨h₂, hlater₂⟩ := h₁.ran hran
    exact ⟨h₂, hlater₁.trans hlater₂⟩
  · obtain ⟨hinspect, -, -, hglobals⟩ := prepare_eq_ok hprepare
    obtain ⟨h₁, hlater₁, hfree⟩ := h.bound name a
    have hkept := (searched_bound e name a).kept
    rw [hbound] at h₁ hlater₁ hfree hkept
    obtain ⟨h₂, hlater₂⟩ := h₁.ran hran
    have hnames : ∀ g ∈ a.info.exportedGlobals, e₂.registry.resolve? g = none ∧
        e₂.globals.get? g = none ∧ ∀ c, e₂.catalog = some c → c.lookup? g = none := by
      intro g hg
      obtain ⟨_, _, _, rfl, -⟩ := hran
      have hcatalog : ∀ c, e.catalog = some c → c.lookup? g = none := hart _ hinspect g hg
      refine ⟨hfree g (hglobals g hg).1 hcatalog, ?_, ?_⟩
      · exact (congrArg (Table.get? · g) hkept.2.1).trans (hglobals g hg).2
      · exact fun c hc => hcatalog c (hkept.1 ▸ hc)
    obtain ⟨h₃, hlater₃⟩ := h₂.publish name a.manifest.functions hnames
    rw [hpublish]
    exact ⟨h₃, (hlater₁.trans hlater₂).trans hlater₃⟩

theorem Singular.load (h : e.Singular) {art : Artifact} (hart : ApartFrom e.catalog art)
    (ns name : String) :
    (e.load ns (some art) name).1.Singular ∧ e.Later (e.load ns (some art) name).1 := by
  obtain ⟨failure, -, heq⟩ | ⟨-, record, result, metrics, -, -, heq⟩ | ⟨-, -, heq⟩ :=
    load_cases e ns art name
  · rw [heq]
    exact ⟨h, .refl e⟩
  · rw [heq]
    exact ⟨⟨h.distinct, h.made, h.singular, h.apart⟩, rfl, .refl _, fun _ _ hx => hx,
      fun _ _ hx => hx⟩
  · -- neither beginning nor ending a load touches what providers are found in
    have hbegin : (e.begin art name).Singular := ⟨h.distinct, h.made, h.singular, h.apart⟩
    obtain ⟨h₁, hlater⟩ := hbegin.link hart ns name
    rw [heq]
    exact ⟨⟨h₁.distinct, h₁.made, h₁.singular, h₁.apart⟩, hlater.catalog, hlater.store,
      hlater.symbols, hlater.globals⟩

theorem Singular.registerForeign (h : e.Singular) (s : Registry.Foreign) (origin : String) :
    (e.registerForeign s origin).1.Singular ∧ e.Later (e.registerForeign s origin).1 := by
  unfold Engine.registerForeign
  split
  · exact ⟨h, .refl e⟩
  · rename_i hfree
    split
    · rename_i hregister
      exact h.register hfree hregister
    · exact ⟨h, .refl e⟩

end Engine

end WasmLisp
