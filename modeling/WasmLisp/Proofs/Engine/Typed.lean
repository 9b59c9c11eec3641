import Mathlib
import WasmLisp.Proofs.Engine.Linked
import WasmLisp.Proofs.Engine.Once

/-!
# Linking keeps to the types of imports

What is imported is looked for by its name in three tables, which are filled at different times: the
registered symbols that have instances, and the functions and globals of loaded modules.

* `Provides`: a live instance exports what an import wants, with its type;
* `Engine.Typed`: so do the modules that the tables name. No name stands for a function and for data
  at once, so it does not matter that a plan finds imports by name only (`Provided.unique`);
* `Engine.Coherent`: what a load keeps (`Engine.Coherent.load`) if it is one of an artifact that was
  generated for analysed forms.
-/

namespace WasmLisp

/-- A name that functions of namespaces can have. -/
def Symbol.Qualified (q : String) : Prop :=
  ∃ ns name, ns ≠ "" ∧ '/' ∉ ns.toList ∧ q = qualify ns name

theorem Symbol.Simple.not_qualified {x : String} (h : Simple { name := x }) : ¬ Qualified x := by
  rintro ⟨ns, name, hne, hslash, rfl⟩
  exact h rfl ns name hne hslash rfl

namespace Codegen

open Machine (Store Extern Callee Cell)
open Artifact (envModule varModule varDefModule)

variable {η : Type} {s t : Store η} {m : String} {w : Wanted}

/-! ## Providers -/

/-- The module and the name that an import is found by. -/
def Wanted.key : Wanted → String × String
  | .func module name _ _ => (module, name)
  | .global name => (envModule, name)

/-- A live instance of the name exports what is wanted, with its type. -/
def Provides (s : Store η) (m : String) (w : Wanted) : Prop := ∃ ext, LinkedAs (fun _ _ => m) s w ext

/-- An import of a layout is one of `env`, or it reads or binds a var. -/
theorem Layout.Tidy.shape {l : Layout} (h : l.Tidy) (hw : w ∈ l.imports) :
    (w = .global w.key.2 ∨ ∃ params, w = .func envModule w.key.2 params 1) ∨
      w = .func varModule w.key.2 0 1 ∨ w = .func varDefModule w.key.2 1 0 := by
  cases w with
  | global x => exact .inl (.inl rfl)
  | func module x params results =>
    have hrole := h.roles _ _ _ _ hw
    cases hrole with
    | env params => exact .inl (.inr ⟨params, rfl⟩)
    | var => exact .inr (.inl rfl)
    | varDef => exact .inr (.inr rfl)

theorem Provides.linked {target : String → String → String}
    (h : Provides s (target w.key.1 w.key.2) w) : ∃ ext, LinkedAs target s w ext := by
  obtain ⟨ext, h⟩ := h
  refine ⟨ext, ?_⟩
  cases w with
  | func module name params results =>
    cases ext with
    | func a => exact h
    | global a => exact h.elim
  | global name =>
    cases ext with
    | func a => exact h.elim
    | global a => exact h

theorem Provides.grown (h : Provides s m w) (hgrown : s.Grown t) : Provides t m w := by
  obtain ⟨ext, h⟩ := h
  refine ⟨ext, ?_⟩
  cases w with
  | func module name params results =>
    cases ext with
    | func a =>
      obtain ⟨callee, hcallee, htype⟩ := Option.map_eq_some_iff.mp h.2
      exact ⟨hgrown.export? h.1, Option.map_eq_some_iff.mpr ⟨callee, hgrown.funcs a callee hcallee, htype⟩⟩
    | global a => exact h.elim
  | global name =>
    cases ext with
    | func a => exact h.elim
    | global a => exact ⟨hgrown.export? h.1, hgrown.types a _ h.2⟩

/-- The functions of a host instance are found under their names. -/
theorem export?_addHost (hfree : s.Free m) {fns : List (String × η × Binary.FuncType)}
    (hnodup : (fns.map (·.1)).Nodup) {x : String} {handle : η} {type : Binary.FuncType}
    (hx : (x, handle, type) ∈ fns) : ∃ a, (s.addHost m fns).export? m x = some (.func a) ∧
      (s.addHost m fns).funcs[a]? = some (.host handle (m ++ "." ++ x) type) := by
  obtain ⟨i, hi⟩ := List.getElem?_of_mem hx
  have hexports : ((fns.zipIdx.map fun y => (y.1.1, Extern.func (s.funcs.size + y.2))).reverse.map
      (·.1)).Nodup := by
    rw [List.map_reverse, List.nodup_reverse,
      map_fst_zipIdx fun i => Extern.func (s.funcs.size + i)]
    exact hnodup
  refine ⟨s.funcs.size + i, ?_, ?_⟩
  · have hpush := Store.Free.export?_push (t := s.addHost m fns) hfree rfl rfl x
    refine hpush.trans (lookup_of_mem hexports ?_)
    rw [List.mem_reverse, List.mem_map]
    exact ⟨_, List.mk_mem_zipIdx_iff_getElem?.mpr hi, rfl⟩
  · rw [Store.addHost, Array.getElem?_append_right (Nat.le_add_right _ _), Nat.add_sub_cancel_left,
      List.getElem?_toArray, List.getElem?_map, hi]
    rfl

/-- They are provided. -/
theorem provides_addHost (hfree : s.Free m) {fns : List (String × η × Binary.FuncType)}
    (hnodup : (fns.map (·.1)).Nodup) {x : String} {handle : η} {params results : Nat}
    (hx : (x, handle, .ofCounts params results) ∈ fns) (module : String) :
    Provides (s.addHost m fns) m (.func module x params results) := by
  obtain ⟨a, hexport, hcallee⟩ := export?_addHost hfree hnodup hx
  exact ⟨.func a, hexport, Option.map_eq_some_iff.mpr ⟨_, hcallee, rfl⟩⟩

/-- So are the data symbols of an instance of globals. -/
theorem provides_addGlobals (hfree : s.Free m) {data : List (String × Int64)}
    (hnodup : (data.map (·.1)).Nodup) {x : String} {v : Int64} (hx : (x, v) ∈ data) :
    Provides (s.addGlobals m data) m (.global x) := by
  obtain ⟨i, hi⟩ := List.getElem?_of_mem hx
  have hexports : ((data.zipIdx.map fun y => (y.1.1, Extern.global (s.globals.size + y.2))).map
      (·.1)).Nodup := by
    rw [map_fst_zipIdx fun i => Extern.global (s.globals.size + i)]
    exact hnodup
  refine ⟨.global (s.globals.size + i), ?_, ?_⟩
  · have hpush := Store.Free.export?_push (t := s.addGlobals m data) hfree rfl rfl x
    refine hpush.trans (lookup_of_mem hexports ?_)
    rw [List.mem_map]
    exact ⟨_, List.mk_mem_zipIdx_iff_getElem?.mpr hi, rfl⟩
  · refine Option.map_eq_some_iff.mpr ⟨{ type := cellType, value := v }, ?_, rfl⟩
    rw [Store.addGlobals, Array.getElem?_append_right (Nat.le_add_right _ _),
      Nat.add_sub_cancel_left, List.getElem?_toArray, List.getElem?_map, hi]
    rfl

end Codegen

/-- What a program imports to use a registered symbol. -/
def Registry.Foreign.wanted (s : Registry.Foreign) : Codegen.Wanted :=
  if s.kind = .function then .func Artifact.envModule s.name s.arity.toNat 1 else .global s.name

/-- A registry that came about by registration: symbols that have nothing wrong with them, each name
once. -/
structure Registry.Regular (r : Registry) : Prop where
  distinct : (recorded r.records).Nodup
  proper : ∀ record ∈ r.records, problem? record.symbol = none

/-- An artifact that was generated for analysed forms. -/
def Artifact.Compiled (art : Artifact) : Prop :=
  ∃ u fns maxDepth g, (∀ n ∈ u.forms, n.Analyzed) ∧ art.Made u fns maxDepth g

namespace Engine

open Codegen (Wanted Provides)
open Artifact (envModule varModule varDefModule)
open Registry (recorded)

variable {e e₁ e₂ : Engine} {name : String}

/-! ## Typed tables -/

/-- The modules that tables name provide what the names stand for. Functions of modules have
qualified names and data symbols have not. -/
structure Typed (e : Engine) : Prop where
  proper : ∀ r ∈ e.registry.records, Registry.problem? r.symbol = none
  symbols : ∀ r ∈ e.registry.records, ∀ m, e.symbols.get? r.symbol.name = some m →
    Provides e.store m r.symbol.wanted
  funcs : ∀ q provider, e.funcs.get? q = some provider → Symbol.Qualified q ∧
    ∃ n : Nat, provider.arity = n ∧ Provides e.store provider.module (.func envModule q n 1)
  globals : ∀ x m, e.globals.get? x = some m → ¬ Symbol.Qualified x ∧
    Provides e.store m (.global x)

theorem Typed.ran (h : e.Typed) (hran : e.Ran e₁) : e₁.Typed := by
  obtain ⟨store, env, around, rfl, hgrown⟩ := hran
  refine ⟨h.proper, fun r hr m hm => (h.symbols r hr m hm).grown hgrown, fun q provider hq => ?_,
    fun x m hx => ?_⟩
  · obtain ⟨hqualified, n, harity, hprovides⟩ := h.funcs q provider hq
    exact ⟨hqualified, n, harity, hprovides.grown hgrown⟩
  · exact (h.globals x m hx).imp_right (·.grown hgrown)

/-- Registered symbols do not have qualified names. -/
theorem not_qualified_of_problem? {s : Registry.Foreign} (h : Registry.problem? s = none) :
    ¬ Symbol.Qualified s.name := by
  rintro ⟨ns, name, -, -, hname⟩
  exact Registry.slash_notMem_of_problem? h (hname ▸ Symbol.slash_mem_qualify ns name)

theorem Typed.register (h : e.Typed) (hsingular : e.Singular) {s : Registry.Foreign}
    {origin : String} {record : Registry.Record} {registry : Registry}
    (hs : e.registry.register s origin = .ok (record, registry)) :
    ({ e with registry } : Engine).Typed := by
  obtain rfl | ⟨hnone, added, hadded, hrecords⟩ := Registry.register_cases hs
  · exact h
  have hmem : ∀ r ∈ registry.records, r ∈ e.registry.records ∨ r = added := by
    intro r hr
    rw [hrecords] at hr
    simpa using hr
  refine ⟨Registry.Proper.register h.proper hs, fun r hr m hm => ?_, h.funcs, h.globals⟩
  obtain hold | rfl := hmem r hr
  · exact h.symbols r hold m hm
  · rw [hadded] at hm
    cases (hsingular.symbols_eq_none hnone).symm.trans hm

/-- A record that had no instance gets one that provides its symbol. -/
theorem materialize_new (hnamed : e.Named) (hdistinct : (recorded e.registry.records).Nodup)
    {r : Registry.Record} (hr : r ∈ e.registry.records.drop e.materialized) :
    ∃ m, e.materialize.symbols.get? r.symbol.name = some m ∧
      Provides e.materialize.store m r.symbol.wanted := by
  have hnew : (recorded (e.registry.since e.materialized)).Nodup :=
    hdistinct.sublist ((List.drop_sublist _ _).map _)
  have hmem : r ∈ e.registry.since e.materialized := hr
  unfold materialize
  split
  · rename_i hnil
    rw [hnil] at hmem
    cases hmem
  generalize e.registry.since e.materialized = recs at hnew hmem
  have hsplit : ∀ p : Registry.Record → Bool, (recorded (recs.filter p)).Nodup := fun p =>
    hnew.sublist (List.filter_sublist.map _)
  have hfnFree : e.store.Free s!"#foreign/{e.generation + 1}" :=
    hnamed.free_foreign (foreignName_iff.1.mpr ⟨Nat.lt_succ_self _, Nat.le_refl _⟩)
  have hdataFree : e.store.Free s!"#foreign.data/{e.generation + 1}" :=
    hnamed.free_foreign (foreignName_iff.2.mpr ⟨Nat.lt_succ_self _, Nat.le_refl _⟩)
  dsimp only
  rw [Table.get?_foldl_insert, Table.get?_foldl_insert]
  by_cases hkind : r.symbol.kind = .function
  · have hfn : r ∈ recs.filter (·.symbol.kind == .function) := List.mem_filter.mpr ⟨hmem, by simp [hkind]⟩
    -- no data symbol has the name of a function
    have hother : r.symbol.name ∉ (recs.filter (·.symbol.kind != .function)).map (·.symbol.name) := by
      intro hin
      obtain ⟨r', hr', hname⟩ := List.mem_map.mp hin
      obtain ⟨hr', hkind'⟩ := List.mem_filter.mp hr'
      have heq : r' = r := List.inj_on_of_nodup_map hnew hr' hmem hname
      simp [heq, hkind] at hkind'
    rw [if_neg hother, if_pos (List.mem_map_of_mem hfn)]
    refine ⟨_, rfl, ?_⟩
    rw [if_neg (show ¬ (recs.filter (·.symbol.kind == .function)).isEmpty = true by
      rw [List.isEmpty_iff]; exact List.ne_nil_of_mem hfn)]
    have hprovides : Provides (e.store.addHost s!"#foreign/{e.generation + 1}"
        ((recs.filter (·.symbol.kind == .function)).map fun r => (r.symbol.name, HostFn.foreign r.symbol,
          { params := i64s r.symbol.arity.toNat, results := i64s 1 })))
        s!"#foreign/{e.generation + 1}" r.symbol.wanted := by
      rw [Registry.Foreign.wanted, if_pos hkind]
      refine Codegen.provides_addHost hfnFree ?_ (List.mem_map.mpr ⟨r, hfn, rfl⟩) _
      rw [List.map_map]
      exact hsplit _
    split
    · exact hprovides
    · exact hprovides.grown (Machine.Store.grown_addGlobals _ _ _)
  · have hdata : r ∈ recs.filter (·.symbol.kind != .function) := List.mem_filter.mpr ⟨hmem, by simp [hkind]⟩
    rw [if_pos (List.mem_map_of_mem hdata)]
    refine ⟨_, rfl, ?_⟩
    rw [if_neg (c := (recs.filter (·.symbol.kind != .function)).isEmpty = true) (by
      rw [List.isEmpty_iff]; exact List.ne_nil_of_mem hdata)]
    rw [Registry.Foreign.wanted, if_neg hkind]
    refine Codegen.provides_addGlobals ?_ ?_ (List.mem_map.mpr ⟨r, hdata, rfl⟩)
    · split
      · exact hdataFree
      · exact (Machine.Store.adds_push (P := fun x => x = s!"#foreign/{e.generation + 1}") rfl rfl).free
          hdataFree (foreign_ne_foreignData _ _).symm
    · rw [List.map_map]
      exact hsplit _

theorem Typed.materialize (h : e.Typed) (hsingular : e.Singular) (hnamed : e.Named) :
    e.materialize.Typed := by
  have hregistry := registry_materialize e
  obtain ⟨-, hglobals, hgrown⟩ := (searched_materialize e).kept
  have hfuncs := (searched_materialize e).tables.funcs
  refine ⟨by rw [hregistry]; exact h.proper, fun r hr m hm => ?_, fun q provider hq => ?_,
    fun x m hx => ?_⟩
  · rw [hregistry] at hr
    obtain hsame | hnew := symbols_materialize e r.symbol.name
    · rw [hsame] at hm
      exact (h.symbols r hr m hm).grown hgrown
    · obtain ⟨r', hr', hname⟩ := List.mem_map.mp hnew
      obtain rfl : r' = r :=
        List.inj_on_of_nodup_map hsingular.distinct (List.mem_of_mem_drop hr') hr hname
      obtain ⟨m', hm', hprovides⟩ := materialize_new hnamed hsingular.distinct hr'
      cases hm'.symm.trans hm
      exact hprovides
  · obtain ⟨hqualified, n, harity, hprovides⟩ := h.funcs q provider (hfuncs ▸ hq)
    exact ⟨hqualified, n, harity, hprovides.grown hgrown⟩
  · exact (h.globals x m (hglobals ▸ hx)).imp_right (·.grown hgrown)

/-! ## Coherent engines -/

/-- Tables are typed, data has one provider, and live instances have names of their own. -/
structure Coherent (e : Engine) : Prop where
  typed : e.Typed
  singular : e.Singular
  named : e.Named

theorem Coherent.materialize (h : e.Coherent) : e.materialize.Coherent :=
  ⟨h.typed.materialize h.singular h.named, h.singular.materialize.1,
    h.named.generates (generates_materialize e) (searched_materialize e).tables.modules⟩

theorem Coherent.resolveImport (h : e.Coherent) (info : Binary.Info) (i : Binary.Import) (p : Plan) :
    (e.resolveImport name info i p).1.Coherent := by
  refine ⟨?_, (h.singular.resolveImport name info i p).1, h.named.generates
    (generates_resolveImport e name info i p) (searched_resolveImport e name info i p).tables.modules⟩
  obtain heq | ⟨c, symbol, lib, record, registry, hc, hlookup, hregister, heq⟩ :=
    resolveImport_cases e name info i p
  · rw [heq]
    exact h.typed
  · rw [heq]
    have hfree : e.globals.get? symbol.name = none := by
      by_contra hne
      have hnone := h.singular.apart _ hne c hc
      rw [Catalog.name_of_lookup? hlookup, hlookup] at hnone
      cases hnone
    exact (h.typed.register h.singular hregister).materialize (h.singular.register hfree hregister).1
      h.named

theorem Coherent.bound (h : e.Coherent) (name : String) (a : Prepared) :
    (e.bound name a).1.Coherent :=
  resolveAll_induction (motive := Coherent) (fun _ i p he => he.resolveImport a.info i p) _ _
    h.materialize

/-- A name has one provider, whatever is wanted of it. -/
theorem Provided.unique (he : e.Coherent) {x m m' : String} {w w' : Want} (h : e.Provided x w m)
    (h' : e.Provided x w' m') : m = m' := by
  have hregistered : ∀ r, e.registry.resolve? x = some r →
      ¬ Symbol.Qualified x ∧ e.globals.get? x = none := by
    intro r hr
    have hname : r.symbol.name = x := by simpa using List.find?_some hr
    refine ⟨hname ▸ not_qualified_of_problem? (he.typed.proper r (List.mem_of_find?_eq_some hr)), ?_⟩
    by_contra hne
    rw [he.singular.singular x hne] at hr
    cases hr
  cases h with
  | registered r hr hkind harity hm =>
    obtain ⟨hqualified, hglobals⟩ := hregistered r hr
    cases h' with
    | registered r' hr' hkind' harity' hm' => exact Option.some.inj (hm.symm.trans hm')
    | global hkind' hm' => cases hglobals.symm.trans hm'
    | defined hkind' hm' => exact absurd (he.typed.funcs x _ hm').1 hqualified
  | global hkind hm =>
    cases h' with
    | registered r' hr' hkind' harity' hm' => cases (hregistered r' hr').2.symm.trans hm
    | global hkind' hm' => exact Option.some.inj (hm.symm.trans hm')
    | defined hkind' hm' => exact absurd (he.typed.funcs x _ hm').1 (he.typed.globals x m hm).1
  | defined hkind hm =>
    cases h' with
    | registered r' hr' hkind' harity' hm' =>
      exact absurd (he.typed.funcs x _ hm).1 (hregistered r' hr').1
    | global hkind' hm' => exact absurd (he.typed.funcs x _ hm).1 (he.typed.globals x m' hm').1
    | defined hkind' hm' => exact congrArg Provider.module (Option.some.inj (hm.symm.trans hm'))

theorem Chosen.unique (he : e.Coherent) {info : Binary.Info} {i j : Binary.Import} {m m' : String}
    (hkey : importKey i = importKey j) (h : e.Chosen name info i m) (h' : e.Chosen name info j m') :
    m = m' := by
  obtain ⟨hmodule, hname⟩ := Prod.mk.inj hkey
  cases h with
  | env hi w hw hm =>
    obtain ⟨w', -, hm'⟩ := h'.of_env (hmodule.symm.trans hi)
    exact hm.unique he (hname ▸ hm')
  | var hi hm => exact hm.trans (h'.of_var (hmodule.symm.trans hi)).symm
  | varDef hi hm => exact hm.trans (h'.of_varDef (hmodule.symm.trans hi)).symm

/-- The module that a plan has an import come from is the one that was chosen for it. -/
theorem Coherent.chosen_target (h : e.Coherent) {a : Prepared} {p : Plan}
    (hbound : e.bound name a = (e₁, .ok p)) :
    (∀ i ∈ a.info.imports, e₁.Chosen name a.info i (p.target i.module i.name)) ∧
      p.reads = namesFrom varModule a.info.imports ∧
      p.defs = namesFrom varDefModule a.info.imports := by
  have he₁ := h.bound name a
  rw [hbound] at he₁
  obtain ⟨choices, hall, hremap, hreads, hdefs⟩ :=
    resolveAll_eq_ok (motive := Singular) (P := fun e => e.Chosen name a.info)
      (fun e i p he => (he.resolveImport name a.info i p).1) (fun e i m _ hm => hm)
      (fun e i p j m he hm => hm.resolveImport he i p) h.materialize.singular hbound
  refine ⟨fun i hi => ?_, hreads, hdefs⟩
  obtain ⟨k, hk⟩ := List.getElem?_of_mem hi
  obtain ⟨m, -, hchosen⟩ := Codegen.forall₂_getElem? hall hk
  obtain ⟨j, -, hkey, hchosen'⟩ :=
    Plan.target_of_choices hall (hremap.trans (List.append_nil _)) hi
  cases hchosen.unique he₁ hkey.symm hchosen'
  exact hchosen

/-! ## Imports of a generated module -/

section Imports

variable {art : Artifact} {u : CompUnit} {fns : List Defn} {maxDepth : Int}
  {g : Codegen.Generated} {p : Codegen.Program} {new : List Codegen.Reached} {plan : Plan}

theorem map_fst_hosts (host : String → HostFn) (t : Binary.FuncType) (qs : List String) :
    (qs.map fun q => (q, host q, t)).map (·.1) = qs := by
  rw [List.map_map]
  exact List.map_id' qs

/-- The functions through which an artifact binds vars are found under the names of the vars. -/
theorem export?_binder (hfree : ∀ x, Reserved name x → e.store.Free x) (hdefs : plan.defs.Nodup)
    {q : String} (hq : q ∈ plan.defs) :
    ∃ a label, (e.bindVars name plan).store.export? (name ++ "#var.def") q = some (.func a) ∧
      (e.bindVars name plan).store.funcs[a]? = some (.host (.bindVar q) label (.ofCounts 1 0)) := by
  unfold bindVars
  dsimp only
  rw [if_neg (c := plan.defs.isEmpty = true) (by rw [List.isEmpty_iff]; exact List.ne_nil_of_mem hq)]
  refine Exists.imp (fun a ha => ⟨_, ha⟩) (Codegen.export?_addHost ?_
    (by rw [map_fst_hosts]; exact hdefs)
    (List.mem_map.mpr ⟨q, hq, rfl⟩))
  split
  · exact hfree _ (.inr (.inr rfl))
  · refine (Machine.Store.adds_push (P := fun x => x = name ++ "#var") rfl rfl).free
      (hfree _ (.inr (.inr rfl))) ?_
    intro heq
    have hlist := congrArg String.toList heq
    rw [String.toList_append, String.toList_append] at hlist
    exact absurd (List.append_cancel_left hlist) (by decide)

/-- The host functions that are made for an artifact. -/
theorem provides_bindVars (hfree : ∀ x, Reserved name x → e.store.Free x)
    (hreads : plan.reads.Nodup) (hdefs : plan.defs.Nodup) :
    (∀ q ∈ plan.reads, Provides (e.bindVars name plan).store (name ++ "#var") (.func varModule q 0 1)) ∧
      ∀ q ∈ plan.defs,
        Provides (e.bindVars name plan).store (name ++ "#var.def") (.func varDefModule q 1 0) := by
  constructor
  · intro q hq
    unfold bindVars
    dsimp only
    rw [if_neg (c := plan.reads.isEmpty = true) (by rw [List.isEmpty_iff]; exact List.ne_nil_of_mem hq)]
    have hprovides : Provides (e.store.addHost (name ++ "#var") (plan.reads.map fun q =>
        (q, HostFn.readVar q, { params := [], results := i64s 1 }))) (name ++ "#var")
        (.func varModule q 0 1) :=
      Codegen.provides_addHost (hfree _ (.inr (.inl rfl))) (by rw [map_fst_hosts]; exact hreads)
        (List.mem_map.mpr ⟨q, hq, rfl⟩) _
    split
    · exact hprovides
    · exact hprovides.grown (Machine.Store.grown_addHost _ _ _)
  · intro q hq
    obtain ⟨a, label, hexport, hcallee⟩ := export?_binder hfree hdefs hq
    exact ⟨.func a, hexport, Option.map_eq_some_iff.mpr ⟨_, hcallee, rfl⟩⟩

theorem key_of_stands {types : List Binary.FuncType} {w : Wanted} {i : Binary.Import}
    (h : Codegen.Stands types w i) : w.key = importKey i := by
  cases w with
  | func module name params results =>
    obtain ⟨t, rfl, -⟩ := h
    rfl
  | global name =>
    cases h
    rfl

/-- What has to be found for an import. -/
def wantOf : Wanted → Want
  | .func _ _ params _ => { kind := .function, arity := params }
  | .global _ => { kind := .data, arity := 0 }

theorem want?_of_stands {w : Wanted} {i : Binary.Import} {info : Binary.Info}
    (h : Codegen.Stands info.types w i) : want? info i = some (wantOf w) := by
  cases w with
  | func module name params results =>
    obtain ⟨t, rfl, ht⟩ := h
    simp [want?, wantOf, Binary.Info.importType?, ht, Binary.FuncType.ofCounts]
  | global name =>
    cases h
    rfl

/-- A provider that was found for an import of `env` provides what is wanted, with its type. -/
theorem Provided.provides (he : e.Typed) {w : Wanted} {m : String}
    (hw : w = .global w.key.2 ∨ ∃ params, w = .func envModule w.key.2 params 1)
    (h : e.Provided w.key.2 (wantOf w) m) : Provides e.store m w := by
  have hregistered : ∀ {x r}, e.registry.resolve? x = some r → r.symbol.name = x ∧
      (e.symbols.get? x = some m → Provides e.store m r.symbol.wanted) := by
    intro x r hr
    have hname : r.symbol.name = x := by simpa using List.find?_some hr
    exact ⟨hname, fun hm => he.symbols r (List.mem_of_find?_eq_some hr) m (hname ▸ hm)⟩
  obtain hw | ⟨params, hw⟩ := hw
  · generalize w.key.2 = x at hw h
    subst hw
    cases h with
    | registered r hr hkind harity hm =>
      obtain ⟨hname, hprovides⟩ := hregistered hr
      have hdata : r.symbol.kind = .data := hkind
      have hwanted : r.symbol.wanted = .global x := by
        rw [Registry.Foreign.wanted, hdata, if_neg (by decide), hname]
      exact hwanted ▸ hprovides hm
    | global hkind hm => exact (he.globals x m hm).2
    | defined hkind hm => exact absurd rfl hkind
  · generalize w.key.2 = x at hw h
    subst hw
    cases h with
    | registered r hr hkind harity hm =>
      obtain ⟨hname, hprovides⟩ := hregistered hr
      have hfn : r.symbol.kind = .function := hkind
      have hcount : r.symbol.arity = params := harity rfl
      have hwanted : r.symbol.wanted = .func envModule x params 1 := by
        rw [Registry.Foreign.wanted, if_pos hfn, hname, hcount, Int.toNat_natCast]
      exact hwanted ▸ hprovides hm
    | global hkind hm => cases hkind
    | defined hkind hm =>
      obtain ⟨-, n, harity, hprovides⟩ := he.funcs x _ hm
      have hn : params = n := Int.ofNat_inj.mp harity
      exact hn ▸ hprovides

/-- What the imports of a layout from a module of functions are called. -/
theorem namesFrom_imports {types : List Binary.FuncType} {ws : List Wanted}
    {is : List Binary.Import} (h : List.Forall₂ (Codegen.Stands types) ws is) {module : String}
    (hmodule : module ≠ envModule) :
    namesFrom module is = ((ws.filterMap Wanted.func?).filter (·.1 = module)).map (·.2) := by
  induction h with
  | nil => rfl
  | @cons w i ws is hw _ ih =>
    unfold namesFrom at ih ⊢
    cases w with
    | func module' name params results =>
      obtain ⟨t, rfl, -⟩ := hw
      rw [show (Wanted.func module' name params results :: ws).filterMap Wanted.func? =
        (module', name) :: ws.filterMap Wanted.func? from rfl, List.filter_cons, List.filter_cons]
      dsimp only
      split
      · rw [List.map_cons, List.map_cons, ih]
      · exact ih
    | global name =>
      cases hw
      rw [List.filterMap_cons_none rfl, List.filter_cons, if_neg (by simpa using hmodule.symm)]
      exact ih

theorem mem_namesFrom {l : Codegen.Layout} {types : List Binary.FuncType} {is : List Binary.Import}
    (h : List.Forall₂ (Codegen.Stands types) l.imports is) {module q : String}
    (hmodule : module ≠ envModule) :
    q ∈ namesFrom module is ↔ ∃ params results, .func module q params results ∈ l.imports := by
  rw [namesFrom_imports h hmodule, List.mem_map]
  constructor
  · rintro ⟨⟨m, q⟩, hmem, rfl⟩
    obtain ⟨hmem, hm⟩ := List.mem_filter.mp hmem
    obtain ⟨w, hw, hname⟩ := List.mem_filterMap.mp hmem
    cases w with
    | func module' name params results =>
      cases hname
      obtain rfl : m = module := of_decide_eq_true hm
      exact ⟨params, results, hw⟩
    | global name => cases hname
  · rintro ⟨params, results, hw⟩
    exact ⟨(module, q), List.mem_filter.mpr ⟨List.mem_filterMap.mpr ⟨_, hw, rfl⟩, by simp⟩, rfl⟩

theorem nodup_namesFrom {l : Codegen.Layout} (hl : l.Tidy) {types : List Binary.FuncType}
    {is : List Binary.Import} (h : List.Forall₂ (Codegen.Stands types) l.imports is)
    {module : String} (hmodule : module ≠ envModule) : (namesFrom module is).Nodup := by
  rw [namesFrom_imports h hmodule]
  refine (hl.funcs.filter _).map_on fun k hk k' hk' heq => ?_
  have hk := (List.mem_filter.mp hk).2
  have hk' := (List.mem_filter.mp hk').2
  simp only [decide_eq_true_eq] at hk hk'
  exact Prod.ext (hk.trans hk'.symm) heq

/-- All that a generated module imports is provided, once its imports are bound. -/
theorem Coherent.linked (h : e.Coherent) (hfree : ∀ x, Reserved name x → e.store.Free x)
    (hname : Loadable name)
    (hmade : art.Made u fns maxDepth g)
    (hp : p.Built u fns (Codegen.effectiveDepth maxDepth) new)
    (hmodule : g.module = p.withManifest g.manifest) {a : Prepared} (hinfo : a.info = g.module.info)
    (hbound : e.bound name a = (e₁, .ok plan)) :
    ∀ w ∈ p.layout.imports, ∃ ext, Codegen.LinkedAs plan.target (e₁.bindVars name plan).store w ext := by
  obtain ⟨hchosen, hreads, hdefs⟩ := h.chosen_target hbound
  have he₁ := h.bound name a
  have hadds := (generates_bound e name a).2
  rw [hbound] at he₁ hadds
  have hstands : List.Forall₂ (Codegen.Stands a.info.types) p.layout.imports a.info.imports := by
    rw [hinfo, hmodule]
    exact (Codegen.Program.toModule_spec (Codegen.Program.types_le (hmodule ▸ hmade.size))).1
  have hreadNames : plan.reads.Nodup :=
    hreads ▸ nodup_namesFrom hp.layout.tidy hstands (by decide)
  have hdefNames : plan.defs.Nodup := hdefs ▸ nodup_namesFrom hp.layout.tidy hstands (by decide)
  have hfree₁ : ∀ x, Reserved name x → e₁.store.Free x := fun x hx =>
    hadds.free (hfree x hx) (not_foreignName hx hname)
  obtain ⟨hread, hdef⟩ := provides_bindVars hfree₁ hreadNames hdefNames
  intro w hw
  obtain ⟨k, hk⟩ := List.getElem?_of_mem hw
  obtain ⟨i, hi, hwi⟩ := Codegen.forall₂_getElem? hstands hk
  have hin : i ∈ a.info.imports := List.mem_of_getElem? hi
  have hkey := key_of_stands hwi
  have hfrom : ∀ module, i.module = module → i.name ∈ namesFrom module a.info.imports :=
    fun module hm => List.mem_map.mpr ⟨i, List.mem_filter.mpr ⟨hin, by simpa using hm⟩, rfl⟩
  refine Codegen.Provides.linked ?_
  rw [hkey]
  change Provides _ (plan.target i.module i.name) w
  have hfst : w.key.1 = i.module := congrArg Prod.fst hkey
  have hsnd : w.key.2 = i.name := congrArg Prod.snd hkey
  obtain henv | hvar | hvarDef := hp.layout.tidy.shape hw
  · have hi : i.module = envModule := by
      rw [← hfst]
      obtain hw | ⟨params, hw⟩ := henv <;> rw [hw] <;> rfl
    obtain ⟨want, hwant, hm⟩ := (hchosen i hin).of_env hi
    cases (want?_of_stands hwi).symm.trans hwant
    exact (Provided.provides he₁.typed henv (hsnd ▸ hm)).grown (ran_bindVars e₁ name plan).store
  · have hi : i.module = varModule := by rw [← hfst, hvar]; rfl
    rw [(hchosen i hin).of_var hi, hvar]
    exact hread _ (by rw [hreads, hsnd]; exact hfrom _ hi)
  · have hi : i.module = varDefModule := by rw [← hfst, hvarDef]; rfl
    rw [(hchosen i hin).of_varDef hi, hvarDef]
    exact hdef _ (by rw [hdefs, hsnd]; exact hfrom _ hi)

/-! ## Definitions of a generated module -/

/-- A function that the manifest declares is one of the unit. -/
theorem mem_functions {q : String} {arity : Int} (hp : p.Built u fns (Codegen.effectiveDepth maxDepth) new)
    (h : (q, arity) ∈ (Codegen.manifestOf u p.layout).functions) :
    ∃ (i : Nat) (f : Codegen.Linked), p.layout.funcs[i]? = some f ∧ f.exported = true ∧
      f ∈ u.nodes.filterMap Codegen.definition? ∧ q = f.defn.qualified ∧
      arity = f.defn.params.length := by
  obtain ⟨f, hf, heq⟩ := List.mem_map.mp h
  obtain ⟨hf, hexported⟩ := List.mem_filter.mp hf
  obtain ⟨i, hi⟩ := List.getElem?_of_mem hf
  cases heq
  refine ⟨i, f, hi, hexported, ?_, rfl, rfl⟩
  rw [hp.layout.funcs] at hf
  rcases List.mem_append.mp hf with hf | hf
  · exact hf
  · obtain ⟨r, -, rfl⟩ := List.mem_map.mp hf
    cases hexported

/-- A global that a generated module exports is one that the unit defines. -/
theorem mem_exportedGlobals {x : String} (hmodule : g.module = p.withManifest g.manifest)
    (h : x ∈ g.module.info.exportedGlobals) :
    ∃ (i : Nat) (d : String × Int64), p.layout.globals[i]? = some d ∧ d.1 = x := by
  obtain ⟨ex, hex, rfl⟩ := List.mem_map.mp h
  obtain ⟨hex, hkind⟩ := List.mem_filter.mp hex
  simp only [Bool.and_eq_true, beq_iff_eq] at hkind
  rw [hmodule] at hex
  rcases Codegen.Program.mem_exports.mp (show ex ∈ p.exports from hex) with
    ⟨i, f, -, -, rfl⟩ | ⟨i, d, hd, rfl⟩ | rfl
  · exact absurd hkind.1 (show Binary.kindFunc ≠ Binary.kindGlobal by decide)
  · exact ⟨i, d, hd, rfl⟩
  · exact absurd hkind.1 (show Binary.kindFunc ≠ Binary.kindGlobal by decide)

/-- What a module that was linked defines is provided by its instance. -/
theorem Linkage.provides {a : Prepared} {bin : List UInt8} {e₃ : Engine} {ns : String}
    {s : Machine.Store HostFn} {inst : Machine.Instance} {function : Nat} {values : List Int64}
    {frame : Frame} (h : e.Linkage ns name art p a plan bin e₁ e₂ e₃ s inst function values frame)
    (hp : p.Built u fns (Codegen.effectiveDepth maxDepth) new)
    (hsize : p.toModule.encode.length < 0x100000000) :
    (∀ (i : Nat) (f : Codegen.Linked), p.layout.funcs[i]? = some f → f.exported = true →
      Provides s name (.func envModule f.defn.qualified f.defn.params.length 1)) ∧
    ∀ (i : Nat) (d : String × Int64), p.layout.globals[i]? = some d →
      Provides s name (.global d.1) := by
  constructor
  · intro i f hf hexported
    have hlookup := h.placed.lookup_func hp hsize h.exports hf hexported
    refine ⟨.func _, (h.found _).trans hlookup, ?_⟩
    obtain ⟨code, hcode, hfunction⟩ := hp.code_of_func hf
    obtain ⟨-, k, hcallee⟩ := h.placed.funcs i code hcode
    obtain ⟨-, -, hparams, -⟩ := Codegen.functionCode_eq_ok hfunction
    rw [hcallee, ← hparams]
    rfl
  · intro i d hd
    refine ⟨.global _, (h.found _).trans (h.placed.lookup_global hsize h.exports hd), ?_⟩
    rw [(h.placed.globals i d hd).2]
    rfl

/-- Publishing the definitions of a module that was linked keeps tables typed. -/
theorem Typed.publish (he : e.Typed) {s : Machine.Store HostFn}
    (hforms : ∀ n ∈ u.forms, n.Analyzed)
    (hp : p.Built u fns (Codegen.effectiveDepth maxDepth) new)
    (hmodule : g.module = p.withManifest g.manifest) (hmanifest : g.manifest = Codegen.manifestOf u p.layout)
    (hgrown : s.Grown e.store)
    (hfuncs : ∀ (i : Nat) (f : Codegen.Linked), p.layout.funcs[i]? = some f → f.exported = true →
      Provides s name (.func envModule f.defn.qualified f.defn.params.length 1))
    (hglobals : ∀ (i : Nat) (d : String × Int64), p.layout.globals[i]? = some d →
      Provides s name (.global d.1)) :
    (e.publish name g.manifest.functions g.module.info.exportedGlobals).Typed := by
  refine ⟨he.proper, he.symbols, fun q provider hq => ?_, fun x m hx => ?_⟩
  · obtain ⟨arity, hmem, hown⟩ | ⟨-, hold⟩ :=
      funcs_publish e name g.manifest.functions g.module.info.exportedGlobals q
    · cases hown.symm.trans hq
      rw [hmanifest] at hmem
      obtain ⟨i, f, hf, hexported, hdefined, rfl, rfl⟩ := mem_functions hp hmem
      obtain ⟨hne, hslash⟩ := Codegen.ns_of_definition hforms hdefined
      exact ⟨⟨_, _, hne, hslash, rfl⟩, _, rfl, (hfuncs i f hf hexported).grown hgrown⟩
    · exact he.funcs q provider (hold.symm.trans hq)
  · rw [globals_publish] at hx
    split at hx
    · rename_i hmem
      cases hx
      obtain ⟨i, d, hd, rfl⟩ := mem_exportedGlobals hmodule hmem
      refine ⟨?_, (hglobals i d hd).grown hgrown⟩
      have hmem : d ∈ u.nodes.filterMap Codegen.dataSymbol? :=
        hp.layout.globals ▸ List.mem_of_getElem? hd
      obtain ⟨n, hn, heq⟩ := List.mem_filterMap.mp hmem
      cases n <;> cases heq
      obtain ⟨ns, -, -, hs⟩ := CompUnit.sound_of_mem_nodes hforms hn
      exact Symbol.Simple.not_qualified hs
    · exact he.globals x m hx

/-! ## Loads -/

/-- A linked artifact of analysed forms keeps tables typed. -/
theorem Coherent.typed_link (h : e.Coherent) (hname : Loadable name)
    (hfree : ∀ x, Reserved name x → e.store.Free x) (hforms : ∀ n ∈ u.forms, n.Analyzed)
    (hmade : art.Made u fns maxDepth g) (hsmall : e.RewritesSmall art name) (ns : String) :
    (e.link ns art name).1.Typed := by
  obtain ⟨-, e₁, hran, rfl | ⟨a, -, rfl⟩⟩ | ⟨hend, -⟩ := link_cases e ns art name
  · exact h.typed.ran hran
  · exact (h.bound name a).typed.ran hran
  · rcases hlink : e.link ns art name with ⟨e', ns', result⟩
    rw [hlink] at hend
    obtain ⟨p, new, hp, hmanifest, hmodule⟩ := hmade.program
    obtain ⟨a, plan, bin, e₁, e₂, e₃, s, inst, function, values, frame, hlinkage, rfl, -, -⟩ :=
      link_made hmade hp hmodule hname hfree hsmall hlink hend
    obtain ⟨hfuncs, hglobals⟩ := hlinkage.provides hp (hmade.toModule_lt hmodule)
    have he₁ := h.bound name a
    rw [hlinkage.bound] at he₁
    exact (he₁.typed.ran hlinkage.started.runs).publish hforms hp hmodule hmanifest
      hlinkage.started.grown hfuncs hglobals

end Imports

/-- A name that is not being loaded and was never loaded. -/
theorem Settled.get?_eq_none (he : e.Settled ∅)
    (h : ∀ record, e.modules.get? name = some record → record.outcome = .pending) :
    e.modules.get? name = none := by
  cases hget : e.modules.get? name with
  | none => rfl
  | some record =>
    refine (he.ended name ?_).elim
    rw [stateOf, hget, Option.map_some, Option.getD_some, LoadRecord.state, h record hget]
    rfl

theorem Coherent.begin (h : e.Coherent) (art : Artifact) (name : String) :
    (e.begin art name).Coherent :=
  ⟨⟨h.typed.proper, h.typed.symbols, h.typed.funcs, h.typed.globals⟩,
    ⟨h.singular.distinct, h.singular.made, h.singular.singular, h.singular.apart⟩, h.named.begin art name⟩

theorem Coherent.load (h : e.Coherent) (hsettled : e.Settled ∅) {art : Artifact}
    (hart : art.Compiled) (hapart : ApartFrom e.catalog art)
    (hsmall : (e.begin art name).RewritesSmall art name) (ns : String) :
    (e.load ns (some art) name).1.Coherent := by
  refine ⟨?_, (h.singular.load hapart ns name).1, h.named.load ns art name⟩
  obtain ⟨failure, -, heq⟩ | ⟨-, record, result, metrics, -, -, heq⟩ | ⟨hrefusal, hnew, heq⟩ :=
    load_cases e ns art name
  · rw [heq]
    exact h.typed
  · rw [heq]
    exact ⟨h.typed.proper, h.typed.symbols, h.typed.funcs, h.typed.globals⟩
  · obtain ⟨u, fns, maxDepth, g, hforms, hmade⟩ := hart
    have hname := loadable_of_refusal? hrefusal
    have hlinked := (h.begin art name).typed_link hname
      (fun x hx => h.named.free hname (hsettled.get?_eq_none hnew) hx) hforms hmade hsmall ns
    rw [heq]
    exact ⟨hlinked.proper, hlinked.symbols, hlinked.funcs, hlinked.globals⟩

/-- No load of an artifact of analysed forms crashes. -/
theorem Coherent.crashed_load (h : e.Coherent) (hsettled : e.Settled ∅) {art : Artifact}
    (hart : art.Compiled) (hsmall : (e.begin art name).RewritesSmall art name) (ns : String) :
    crashed (e.load ns (some art) name).2.2 = false := by
  obtain ⟨failure, hrefused, heq⟩ | ⟨-, record, result, metrics, hget, hresult, heq⟩ |
    ⟨hrefusal, hnew, heq⟩ := load_cases e ns art name
  · rw [heq]
    exact crashed_of_refusal? hrefused
  · rw [heq]
    exact hsettled.recorded name record result hget hresult
  · obtain ⟨u, fns, maxDepth, g, hforms, hmade⟩ := hart
    have hname := loadable_of_refusal? hrefusal
    have hfree : ∀ x, Reserved name x → (e.begin art name).store.Free x := fun x hx =>
      h.named.free hname (hsettled.get?_eq_none hnew) hx
    rw [heq]
    exact crashed_link_made hmade hname hfree hsmall ns

theorem Coherent.registerForeign (h : e.Coherent) (s : Registry.Foreign) (origin : String) :
    (e.registerForeign s origin).1.Coherent := by
  refine ⟨?_, (h.singular.registerForeign s origin).1, ?_⟩
  all_goals unfold Engine.registerForeign
  all_goals split
  · exact h.typed
  · split
    · rename_i hregister
      exact h.typed.register h.singular hregister
    · exact h.typed
  · exact h.named
  · split <;> exact h.named

theorem Coherent.call (h : e.Coherent) (qualified : String) (args : List Int64) :
    (e.call qualified args).1.Coherent := by
  obtain heq | ⟨function, heq⟩ := call_cases e qualified args
  · rw [heq]
    exact h
  · rw [heq]
    have hran := ran_invokeForValue e function args
    refine ⟨h.typed.ran hran, (h.singular.ran hran).1, fun i inst hi hlive => ?_⟩
    rw [instances_invokeForValue] at hi
    obtain ⟨_, _, _, hsame, -⟩ := hran
    rw [hsame]
    exact h.named i inst hi hlive

end Engine

end WasmLisp
