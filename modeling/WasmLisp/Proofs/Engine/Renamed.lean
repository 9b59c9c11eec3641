import Mathlib
import WasmLisp.Proofs.Engine.Linked
import WasmLisp.Proofs.Machine.Names

/-!
# Loads under other module names

Names of modules tell instances apart and say more to no one. So engines that differ by a renaming of
the modules, and load the same artifact under the old and under the new name, differ by the renaming
afterwards, and both loads give the same value or fail alike (`Engine.Renamed.load`).

* `Machine.Store.Renamed`, `Engine.Renamed`: what a renaming of the modules makes of stores and engines.
-/

namespace WasmLisp

/-! ## Tables -/

namespace Table

variable {α β γ : Type} {g : α → β} {t : Table α} {t' : Table β}

/-- The tables have the same keys, and the values of the second are made of those of the first. -/
def Mapped (g : α → β) (t : Table α) (t' : Table β) : Prop := ∀ k, t'.get? k = (t.get? k).map g

theorem Mapped.insert (h : Mapped g t t') (k : String) (v : α) :
    Mapped g (t.insert k v) (t'.insert k (g v)) := by
  intro k'
  rw [get?_insert, get?_insert, h k']
  split <;> rfl

theorem Mapped.foldl (h : Mapped g t t') (key : γ → String) {value : γ → α} {value' : γ → β}
    (hvalue : ∀ x, value' x = g (value x)) (xs : List γ) :
    Mapped g (xs.foldl (fun t x => t.insert (key x) (value x)) t)
      (xs.foldl (fun t x => t.insert (key x) (value' x)) t') := by
  induction xs generalizing t t' with
  | nil => exact h
  | cons x xs ih =>
    rw [List.foldl_cons, List.foldl_cons, hvalue]
    exact ih (h.insert _ _)

end Table

/-! ## Stores -/

namespace Machine

/-- The instance under the name that its own is changed to. -/
def Instance.rename (f : String → String) (i : Instance) : Instance := { i with name := f i.name }

namespace Store

variable {η : Type} {f : String → String} {s t : Store η}

/-- The stores differ in the names of instances, which are changed from one to the other, and in
labels. -/
structure Renamed (f : String → String) (s t : Store η) : Prop where
  funcs : t.funcs.map Callee.unlabelled = s.funcs.map Callee.unlabelled
  globals : t.globals = s.globals
  instances : t.instances = s.instances.map (Instance.rename f)

theorem Renamed.nameless (h : Renamed f s t) : t.nameless = s.nameless := by
  unfold Store.nameless
  rw [h.funcs, h.globals, h.instances, Array.map_map]
  rfl

theorem Renamed.size_funcs (h : Renamed f s t) : t.funcs.size = s.funcs.size := by
  simpa using congrArg Array.size h.funcs

theorem Renamed.size_instances (h : Renamed f s t) : t.instances.size = s.instances.size := by
  rw [h.instances, Array.size_map]

theorem Renamed.type (h : Renamed f s t) (a : Nat) :
    (t.funcs[a]?).map Callee.type = (s.funcs[a]?).map Callee.type := by
  have hfuncs := congrArg (fun fns => (fns[a]?).map Callee.type) h.funcs
  simpa only [Array.getElem?_map, Option.map_map, Function.comp_def, Callee.type_unlabelled] using hfuncs

theorem Renamed.find? (h : Renamed f s t) (hf : f.Injective) (name : String) :
    t.find? (f name) = s.find? name := by
  unfold Store.find?
  rw [h.instances, Array.findIdx?_map]
  congr 1
  funext i
  have hname : (f i.name == f name) = (i.name == name) := by
    rw [Bool.eq_iff_iff, beq_iff_eq, beq_iff_eq, hf.eq_iff]
  simp only [Function.comp_apply, Instance.rename, hname]

theorem Renamed.getElem?_instances (h : Renamed f s t) (i : Nat) :
    t.instances[i]? = (s.instances[i]?).map (Instance.rename f) := by
  rw [h.instances, Array.getElem?_map]

theorem Renamed.export? (h : Renamed f s t) (hf : f.Injective) (module name : String) :
    t.export? (f module) name = s.export? module name := by
  simp only [Store.export?, h.find? hf, bind]
  congr 1
  funext i
  rw [h.getElem?_instances, Option.bind_map]
  rfl

theorem Renamed.close (h : Renamed f s t) (i : Nat) : Renamed f (s.close i) (t.close i) := by
  refine ⟨h.funcs, h.globals, ?_⟩
  unfold Store.close
  rw [h.instances]
  refine Array.ext (by simp) fun j hj hj' => ?_
  simp only [Array.getElem_modify, Array.getElem_map]
  split <;> rfl

theorem Renamed.addHost (h : Renamed f s t) (name : String)
    (fns : List (String × η × Binary.FuncType)) :
    Renamed f (s.addHost name fns) (t.addHost (f name) fns) := by
  refine ⟨?_, h.globals, ?_⟩
  · simp only [Store.addHost, Array.map_append, h.funcs]
    congr 1
    rw [List.map_toArray, List.map_toArray, List.map_map, List.map_map]
    rfl
  · simp only [Store.addHost, h.instances, h.size_funcs, Array.map_push]
    rfl

theorem Renamed.addGlobals (h : Renamed f s t) (name : String) (data : List (String × Int64)) :
    Renamed f (s.addGlobals name data) (t.addGlobals (f name) data) := by
  refine ⟨h.funcs, ?_, ?_⟩
  · simp only [Store.addGlobals, h.globals]
  · simp only [Store.addGlobals, h.instances, h.globals, Array.map_push]
    rfl

theorem Renamed.linkImport? (h : Renamed f s t) (hf : f.Injective) (m m' : Module)
    (hm : m'.types = m.types) {i i' : Binary.Import} (hmodule : i'.module = f i.module)
    (hname : i'.name = i.name) (hdesc : i'.desc = i.desc) :
    t.linkImport? m' i' = s.linkImport? m i := by
  simp only [Store.linkImport?, hmodule, hname, hdesc, h.export? hf, h.type, h.globals, hm]

theorem Renamed.ite (c : Prop) [Decidable c] {s' t' : Store η} (h : Renamed f s t)
    (h' : Renamed f s' t') : Renamed f (if c then s else s') (if c then t else t') := by
  split
  · exact h
  · exact h'

/-- What a module makes of a store, it makes of the renamed one if its imports come from the renamed
modules. -/
theorem Renamed.instantiate? (h : Renamed f s t) (hf : f.Injective) (m : Module) (name : String)
    {target target' : String → String → String}
    (htarget : ∀ i ∈ m.imports, target' i.module i.name = f (target i.module i.name)) :
    Option.Rel (Renamed f) (s.instantiate? (m.redirect target) name)
      (t.instantiate? (m.redirect target') (f name)) := by
  have hlinked : (m.redirect target').imports.mapM (t.linkImport? (m.redirect target')) =
      (m.redirect target).imports.mapM (s.linkImport? (m.redirect target)) := by
    have hall : ∀ is ⊆ m.imports,
        (is.map (Binary.Import.redirect target')).mapM (t.linkImport? (m.redirect target')) =
          (is.map (Binary.Import.redirect target)).mapM (s.linkImport? (m.redirect target)) := by
      intro is his
      induction is with
      | nil => rfl
      | cons i is ih =>
        rw [List.cons_subset] at his
        have hi : t.linkImport? (m.redirect target') (i.redirect target') =
            s.linkImport? (m.redirect target) (i.redirect target) :=
          h.linkImport? hf _ _ rfl (htarget i his.1) rfl rfl
        rw [List.map_cons, List.map_cons, List.mapM_cons, List.mapM_cons, hi, ih his.2]
    exact hall m.imports (List.Subset.refl _)
  have hinit : ∀ imported, t.initValue imported = s.initValue imported := by
    intro imported
    funext c
    cases c with
    | global i => simp only [initValue, h.globals]
    | _ => rfl
  unfold Store.instantiate?
  rw [hlinked]
  cases (m.redirect target).imports.mapM (s.linkImport? (m.redirect target)) with
  | none => exact .none
  | some linked =>
    refine .some ⟨?_, ?_, ?_⟩
    · simp only [h.size_instances, Array.map_append, h.funcs]
      rfl
    · simp only [h.globals, hinit]
      rfl
    · simp only [h.instances, h.size_funcs, h.globals, hinit, Array.size_map, Array.map_push]
      rfl

end Store

end Machine

/-! ## Engines -/

open Result (RelUpTo)

/-- A renaming of modules: it tells them apart, and the instances of registered symbols keep their
names. -/
structure Renaming (f : String → String) : Prop where
  injective : f.Injective
  foreign : ∀ n : Nat, f s!"#foreign/{n}" = s!"#foreign/{n}"
  foreignData : ∀ n : Nat, f s!"#foreign.data/{n}" = s!"#foreign.data/{n}"

/-- A module can be loaded under its name and under the new one, and the instances that are made for it
are renamed with it. -/
structure Renames (f : String → String) (name : String) : Prop where
  loadable : Engine.Loadable name
  renamed : Engine.Loadable (f name)
  var : f (name ++ "#var") = f name ++ "#var"
  varDef : f (name ++ "#var.def") = f name ++ "#var.def"

def EntryPoint.rename (f : String → String) (p : EntryPoint) : EntryPoint :=
  { p with module := f p.module }

def Provider.rename (f : String → String) (p : Provider) : Provider :=
  { p with module := f p.module }

namespace Engine

variable {f : String → String} {e e' : Engine} {name : String}

/-- What the load of a name gave that has ended. -/
def outcome? (e : Engine) (name : String) : Option (Result EntryPoint) :=
  (e.modules.get? name).bind (·.outcome.result?)

/-- Both loads gave the same, apart from the name of the module, or failed alike. -/
def SameLoad (f : String → String) : Result EntryPoint → Result EntryPoint → Prop :=
  RelUpTo Failure.SameSort fun p q => q = p.rename f

/-- The engines differ in the names of modules, which are changed from one to the other, in the wording
of failures and in counts. -/
structure Renamed (f : String → String) (e e' : Engine) : Prop where
  registry : e'.registry = e.registry
  catalog : e'.catalog = e.catalog
  env : e'.env = e.env
  around : e'.around = e.around
  materialized : e'.materialized = e.materialized
  generation : e'.generation = e.generation
  closed : e'.closed = e.closed
  store : e.store.Renamed f e'.store
  funcs : e.funcs.Mapped (Provider.rename f) e'.funcs
  globals : e.globals.Mapped f e'.globals
  symbols : e.symbols.Mapped f e'.symbols
  outcomes : ∀ n, Option.Rel (SameLoad f) (e.outcome? n) (e'.outcome? (f n))

theorem Renamed.withStore (h : e.Renamed f e') {s s' : Machine.Store HostFn} (hs : s.Renamed f s') :
    Renamed f { e with store := s } { e' with store := s' } :=
  { h with store := hs }

theorem Renamed.withEnv (h : e.Renamed f e') (env : Env) :
    Renamed f { e with env } { e' with env } :=
  { h with env := rfl }

/-- The value of a data symbol has nothing to do with the names of modules. -/
theorem Renamed.global? (h : e.Renamed f e') (hf : Renaming f) (q : String) :
    e'.global? q = e.global? q := by
  have hmodule : (e'.symbols.get? q).or (e'.globals.get? q) =
      ((e.symbols.get? q).or (e.globals.get? q)).map f := by
    rw [h.symbols q, h.globals q, Option.map_or]
  unfold Engine.global?
  rw [hmodule]
  cases (e.symbols.get? q).or (e.globals.get? q) with
  | none => rfl
  | some module =>
    simp only [Option.map_some, bind, Option.bind_some, h.store.export? hf.injective,
      Machine.Store.globalValue, h.store.globals]

/-! ### Calls -/

/-- The calls gave the same values, or failed alike. -/
def SameEnd : CallEnd → CallEnd → Prop
  | .values vs, .values vs' => vs' = vs
  | .failed reason, .failed reason' => reason.SameSort reason'
  | _, _ => False

theorem Renamed.invoke (h : e.Renamed f e') (function : Nat) (args : List Int64) :
    (e.invoke function args).1.Renamed f (e'.invoke function args).1 ∧
      SameEnd (e.invoke function args).2 (e'.invoke function args).2 := by
  have harity : ((e'.store.funcs[function]?).map (·.type.params.length)).getD 0 =
      ((e.store.funcs[function]?).map (·.type.params.length)).getD 0 := by
    have htype := congrArg (Option.map (·.params.length)) (h.store.type function)
    rw [Option.map_map, Option.map_map] at htype
    exact congrArg (Option.getD · 0) htype
  unfold Engine.invoke
  rw [harity, h.env, h.around]
  dsimp only
  split
  · exact ⟨h, rfl⟩
  · have hleft := Machine.invoke_alike HostFn.call e.store { env := e.env, around := e.around }
      function args
    have hright := Machine.invoke_alike HostFn.call e'.store { env := e.env, around := e.around }
      function args
    have hsame := Machine.invoke_nameless HostFn.call e.store { env := e.env, around := e.around }
      function args
    rw [← h.store.nameless, Machine.invoke_nameless] at hsame
    -- runs add nothing to a store, so the stores differ afterwards as they did before
    have hstore : ∀ s s' : Machine.Store HostFn, e.store.Alike s → e'.store.Alike s' →
        s'.nameless = s.nameless → s.Renamed f s' := by
      intro s s' hs hs' hnameless
      refine ⟨?_, congrArg (·.globals) hnameless, ?_⟩
      · rw [hs.funcs, hs'.funcs, h.store.funcs]
      · rw [hs.instances, hs'.instances, h.store.instances]
    generalize Machine.invoke HostFn.call e.store _ function args = left at hleft hsame ⊢
    generalize Machine.invoke HostFn.call e'.store _ function args = right at hright hsame ⊢
    cases left with
    | done vs s w =>
      cases right with
      | done vs' s' w' =>
        obtain ⟨rfl, hnameless, rfl⟩ := Machine.Outcome.done.inj hsame
        exact ⟨{ h with store := hstore s s' hleft hright hnameless, env := rfl, around := rfl }, rfl⟩
      | _ => simp only [Machine.Outcome.nameless, reduceCtorEq] at hsame
    | trap cause active s w =>
      cases right with
      | trap cause' active' s' w' =>
        obtain ⟨rfl, rfl, hnameless, rfl⟩ := Machine.Outcome.trap.inj hsame
        exact ⟨{ h with store := hstore s s' hleft hright hnameless, env := rfl, around := rfl }, rfl⟩
      | _ => simp only [Machine.Outcome.nameless, reduceCtorEq] at hsame
    | outOfFuel s w =>
      cases right with
      | outOfFuel s' w' =>
        obtain ⟨hnameless, rfl⟩ := Machine.Outcome.outOfFuel.inj hsame
        exact ⟨{ h with store := hstore s s' hleft hright hnameless, env := rfl, around := rfl }, rfl⟩
      | _ => simp only [Machine.Outcome.nameless, reduceCtorEq] at hsame

/-! ### Resolution -/

theorem Renamed.materialize (h : e.Renamed f e') (hf : Renaming f) :
    e.materialize.Renamed f e'.materialize := by
  unfold Engine.materialize
  rw [h.registry, h.materialized]
  cases e.registry.since e.materialized with
  | nil => exact h
  | cons r rest =>
    dsimp only
    rw [h.generation]
    have hfns : ∀ fns, (e.store.addHost s!"#foreign/{e.generation + 1}" fns).Renamed f
        (e'.store.addHost s!"#foreign/{e.generation + 1}" fns) := by
      intro fns
      simpa only [hf.foreign] using h.store.addHost s!"#foreign/{e.generation + 1}" fns
    exact { h with
      registry := rfl
      materialized := rfl
      generation := rfl
      store := by
        refine .ite _ (.ite _ h.store (hfns _)) ?_
        simpa only [hf.foreignData] using
          (Machine.Store.Renamed.ite _ h.store (hfns _)).addGlobals
            s!"#foreign.data/{e.generation + 1}" _
      symbols := (h.symbols.foldl _ (fun _ => (hf.foreign _).symm) _).foldl _
        (fun _ => (hf.foreignData _).symm) _ }

theorem Renamed.checkGlobals (h : e.Renamed f e') (name name' : String) (globals : List String) :
    RelUpTo Failure.SameSort Eq (e.checkGlobals name globals) (e'.checkGlobals name' globals) := by
  induction globals with
  | nil => rfl
  | cons g globals ih =>
    unfold Engine.checkGlobals
    rw [h.registry, h.globals g]
    cases e.registry.resolve? g with
    | some r => rfl
    | none =>
      cases e.globals.get? g with
      | some owner => rfl
      | none => exact ih

/-- Artifacts are prepared alike, whatever the module is called. -/
theorem Renamed.prepare (h : e.Renamed f e') (art : Artifact) (name name' : String) :
    RelUpTo Failure.SameSort Eq (e.prepare art name) (e'.prepare art name') := by
  have hmanifest : ∀ info, RelUpTo Failure.SameSort Eq (manifestOf art info name)
      (manifestOf art info name') := by
    intro info
    unfold manifestOf
    cases art.manifest with
    | some m => rfl
    | none =>
      dsimp only
      cases Artifact.ofInfo art.bytes info art.target <;> rfl
  unfold Engine.prepare
  cases Binary.Info.inspect art.bytes with
  | error fault => rfl
  | ok info =>
    refine RelUpTo.bind (R := Eq) rfl ?_
    rintro info _ rfl
    refine RelUpTo.bind (hmanifest info) ?_
    rintro m _ rfl
    exact RelUpTo.bind (h.checkGlobals name name' info.exportedGlobals) fun _ _ _ => rfl

/-- The plans bind the same imports to modules that are renamed from one to the other. -/
structure Plan.Renamed (f : String → String) (p p' : Plan) : Prop where
  remap : p'.remap = p.remap.map fun x => (x.1, f x.2)
  bindings : p'.bindings = p.bindings
  reads : p'.reads = p.reads
  defs : p'.defs = p.defs

theorem Plan.Renamed.provide {p p' : Plan} (h : p.Renamed f p') (i : Binary.Import) (module : String) :
    (p.provide i module).Renamed f (p'.provide i (f module)) :=
  { h with remap := by rw [Plan.provide, h.remap]; rfl }

theorem Plan.Renamed.target {p p' : Plan} (h : p.Renamed f p') {module name : String}
    (hkey : (module, name) ∈ p.remap.map Prod.fst) :
    p'.target module name = f (p.target module name) := by
  have hlookup : p'.remap.lookup (module, name) = (p.remap.lookup (module, name)).map f := by
    rw [h.remap]
    induction p.remap with
    | nil => rfl
    | cons x remap ih =>
      rw [List.map_cons, List.lookup_cons, List.lookup_cons, ih]
      split <;> rfl
  have hsome : p.remap.lookup (module, name) ≠ none := by
    rw [Ne, List.lookup_eq_none_iff]
    intro hnone
    obtain ⟨x, hx, hxkey⟩ := List.mem_map.mp hkey
    have hne := hnone x hx
    simp [hxkey] at hne
  obtain ⟨m, hm⟩ := Option.ne_none_iff_exists'.mp hsome
  rw [Plan.target, Plan.target, hlookup, hm]
  rfl

/-- The plans for an import are alike, or it is refused alike. -/
def SamePlan (f : String → String) : Result Plan → Result Plan → Prop :=
  RelUpTo Failure.SameSort (Plan.Renamed f)

theorem Renamed.fromRegistry (h : e.Renamed f e') (name : String) {p p' : Plan}
    (hp : p.Renamed f p') (i : Binary.Import) (w : Want) :
    Option.Rel (SamePlan f) (e.fromRegistry name i w p) (e'.fromRegistry (f name) i w p') := by
  unfold Engine.fromRegistry
  rw [h.registry]
  cases e.registry.resolve? i.name with
  | none => exact .none
  | some r =>
    refine .some ?_
    dsimp only
    rw [h.symbols i.name]
    split
    · rfl
    · split
      · rfl
      · cases e.symbols.get? i.name with
        | none => rfl
        | some provider =>
          exact { hp.provide i provider with bindings := by rw [hp.bindings] }

theorem Renamed.fromModules (h : e.Renamed f e') (name : String) {p p' : Plan}
    (hp : p.Renamed f p') (i : Binary.Import) (w : Want) :
    Option.Rel (SamePlan f) (e.fromModules name i w p) (e'.fromModules (f name) i w p') := by
  unfold Engine.fromModules
  rw [h.globals i.name, h.funcs i.name]
  split
  · cases e.globals.get? i.name with
    | none => exact .none
    | some owner => exact .some (hp.provide i owner)
  · cases e.funcs.get? i.name with
    | none => exact .none
    | some provider =>
      refine .some ?_
      show SamePlan f (ite (provider.arity ≠ w.arity) _ _) (ite (provider.arity ≠ w.arity) _ _)
      by_cases harity : provider.arity ≠ w.arity
      · rw [if_pos harity, if_pos harity]
        rfl
      · rw [if_neg harity, if_neg harity]
        exact hp.provide i provider.module

/-- The engines that a search leaves are alike, and so are the plans. -/
def SameSearch (f : String → String) (x y : Engine × Result Plan) : Prop :=
  x.1.Renamed f y.1 ∧ SamePlan f x.2 y.2

theorem Renamed.fromCatalog (h : e.Renamed f e') (hf : Renaming f) (name : String) {p p' : Plan}
    (hp : p.Renamed f p') (i : Binary.Import) (w : Want) :
    Option.Rel (SameSearch f) (e.fromCatalog name i w p) (e'.fromCatalog (f name) i w p') := by
  unfold Engine.fromCatalog
  rw [h.catalog, h.registry]
  cases e.catalog with
  | none => exact .none
  | some catalog =>
    simp only [bind, Option.bind_some]
    cases catalog.lookup? i.name with
    | none => exact .none
    | some found =>
      obtain ⟨symbol, lib⟩ := found
      simp only [Option.bind_some]
      cases e.registry.register symbol (Registry.libraryOrigin lib) with
      | error failure => exact .some ⟨h, rfl⟩
      | ok registered =>
        obtain ⟨record, registry⟩ := registered
        have hengine : Renamed f { e with registry, catalog := some catalog }
            { e' with registry, catalog := some catalog } := { h with registry := rfl, catalog := rfl }
        have hmaterialized := hengine.materialize hf
        have hplan := hmaterialized.fromRegistry name hp i w
        dsimp only
        generalize Engine.fromRegistry _ name i w p = left at hplan ⊢
        generalize Engine.fromRegistry _ (f name) i w p' = right at hplan ⊢
        cases hplan with
        | none => exact .none
        | some hplan => exact .some ⟨hmaterialized, hplan⟩

theorem Renamed.resolveEnv (h : e.Renamed f e') (hf : Renaming f) {p p' : Plan}
    (hp : p.Renamed f p') (info : Binary.Info) (i : Binary.Import) :
    SameSearch f (e.resolveEnv name info i p) (e'.resolveEnv (f name) info i p') := by
  unfold Engine.resolveEnv
  cases want? info i with
  | none => exact ⟨h, rfl⟩
  | some w =>
    have hregistry := h.fromRegistry name hp i w
    have hmodules := h.fromModules name hp i w
    have hcatalog := h.fromCatalog hf name hp i w
    dsimp only
    generalize e.fromRegistry name i w p = left at hregistry ⊢
    generalize e'.fromRegistry (f name) i w p' = right at hregistry ⊢
    cases hregistry with
    | some hplan => exact ⟨h, hplan⟩
    | none =>
      simp only [Option.none_or]
      generalize e.fromModules name i w p = left at hmodules ⊢
      generalize e'.fromModules (f name) i w p' = right at hmodules ⊢
      cases hmodules with
      | some hplan => exact ⟨h, hplan⟩
      | none =>
        dsimp only
        generalize e.fromCatalog name i w p = left at hcatalog ⊢
        generalize e'.fromCatalog (f name) i w p' = right at hcatalog ⊢
        cases hcatalog with
        | some hsearch => exact hsearch
        | none => exact ⟨h, rfl⟩

theorem Renamed.resolveImport (h : e.Renamed f e') (hf : Renaming f) (hname : Renames f name)
    {p p' : Plan} (hp : p.Renamed f p') (info : Binary.Info) (i : Binary.Import) :
    SameSearch f (e.resolveImport name info i p) (e'.resolveImport (f name) info i p') := by
  unfold Engine.resolveImport
  split
  · exact h.resolveEnv hf hp info i
  · split
    · refine ⟨h, ?_⟩
      have hvar := hp.provide i (name ++ "#var")
      rw [hname.var] at hvar
      exact { hvar with reads := by rw [hp.reads] }
    · split
      · refine ⟨h, ?_⟩
        have hvar := hp.provide i (name ++ "#var.def")
        rw [hname.varDef] at hvar
        exact { hvar with defs := by rw [hp.defs] }
      · exact ⟨h, rfl⟩

/-- Imports are bound to the same providers, apart from their names. -/
theorem Renamed.resolveAll (h : e.Renamed f e') (hf : Renaming f) (hname : Renames f name)
    {p p' : Plan} (hp : p.Renamed f p') (info : Binary.Info) (imports : List Binary.Import) :
    SameSearch f (e.resolveAll name info p imports) (e'.resolveAll (f name) info p' imports) := by
  induction imports generalizing e e' p p' with
  | nil => exact ⟨h, hp⟩
  | cons i imports ih =>
    have hi := h.resolveImport hf hname hp info i
    unfold Engine.resolveAll
    generalize e.resolveImport name info i p = left at hi ⊢
    generalize e'.resolveImport (f name) info i p' = right at hi ⊢
    obtain ⟨e₁, failure | p₁⟩ := left <;> obtain ⟨e₁', failure' | p₁'⟩ := right
    · exact hi
    · exact hi.2.elim
    · exact hi.2.elim
    · exact ih hi.1 hi.2

/-- A plan for imports says of each of them where it comes from. -/
theorem mem_remap_resolveAll {info : Binary.Info} {imports : List Binary.Import} {p p' : Plan}
    (h : e.resolveAll name info p imports = (e', .ok p')) :
    p.remap ⊆ p'.remap ∧ ∀ i ∈ imports, (i.module, i.name) ∈ p'.remap.map Prod.fst := by
  induction imports generalizing e p with
  | nil =>
    cases h
    exact ⟨List.Subset.refl _, nofun⟩
  | cons i imports ih =>
    unfold Engine.resolveAll at h
    split at h
    · cases h
    · rename_i e₁ p₁ hi
      obtain ⟨m, hremap, -⟩ := resolveImport_eq_ok hi
      obtain ⟨hsub, hall⟩ := ih h
      rw [hremap] at hsub
      rw [List.cons_subset] at hsub
      refine ⟨hsub.2, List.forall_mem_cons.mpr ⟨?_, hall⟩⟩
      exact List.mem_map.mpr ⟨_, hsub.1, rfl⟩

/-! ### Starting -/

theorem Renamed.bindVars (h : e.Renamed f e') (hname : Renames f name) {p p' : Plan}
    (hp : p.Renamed f p') : (e.bindVars name p).Renamed f (e'.bindVars (f name) p') := by
  unfold Engine.bindVars
  rw [hp.reads, hp.defs, ← hname.var, ← hname.varDef]
  have hreads := Machine.Store.Renamed.ite (p.reads.isEmpty = true) h.store
    (h.store.addHost (name ++ "#var") (p.reads.map fun q =>
      (q, HostFn.readVar q, { params := [], results := i64s 1 })))
  exact h.withStore (.ite _ hreads (hreads.addHost _ _))

theorem Renamed.bindersTaken? (h : e.Renamed f e') (hf : Renaming f) (hname : Renames f name)
    {p p' : Plan} (hp : p.Renamed f p') :
    Option.Rel Failure.SameSort (e.bindersTaken? name p) (e'.bindersTaken? (f name) p') := by
  unfold Engine.bindersTaken?
  rw [hp.reads, hp.defs, ← hname.var, ← hname.varDef]
  simp only [h.store.find? hf.injective]
  split
  · exact .some rfl
  · simp only [Option.none_or]
    split
    · exact .some rfl
    · exact .none

theorem Renamed.discard (h : e.Renamed f e') (known : Nat) :
    (e.discard known).Renamed f (e'.discard known) := by
  have hclosed : ∀ (added : List Nat) {s s' : Machine.Store HostFn}, s.Renamed f s' →
      (added.foldl Machine.Store.close s).Renamed f (added.foldl Machine.Store.close s') := by
    intro added
    induction added with
    | nil => exact fun hs => hs
    | cons i added ih => exact fun hs => ih (hs.close i)
  unfold Engine.discard
  dsimp only
  rw [h.store.size_instances]
  exact h.withStore (hclosed _ h.store)

/-- A start that fails fails alike. -/
def SameStop (x y : Option Failure) : Prop := Option.Rel Failure.SameSort x y

theorem Renamed.exportedFunction? (h : e.Renamed f e') (hf : Renaming f) (module q : String) :
    e'.exportedFunction? (f module) q = e.exportedFunction? module q := by
  unfold Engine.exportedFunction?
  rw [h.store.export? hf.injective]

theorem Renamed.runStart (h : e.Renamed f e') (hf : Renaming f) {m m' : Machine.Module}
    (hm : m'.start = m.start) :
    (e.runStart m name).1.Renamed f (e'.runStart m' (f name)).1 ∧
      SameStop (e.runStart m name).2 (e'.runStart m' (f name)).2 := by
  unfold Engine.runStart
  rw [hm, h.exportedFunction? hf, h.store.find? hf.injective]
  have hinst : ((e.store.find? name).bind fun i => e'.store.instances[i]?) =
      ((e.store.find? name).bind fun i => e.store.instances[i]?).map (Machine.Instance.rename f) := by
    cases e.store.find? name with
    | none => rfl
    | some i => exact h.store.getElem?_instances i
  rw [hinst]
  have hstart : (m.start.bind fun i =>
      (((e.store.find? name).bind fun i => e.store.instances[i]?).map
        (Machine.Instance.rename f)).bind fun x => x.funcs[i]?) =
      m.start.bind fun i =>
        ((e.store.find? name).bind fun i => e.store.instances[i]?).bind fun x => x.funcs[i]? := by
    simp only [Option.bind_map]
    rfl
  dsimp only
  rw [hstart]
  generalize Option.toList _ ++ Option.toList _ = functions
  refine List.foldl_rel (r := fun x y : Engine × Option Failure =>
    x.1.Renamed f y.1 ∧ SameStop x.2 y.2) ⟨h, .none⟩ ?_
  rintro function - ⟨e₁, stop⟩ ⟨e₁', stop'⟩ ⟨he, hstop⟩
  cases hstop with
  | some hsort => exact ⟨he, .some hsort⟩
  | none =>
    obtain ⟨hengine, hend⟩ := Renamed.invoke he function []
    dsimp only
    generalize Engine.invoke e₁ function [] = left at hengine hend ⊢
    generalize Engine.invoke e₁' function [] = right at hengine hend ⊢
    rcases left with ⟨e₂, vs | reason⟩ <;> rcases right with ⟨e₂', vs' | reason'⟩
    · exact ⟨hengine, .none⟩
    · exact hend.elim
    · exact hend.elim
    · exact ⟨hengine, .some hend⟩

/-- The binaries are loaded to the same module, apart from where its imports come from, or both are
refused. -/
def SameBinary (f : String → String) (bin bin' : List UInt8) : Prop :=
  (Machine.Module.load? bin = none ∧ Machine.Module.load? bin' = none) ∨
    ∃ (m : Machine.Module) (target target' : String → String → String),
      Machine.Module.load? bin = some (m.redirect target) ∧
        Machine.Module.load? bin' = some (m.redirect target') ∧
        ∀ i ∈ m.imports, target' i.module i.name = f (target i.module i.name)

theorem Renamed.instantiate (h : e.Renamed f e') (hf : Renaming f) (name : String)
    {bin bin' : List UInt8} (hbin : SameBinary f bin bin') :
    (e.instantiate bin name).1.Renamed f (e'.instantiate bin' (f name)).1 ∧
      SameStop (e.instantiate bin name).2 (e'.instantiate bin' (f name)).2 := by
  unfold Engine.instantiate
  obtain ⟨hnone, hnone'⟩ | ⟨m, target, target', hm, hm', htarget⟩ := hbin
  · rw [hnone, hnone']
    exact ⟨h, .some rfl⟩
  · rw [hm, hm']
    have hstore := h.store.instantiate? hf.injective m name htarget
    dsimp only
    generalize e.store.instantiate? (m.redirect target) name = left at hstore ⊢
    generalize e'.store.instantiate? (m.redirect target') (f name) = right at hstore ⊢
    cases hstore with
    | none => exact ⟨h, .some rfl⟩
    | some hs =>
      dsimp only
      rw [h.store.find? hf.injective]
      split
      · exact ⟨h, .some rfl⟩
      · exact (h.withStore hs).runStart hf rfl

theorem Renamed.initialise (h : e.Renamed f e') (hf : Renaming f) (name ns entry : String)
    (effects : List Effect) :
    let left := e.initialise ns name entry effects
    let right := e'.initialise ns (f name) entry effects
    left.1.Renamed f right.1 ∧ right.2.1 = left.2.1 ∧
      RelUpTo Failure.SameSort Eq left.2.2 right.2.2 := by
  unfold Engine.initialise
  rw [h.exportedFunction? hf]
  cases e.exportedFunction? name entry with
  | none => exact ⟨h, rfl, rfl⟩
  | some function =>
    have hrun := (h.withEnv (e.env.ensure ns)).invoke function []
    dsimp only
    rw [h.env]
    generalize Engine.invoke { e with env := e.env.ensure ns } function [] = left at hrun ⊢
    generalize Engine.invoke { e' with env := e.env.ensure ns } function [] = right at hrun ⊢
    obtain ⟨e₁, values | reason⟩ := left <;> obtain ⟨e₁', values' | reason'⟩ := right
    · obtain ⟨hengine, rfl⟩ := hrun
      dsimp only
      rw [hengine.env]
      rcases Frame.apply { env := e₁.env, ns } effects with ⟨frame, _ | fault⟩
      · exact ⟨hengine.withEnv _, rfl, rfl⟩
      · exact ⟨hengine.withEnv _, rfl, rfl⟩
    · exact hrun.2.elim
    · exact hrun.2.elim
    · exact ⟨hrun.1, rfl, rfl⟩

theorem Renamed.publish (h : e.Renamed f e') (name : String) (functions : List (String × Int))
    (globals : List String) :
    (e.publish name functions globals).Renamed f (e'.publish (f name) functions globals) := by
  unfold Engine.publish
  dsimp only
  rw [h.env]
  exact { h with
    env := rfl
    funcs := h.funcs.foldl _ (fun _ => rfl) functions
    globals := h.globals.foldl _ (fun _ => rfl) globals }

/-- The engines that loading leaves are alike, and so are the frames and the results. -/
def SameLoaded (f : String → String) (x y : Engine × String × Result EntryPoint) : Prop :=
  x.1.Renamed f y.1 ∧ y.2.1 = x.2.1 ∧ SameLoad f x.2.2 y.2.2

theorem Renamed.start (h : e.Renamed f e') (hf : Renaming f) (hname : Renames f name) (ns : String)
    {bin bin' : List UInt8} (hbin : SameBinary f bin bin') {p p' : Plan} (hp : p.Renamed f p')
    (a : Prepared) :
    SameLoaded f (e.start ns name bin p a) (e'.start ns (f name) bin' p' a) := by
  have htaken := h.bindersTaken? hf hname hp
  have hmade := (h.bindVars hname hp).instantiate hf name hbin
  unfold Engine.start
  dsimp only
  rw [h.store.size_instances]
  generalize e.bindersTaken? name p = left at htaken ⊢
  generalize e'.bindersTaken? (f name) p' = right at htaken ⊢
  cases htaken with
  | some hsort => exact ⟨h, rfl, rfl⟩
  | none =>
    dsimp only
    generalize (e.bindVars name p).instantiate bin name = left at hmade ⊢
    generalize (e'.bindVars (f name) p').instantiate bin' (f name) = right at hmade ⊢
    obtain ⟨e₁, stop⟩ := left
    obtain ⟨e₁', stop'⟩ := right
    obtain ⟨hengine, hstop⟩ := hmade
    cases hstop with
    | some hsort => exact ⟨hengine.discard _, rfl, rfl⟩
    | none =>
      have hinit := Renamed.initialise hengine hf name ns a.entry a.manifest.effects
      dsimp only at hinit ⊢
      generalize Engine.initialise e₁ ns name a.entry a.manifest.effects = left at hinit ⊢
      generalize Engine.initialise e₁' ns (f name) a.entry a.manifest.effects = right at hinit ⊢
      obtain ⟨e₂, ns₂, failure | ⟨function, values⟩⟩ := left <;>
        obtain ⟨e₂', ns₂', failure' | ⟨function', values'⟩⟩ := right
      · exact ⟨hinit.1.discard _, hinit.2.1, hinit.2.2⟩
      · exact hinit.2.2.elim
      · exact hinit.2.2.elim
      · obtain ⟨hengine, rfl, hresult⟩ := hinit
        cases (show (function, values) = (function', values') from hresult)
        refine ⟨hengine.publish _ _ _, rfl, ?_⟩
        cases values with
        | nil => rfl
        | cons value values =>
          show EntryPoint.mk _ _ _ _ _ = _
          rw [hp.bindings]
          rfl

/-! ### Loading -/

variable {u : CompUnit} {fns : List Defn} {maxDepth : Int} {g : Codegen.Generated} {art : Artifact}

/-- The binary of a generated module is loaded to its program, whatever its imports are called. -/
theorem sameBinary_made (hmade : art.Made u fns maxDepth g) {a : Prepared}
    (ha : e.prepare art name = .ok a) {p p' : Plan} (hp : p.Renamed f p')
    (hremap : ∀ i ∈ a.info.imports, (i.module, i.name) ∈ p.remap.map Prod.fst)
    {r r' : Binary.Redirected} (hr : Binary.redirectImports p.target art.bytes = .ok r)
    (hr' : Binary.redirectImports p'.target art.bytes = .ok r') (hsmall : r.bytes.length < 0x100000000)
    (hsmall' : r'.bytes.length < 0x100000000) : SameBinary f r.bytes r'.bytes := by
  obtain ⟨q, new, hq, -, hmodule⟩ := hmade.program
  have hload := hmade.load?_redirected_eq hq hmodule hr hsmall
  have hload' := hmade.load?_redirected_eq hq hmodule hr' hsmall'
  rw [SameBinary, hload, hload']
  by_cases hvalid : q.machine.valid
  · refine .inr ⟨q.machine, p.target, p'.target, if_pos hvalid, if_pos hvalid, fun i hi => ?_⟩
    refine hp.target (hremap i ?_)
    rw [(prepare_made hmade ha).1, hmodule]
    exact hi
  · exact .inl ⟨if_neg hvalid, if_neg hvalid⟩

theorem Renamed.link (h : e.Renamed f e') (hf : Renaming f) (hname : Renames f name)
    (hmade : art.Made u fns maxDepth g) (hsmall : e.RewritesSmall art name)
    (hsmall' : e'.RewritesSmall art (f name)) (ns : String) :
    SameLoaded f (e.link ns art name) (e'.link ns art (f name)) := by
  have hprepare := h.prepare art name (f name)
  unfold RewritesSmall at hsmall hsmall'
  unfold Engine.link
  cases ha : e.prepare art name with
  | error failure =>
    cases ha' : e'.prepare art (f name) with
    | error failure' =>
      rw [ha, ha'] at hprepare
      exact ⟨h, rfl, hprepare⟩
    | ok a' =>
      rw [ha, ha'] at hprepare
      exact hprepare.elim
  | ok a =>
    cases ha' : e'.prepare art (f name) with
    | error failure' =>
      rw [ha, ha'] at hprepare
      exact hprepare.elim
    | ok a' =>
      rw [ha, ha'] at hprepare
      obtain rfl : a = a' := hprepare
      have hempty : Plan.Renamed f {} {} := ⟨rfl, rfl, rfl, rfl⟩
      have hsearch := (h.materialize hf).resolveAll hf hname hempty a.info a.info.imports
      dsimp only
      cases hbound : e.materialize.resolveAll name a.info {} a.info.imports with
      | mk e₁ plan =>
        cases hbound' : e'.materialize.resolveAll (f name) a.info {} a.info.imports with
        | mk e₁' plan' =>
          rw [hbound, hbound'] at hsearch
          obtain ⟨hengine, hplan⟩ := hsearch
          cases plan <;> cases plan'
          · exact ⟨hengine, rfl, hplan⟩
          · exact hplan.elim
          · exact hplan.elim
          · rename_i p p'
            obtain ⟨q, new, hq, -, hmodule⟩ := hmade.program
            obtain ⟨r, hr, -⟩ := hmade.redirectImports_eq hmodule p.target
            obtain ⟨r', hr', -⟩ := hmade.redirectImports_eq hmodule p'.target
            simp only [hr, hr']
            exact Renamed.start hengine hf hname ns (sameBinary_made hmade ha hplan
              (mem_remap_resolveAll hbound).2 hr hr' (hsmall a e₁ p r ha hbound hr)
              (hsmall' a e₁' p' r' ha' hbound' hr')) hplan a

theorem outcome?_begin (e : Engine) (art : Artifact) (name n : String) :
    (e.begin art name).outcome? n = if n = name then none else e.outcome? n := by
  unfold outcome? Engine.begin
  rw [Table.get?_insert]
  split <;> rfl

theorem outcome?_finish (e : Engine) (art : Artifact) (name n : String) (r : Result EntryPoint) :
    (e.finish art name r).outcome? n =
      if n = name then (Outcome.ofResult r).result? else e.outcome? n := by
  unfold outcome? Engine.finish
  rw [Table.get?_insert]
  split <;> rfl

/-- Loads that gave the same are recorded alike, or neither is. -/
theorem SameLoad.recorded {r r' : Result EntryPoint} (h : SameLoad f r r') :
    Option.Rel (SameLoad f) (Outcome.ofResult r).result? (Outcome.ofResult r').result? := by
  cases r with
  | ok entry =>
    cases r' with
    | ok entry' => exact .some h
    | error failure' => exact h.elim
  | error failure =>
    cases r' with
    | ok entry' => exact h.elim
    | error failure' =>
      have hcrash : failure.isCrash = failure'.isCrash :=
        Failure.SameSort.hasKind h .load .crash
      dsimp only [Outcome.ofResult]
      rw [hcrash]
      split
      · exact .none
      · exact .some h

theorem Renamed.begin (h : e.Renamed f e') (hf : Renaming f) (art : Artifact) (name : String) :
    (e.begin art name).Renamed f (e'.begin art (f name)) :=
  { h with
    outcomes := by
      intro n
      simp only [outcome?_begin, hf.injective.eq_iff]
      split
      · exact .none
      · exact h.outcomes n }

theorem Renamed.finish (h : e.Renamed f e') (hf : Renaming f) (art : Artifact) (name : String)
    {r r' : Result EntryPoint} (hr : SameLoad f r r') :
    (e.finish art name r).Renamed f (e'.finish art (f name) r') :=
  { h with
    outcomes := by
      intro n
      simp only [outcome?_finish, hf.injective.eq_iff]
      split
      · exact hr.recorded
      · exact h.outcomes n }

theorem refusal?_of_loadable (h : Loadable name) (e : Engine) (art : Artifact) :
    e.refusal? (some art) name =
      if e.closed then some (.invalidInput .load "engine is closed") else none := by
  have hname : (name = "" || name.toList.contains '#') = false := by
    simpa [Loadable] using h
  unfold refusal?
  simp only [hname, Option.isNone_some, Bool.false_eq_true, if_false]

/-- What the load of an artifact gives, and what it makes of the engine and the frame, has nothing to do
with the names of modules. -/
theorem Renamed.load (h : e.Renamed f e') (hf : Renaming f) (hname : Renames f name)
    (hmade : art.Made u fns maxDepth g) (hsmall : (e.begin art name).RewritesSmall art name)
    (hsmall' : (e'.begin art (f name)).RewritesSmall art (f name)) (ns : String) :
    SameLoaded f (e.load ns (some art) name) (e'.load ns (some art) (f name)) := by
  unfold Engine.load
  rw [refusal?_of_loadable hname.loadable, refusal?_of_loadable hname.renamed, h.closed]
  cases e.closed with
  | true => exact ⟨h, rfl, rfl⟩
  | false =>
    have hknown : ∀ (e : Engine) (n : String), e.known? n = (e.outcome? n).map fun r =>
        ({ e with metrics := e.metrics.bump "jitlink_engine_loads_total" [("result", "reused")] }, r) := by
      intro e n
      unfold known? outcome?
      simp only [bind, Option.map_bind]
      congr 1
      funext r
      simp only [Function.comp_apply]
      cases r.outcome.result? <;> rfl
    have houtcomes := h.outcomes name
    simp only [Bool.false_eq_true, if_false]
    rw [hknown, hknown]
    generalize e.outcome? name = left at houtcomes ⊢
    generalize e'.outcome? (f name) = right at houtcomes ⊢
    cases houtcomes with
    | some hr => exact ⟨{ h with }, rfl, hr⟩
    | none =>
      obtain ⟨hengine, hns, hresult⟩ := (h.begin hf art name).link hf hname hmade hsmall hsmall' ns
      exact ⟨Renamed.finish hengine hf art name hresult, hns, hresult⟩

end Engine

end WasmLisp
