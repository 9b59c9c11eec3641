import Mathlib
import WasmLisp.Engine
import WasmLisp.Proofs.Machine.Steps

/-!
# What loading does to the engine

* `Store.Grown`: nothing of a store was changed or taken out of reach apart from values of globals, so
  that what was exported still is;
* `Engine.Ran`: what running code and new instances can do to an engine. The tables in which linking
  finds providers are no part of it;
* `Engine.start_cases`: a binary whose imports are bound is discarded, or published;
* `Engine.link_cases`: what linking does, from the beginning to the end, and `Engine.load_cases`: a
  load is refused, answered by the record of its name, or links the artifact.
-/

namespace WasmLisp

/-- Insertions of one value at several keys. -/
theorem Table.get?_foldl_insert {α β : Type} (f : β → String) (v : α) (xs : List β) (t : Table α)
    (k : String) :
    (xs.foldl (fun t x => t.insert (f x) v) t).get? k =
      if k ∈ xs.map f then some v else t.get? k := by
  induction xs generalizing t with
  | nil => simp
  | cons x xs ih =>
    rw [List.foldl_cons, ih, get?_insert]
    by_cases hx : k = f x
    · subst hx
      simp
    · simp [hx]

namespace Machine

variable {η σ : Type}

/-! ## Stores that grow -/

namespace Store

variable {s t u : Store η}

/-- Every instance and every function is as it was, and every global has the type it had; there can
be more of them. -/
structure Grown (s t : Store η) : Prop where
  instances : ∀ (i : Nat) (inst : Instance),
    s.instances[i]? = some inst → t.instances[i]? = some inst
  funcs : ∀ (a : Nat) (f : Callee η), s.funcs[a]? = some f → t.funcs[a]? = some f
  types : ∀ (a : Nat) (type : Binary.GlobalType),
    (s.globals[a]?).map Cell.type = some type → (t.globals[a]?).map Cell.type = some type

theorem Grown.refl (s : Store η) : s.Grown s := ⟨fun _ _ h => h, fun _ _ h => h, fun _ _ h => h⟩

theorem Grown.trans (h : s.Grown t) (h' : t.Grown u) : s.Grown u :=
  ⟨fun i inst hi => h'.instances i inst (h.instances i inst hi),
    fun a f ha => h'.funcs a f (h.funcs a f ha), fun a type ha => h'.types a type (h.types a type ha)⟩

theorem Alike.grown (h : s.Alike t) : s.Grown t := by
  refine ⟨fun i inst hi => ?_, fun a f ha => ?_, fun a type ha => ?_⟩
  · rw [h.instances]
    exact hi
  · rw [h.funcs]
    exact ha
  · rw [← Array.getElem?_map, h.types, Array.getElem?_map]
    exact ha

/-- One instance more, and what comes with it. -/
theorem grown_push {inst : Instance} {fns : Array (Callee η)} {cells : Array Cell}
    (hi : t.instances = s.instances.push inst) (hf : t.funcs = s.funcs ++ fns)
    (hg : t.globals = s.globals ++ cells) : s.Grown t := by
  refine ⟨fun i inst' h => ?_, fun a f h => ?_, fun a type h => ?_⟩
  · have hlt : i < s.instances.size := (Array.getElem?_eq_some_iff.mp h).1
    rw [hi, Array.getElem?_push, if_neg (Nat.ne_of_lt hlt)]
    exact h
  · rw [hf, Array.getElem?_append_left (Array.getElem?_eq_some_iff.mp h).1]
    exact h
  · obtain ⟨cell, hcell, -⟩ := Option.map_eq_some_iff.mp h
    rw [hg, Array.getElem?_append_left (Array.getElem?_eq_some_iff.mp hcell).1]
    exact h

/-- The live instance of a name stays the same: it is the first of its name. -/
theorem Grown.find? (h : s.Grown t) {name : String} {i : Nat} (hi : s.find? name = some i) :
    t.find? name = some i := by
  unfold Store.find? at hi ⊢
  obtain ⟨hlt, hlive, hfirst⟩ := Array.findIdx?_eq_some_iff_getElem.mp hi
  have hsame : ∀ j (hj : j < s.instances.size), ∃ hj' : j < t.instances.size,
      t.instances[j] = s.instances[j] := by
    intro j hj
    exact Array.getElem?_eq_some_iff.mp (h.instances j _ (Array.getElem?_eq_getElem hj))
  obtain ⟨hlt', hinst⟩ := hsame i hlt
  refine Array.findIdx?_eq_some_iff_getElem.mpr ⟨hlt', by rw [hinst]; exact hlive, ?_⟩
  intro j hj
  obtain ⟨hj', heq⟩ := hsame j (by omega)
  rw [heq]
  exact hfirst j hj

/-- What is exported stays so. -/
theorem Grown.export? (h : s.Grown t) {module name : String} {e : Extern}
    (he : s.export? module name = some e) : t.export? module name = some e := by
  simp only [Store.export?, bind, Option.bind_eq_some_iff] at he ⊢
  obtain ⟨i, hi, inst, hinst, hname⟩ := he
  exact ⟨i, h.find? hi, inst, h.instances i inst hinst, hname⟩

theorem Grown.find?_isSome (h : s.Grown t) {name : String} (hs : (s.find? name).isSome) :
    (t.find? name).isSome := by
  obtain ⟨i, hi⟩ := Option.isSome_iff_exists.mp hs
  rw [h.find? hi]
  rfl

/-- A module that is live exports nothing more later. -/
theorem Grown.export?_eq (h : s.Grown t) {module : String} (hs : (s.find? module).isSome)
    (name : String) : t.export? module name = s.export? module name := by
  obtain ⟨i, hi⟩ := Option.isSome_iff_exists.mp hs
  have hlt : i < s.instances.size := (Array.findIdx?_eq_some_iff_getElem.mp hi).1
  have hinst : s.instances[i]? = some s.instances[i] := Array.getElem?_eq_getElem hlt
  simp only [Store.export?, bind, h.find? hi, hi, Option.bind_some, h.instances i _ hinst, hinst]

theorem grown_addHost (s : Store η) (name : String) (fns : List (String × η × Binary.FuncType)) :
    s.Grown (s.addHost name fns) := grown_push rfl rfl Array.append_empty.symm

theorem grown_addGlobals (s : Store η) (name : String) (data : List (String × Int64)) :
    s.Grown (s.addGlobals name data) := grown_push rfl Array.append_empty.symm rfl

theorem grown_instantiate? {m : Module} {name : String} (h : s.instantiate? m name = some t) :
    s.Grown t := by
  simp only [instantiate?, bind, pure, Option.bind_eq_some_iff] at h
  obtain ⟨linked, -, h⟩ := h
  cases h
  exact grown_push rfl rfl rfl

/-- To close instances that were added leaves the others. -/
theorem Grown.close (h : s.Grown t) {i : Nat} (hi : s.instances.size ≤ i) : s.Grown (t.close i) := by
  refine ⟨fun j inst hj => ?_, h.funcs, h.types⟩
  have hlt : j < s.instances.size := (Array.getElem?_eq_some_iff.mp hj).1
  rw [Store.close, Array.getElem?_modify, if_neg (by omega)]
  exact h.instances j inst hj

end Store

/-! ## Running code -/

theorem Config.run_alike (host : HostCall η σ) (fuel : Nat) (c : Config η σ) :
    c.store.Alike (c.run host fuel).store := by
  induction fuel generalizing c with
  | zero => exact .refl _
  | succ fuel ih =>
    rw [Config.run]
    cases hstep : c.step host with
    | next d => exact (continues_of_step hstep).alike.trans (ih d)
    | stop o => exact (final_of_step hstep).2

theorem invoke_alike (host : HostCall η σ) (store : Store η) (world : σ) (address : Nat)
    (args : List Int64) : store.Alike (invoke host store world address args).store := by
  unfold invoke invokeWithin
  split
  · exact .refl _
  · dsimp only
    split <;> exact .refl _
  · dsimp only
    exact Config.run_alike host enough { store, world, frame := _, limit := some maxDepth }

end Machine

/-- Whether what was asked for crashed. -/
def Engine.crashed {α : Type} : Result α → Bool
  | .ok _ => false
  | .error failure => failure.isCrash

namespace Outcome

theorem result?_ofResult {r : Result EntryPoint} (h : Engine.crashed r = false) :
    (ofResult r).result? = some r := by
  cases r with
  | ok entry => rfl
  | error failure =>
    have hno : failure.isCrash = false := h
    rw [ofResult, if_neg (by simp [hno])]
    rfl

theorem ofResult_eq_ok {r : Result EntryPoint} {entry : EntryPoint} :
    ofResult r = .ok entry ↔ r = .ok entry := by
  cases r with
  | ok entry' => simp [ofResult]
  | error failure =>
    dsimp only [ofResult]
    split <;> simp

theorem ofResult_eq_pending {r : Result EntryPoint} : ofResult r = .pending ↔ Engine.crashed r = true := by
  cases r with
  | ok entry => simp [ofResult, Engine.crashed]
  | error failure => simp [ofResult, Engine.crashed]

theorem result?_eq_none {o : Outcome} : o.result? = none ↔ o = .pending := by
  cases o <;> simp [result?]

end Outcome

namespace Engine

variable {e e₁ e₂ : Engine}

/-- What code that runs and instances that are made can change: the store grows, and the environment
and the surroundings are no longer what they were. -/
def Ran (e e' : Engine) : Prop :=
  ∃ store env around, e' = { e with store, env, around } ∧ e.store.Grown store

theorem Ran.refl (e : Engine) : e.Ran e := ⟨e.store, e.env, e.around, rfl, .refl _⟩

theorem Ran.trans (h : e.Ran e₁) (h' : e₁.Ran e₂) : e.Ran e₂ := by
  obtain ⟨store, env, around, rfl, hgrown⟩ := h
  obtain ⟨store', env', around', rfl, hgrown'⟩ := h'
  exact ⟨store', env', around', rfl, hgrown.trans hgrown'⟩

theorem Ran.store (h : e.Ran e₁) : e.store.Grown e₁.store := by
  obtain ⟨store, env, around, rfl, hgrown⟩ := h
  exact hgrown

theorem ran_invoke (e : Engine) (function : Nat) (args : List Int64) :
    e.Ran (e.invoke function args).1 := by
  unfold invoke
  dsimp only
  split
  · exact .refl e
  · have halike := Machine.invoke_alike HostFn.call e.store { env := e.env, around := e.around }
      function args
    split
    all_goals rename_i heq
    all_goals rw [heq] at halike
    all_goals exact ⟨_, _, _, rfl, halike.grown⟩

theorem ran_invokeForValue (e : Engine) (function : Nat) (args : List Int64) :
    e.Ran (e.invokeForValue function args).1 := by
  have hran := ran_invoke e function args
  unfold invokeForValue
  split
  all_goals rename_i heq
  all_goals rw [heq] at hran
  all_goals exact hran

theorem ran_bindVars (e : Engine) (module : String) (p : Plan) : e.Ran (e.bindVars module p) := by
  refine ⟨_, e.env, e.around, rfl, ?_⟩
  split <;> split
  · exact .refl _
  · exact Machine.Store.grown_addHost _ _ _
  · exact Machine.Store.grown_addHost _ _ _
  · exact (Machine.Store.grown_addHost _ _ _).trans (Machine.Store.grown_addHost _ _ _)

theorem ran_runStart (e : Engine) (m : Machine.Module) (name : String) :
    e.Ran (e.runStart m name).1 := by
  unfold runStart
  dsimp only
  refine List.foldlRecOn (motive := fun (s : Engine × Option Failure) => e.Ran s.1) _ _ (.refl e) ?_
  rintro ⟨e₁, failure⟩ hs function -
  cases failure with
  | some failure => exact hs
  | none =>
    have hran := hs.trans (ran_invoke e₁ function [])
    dsimp only
    split
    all_goals rename_i heq
    all_goals rw [heq] at hran
    all_goals exact hran

theorem ran_instantiate (e : Engine) (bin : List UInt8) (name : String) :
    e.Ran (e.instantiate bin name).1 := by
  unfold instantiate
  split
  · exact .refl e
  split
  · exact .refl e
  rename_i hinst
  split
  · exact .refl e
  · have hran : e.Ran { e with store := _ } :=
      ⟨_, e.env, e.around, rfl, Machine.Store.grown_instantiate? hinst⟩
    exact hran.trans (ran_runStart _ _ _)

theorem ran_initialise (e : Engine) (ns name entry : String) (effects : List Effect) :
    e.Ran (e.initialise ns name entry effects).1 := by
  unfold initialise
  split
  · exact .refl e
  · rename_i function _
    dsimp only
    have henter : e.Ran { e with env := e.env.ensure ns } := ⟨_, _, _, rfl, .refl _⟩
    have hran := henter.trans (ran_invoke { e with env := e.env.ensure ns } function [])
    split
    · rename_i heq
      rw [heq] at hran
      exact hran
    · rename_i e₁ _ heq
      rw [heq] at hran
      split
      all_goals exact hran.trans ⟨_, _, _, rfl, .refl _⟩

/-- To discard the instances made for a module leaves those that were there before. -/
theorem ran_discard (h : e.Ran e₁) : e.Ran (e₁.discard e.store.instances.size) := by
  obtain ⟨store, env, around, rfl, hgrown⟩ := h
  refine ⟨_, env, around, rfl, ?_⟩
  dsimp only
  have hadded : ∀ i ∈ (List.range store.instances.size).drop e.store.instances.size,
      e.store.instances.size ≤ i := by
    intro i hi
    obtain ⟨j, hj, rfl⟩ := List.mem_iff_getElem.mp hi
    simp
  generalize (List.range store.instances.size).drop e.store.instances.size = added at hadded
  induction added generalizing store with
  | nil => exact hgrown
  | cons i added ih =>
    rw [List.foldl_cons]
    apply ih
    · exact hgrown.close (hadded i List.mem_cons_self)
    · exact fun j hj => hadded j (List.mem_cons_of_mem i hj)

/-- What a binary whose imports are bound does to an engine: it fails and is discarded, or its
definitions are published. That can end in a crash. -/
theorem start_cases (e : Engine) (ns name : String) (bin : List UInt8) (p : Plan) (a : Prepared) :
    ((e.start ns name bin p a).2.2.isOk = false ∧ e.Ran (e.start ns name bin p a).1) ∨
    (((e.start ns name bin p a).2.2.isOk = true ∨ crashed (e.start ns name bin p a).2.2 = true) ∧
      ∃ e₁, e.Ran e₁ ∧
        (e.start ns name bin p a).1 = e₁.publish name a.manifest.functions a.info.exportedGlobals) := by
  unfold start
  dsimp only
  split
  · exact .inl ⟨rfl, .refl e⟩
  have hmade := (ran_bindVars e name p).trans (ran_instantiate (e.bindVars name p) bin name)
  split
  · rename_i heq
    rw [heq] at hmade
    exact .inl ⟨rfl, ran_discard hmade⟩
  · rename_i e₁ heq
    rw [heq] at hmade
    have hran := hmade.trans (ran_initialise e₁ ns name a.entry a.manifest.effects)
    split
    · rename_i heq'
      rw [heq'] at hran
      exact .inl ⟨rfl, ran_discard hran⟩
    · rename_i values heq'
      rw [heq'] at hran
      refine .inr ⟨?_, _, hran, rfl⟩
      cases values with
      | nil => exact .inr rfl
      | cons v values => exact .inl rfl

/-! ## Binding imports -/

/-- What the search for providers can change: symbols are registered, and get instances. -/
def Searched (e e' : Engine) : Prop :=
  ∃ registry store symbols materialized generation metrics,
    e' = { e with registry, store, symbols, materialized, generation, metrics } ∧
      e.store.Grown store

theorem Searched.refl (e : Engine) : e.Searched e := ⟨_, _, _, _, _, _, rfl, .refl _⟩

theorem Searched.trans (h : e.Searched e₁) (h' : e₁.Searched e₂) : e.Searched e₂ := by
  obtain ⟨_, _, _, _, _, _, rfl, hgrown⟩ := h
  obtain ⟨_, _, _, _, _, _, rfl, hgrown'⟩ := h'
  exact ⟨_, _, _, _, _, _, rfl, hgrown.trans hgrown'⟩

theorem searched_materialize (e : Engine) : e.Searched e.materialize := by
  unfold materialize
  split
  · exact .refl e
  · refine ⟨_, _, _, _, _, _, rfl, ?_⟩
    split <;> split
    · exact .refl _
    · exact Machine.Store.grown_addHost _ _ _
    · exact Machine.Store.grown_addGlobals _ _ _
    · exact (Machine.Store.grown_addHost _ _ _).trans (Machine.Store.grown_addGlobals _ _ _)

/-- Where an import leads to: nothing is changed, or a symbol of the catalog is registered and gets
its instance. -/
theorem resolveImport_cases (e : Engine) (module : String) (info : Binary.Info) (i : Binary.Import)
    (p : Plan) :
    (e.resolveImport module info i p).1 = e ∨
    ∃ c symbol lib record registry, e.catalog = some c ∧ c.lookup? i.name = some (symbol, lib) ∧
      e.registry.register symbol (Registry.libraryOrigin lib) = .ok (record, registry) ∧
      (e.resolveImport module info i p).1 = { e with registry }.materialize := by
  unfold resolveImport
  split
  · unfold resolveEnv
    split
    · exact .inl rfl
    · rename_i w _
      split
      · exact .inl rfl
      · cases hcatalog : e.fromCatalog module i w p with
        | none => exact .inl rfl
        | some found =>
          simp only [fromCatalog, bind, Option.bind_eq_some_iff] at hcatalog
          obtain ⟨c, hc, ⟨symbol, lib⟩, hlookup, hcatalog⟩ := hcatalog
          split at hcatalog
          · cases hcatalog
            exact .inl rfl
          · rename_i record registry hregister
            obtain ⟨r, -, rfl⟩ := Option.map_eq_some_iff.mp hcatalog
            exact .inr ⟨c, symbol, lib, record, registry, hc, hlookup, hregister, rfl⟩
  · split
    · exact .inl rfl
    split
    · exact .inl rfl
    · exact .inl rfl

theorem searched_resolveImport (e : Engine) (module : String) (info : Binary.Info)
    (i : Binary.Import) (p : Plan) : e.Searched (e.resolveImport module info i p).1 := by
  obtain heq | ⟨_, _, _, _, registry, -, -, -, heq⟩ := resolveImport_cases e module info i p
  · rw [heq]
    exact .refl e
  · rw [heq]
    have hregistered : e.Searched { e with registry } := ⟨_, _, _, _, _, _, rfl, .refl _⟩
    exact hregistered.trans (searched_materialize _)

/-- What holds of an engine and is kept by the search for one provider is kept by the whole search. -/
theorem resolveAll_induction {motive : Engine → Prop} {module : String} {info : Binary.Info}
    (hstep : ∀ e i p, motive e → motive (e.resolveImport module info i p).1)
    (imports : List Binary.Import) (p : Plan) (he : motive e) :
    motive (e.resolveAll module info p imports).1 := by
  induction imports generalizing e p with
  | nil => exact he
  | cons i imports ih =>
    have hnext := hstep e i p he
    unfold resolveAll
    split
    all_goals rename_i heq
    all_goals rw [heq] at hnext
    · exact hnext
    · exact ih _ hnext

theorem searched_resolveAll (e : Engine) (module : String) (info : Binary.Info) (p : Plan)
    (imports : List Binary.Import) : e.Searched (e.resolveAll module info p imports).1 :=
  resolveAll_induction (motive := e.Searched)
    (fun e₁ i p h => h.trans (searched_resolveImport e₁ module info i p)) imports p (.refl e)

/-! ## Publishing -/

/-- A function that is found after publishing is one of the module, with an arity that is declared for
it, or was there before. -/
theorem funcs_publish (e : Engine) (name : String) (functions : List (String × Int))
    (globals : List String) (q : String) :
    (∃ arity, (q, arity) ∈ functions ∧
      (e.publish name functions globals).funcs.get? q = some { module := name, arity }) ∨
    q ∉ functions.map (·.1) ∧ (e.publish name functions globals).funcs.get? q = e.funcs.get? q := by
  change (∃ arity, _ ∧ (functions.foldl (fun t f => t.insert f.1 { module := name, arity := f.2 })
    e.funcs).get? q = _) ∨ _ ∧ (functions.foldl (fun t f => t.insert f.1
      { module := name, arity := f.2 }) e.funcs).get? q = _
  generalize e.funcs = t
  induction functions generalizing t with
  | nil => exact .inr ⟨List.not_mem_nil, rfl⟩
  | cons f functions ih =>
    obtain ⟨arity, hmem, hget⟩ | ⟨hnone, hget⟩ := ih (t.insert f.1 { module := name, arity := f.2 })
    · exact .inl ⟨arity, List.mem_cons_of_mem f hmem, hget⟩
    · rw [Table.get?_insert] at hget
      by_cases hq : q = f.1
      · rw [if_pos hq] at hget
        exact .inl ⟨f.2, hq ▸ List.mem_cons_self, hget⟩
      · rw [if_neg hq] at hget
        exact .inr ⟨by simp [hq, hnone], hget⟩

theorem globals_publish (e : Engine) (name : String) (functions : List (String × Int))
    (globals : List String) (x : String) :
    (e.publish name functions globals).globals.get? x =
      if x ∈ globals then some name else e.globals.get? x := by
  have hfold := Table.get?_foldl_insert (fun g : String => g) name globals e.globals x
  rwa [List.map_id'] at hfold

/-! ## Linking -/

/-- What is bound of an artifact before it starts. -/
def bound (e : Engine) (name : String) (a : Prepared) : Engine × Result Plan :=
  e.materialize.resolveAll name a.info {} a.info.imports

theorem searched_bound (e : Engine) (name : String) (a : Prepared) :
    e.Searched (e.bound name a).1 :=
  (searched_materialize e).trans (searched_resolveAll _ _ _ _ _)

/-- What linking does: it fails before or after the search for providers, and whatever was run is
discarded; or all imports are bound and the definitions are published, which can end in a crash. -/
theorem link_cases (e : Engine) (ns : String) (art : Artifact) (name : String) :
    ((e.link ns art name).2.2.isOk = false ∧ ∃ e₁, e₁.Ran (e.link ns art name).1 ∧
      (e₁ = e ∨ ∃ a, e.prepare art name = .ok a ∧ e₁ = (e.bound name a).1)) ∨
    (((e.link ns art name).2.2.isOk = true ∨ crashed (e.link ns art name).2.2 = true) ∧
      ∃ a p e₁ e₂, e.prepare art name = .ok a ∧
      e.bound name a = (e₁, .ok p) ∧ e₁.Ran e₂ ∧
      (e.link ns art name).1 = e₂.publish name a.manifest.functions a.info.exportedGlobals) := by
  unfold link
  cases hprepare : e.prepare art name with
  | error failure => exact .inl ⟨rfl, e, .refl e, .inl rfl⟩
  | ok a =>
    dsimp only
    cases hbound : e.bound name a with
    | mk e₁ r =>
      have hfst : e₁ = (e.bound name a).1 := by rw [hbound]
      rw [show e.materialize.resolveAll name a.info {} a.info.imports = (e₁, r) from hbound]
      cases r with
      | error failure => exact .inl ⟨rfl, e₁, .refl e₁, .inr ⟨a, rfl, hfst⟩⟩
      | ok p =>
        dsimp only
        split
        · exact .inl ⟨rfl, e₁, .refl e₁, .inr ⟨a, rfl, hfst⟩⟩
        · rename_i redirected _
          obtain ⟨hfailed, hran⟩ | ⟨hok, e₂, hran, hpublish⟩ :=
            start_cases e₁ ns name redirected.bytes p a
          · exact .inl ⟨hfailed, e₁, hran, .inr ⟨a, rfl, hfst⟩⟩
          · exact .inr ⟨hok, a, p, e₁, e₂, rfl, hbound, hran, hpublish⟩

/-- The tables that are written when a load begins and when it ends are the same. -/
structure SameTables (e e' : Engine) : Prop where
  modules : e'.modules = e.modules
  funcs : e'.funcs = e.funcs
  globals : e'.globals = e.globals
  closed : e'.closed = e.closed

theorem SameTables.refl (e : Engine) : e.SameTables e := ⟨rfl, rfl, rfl, rfl⟩

theorem SameTables.trans (h : e.SameTables e₁) (h' : e₁.SameTables e₂) : e.SameTables e₂ :=
  ⟨h'.modules.trans h.modules, h'.funcs.trans h.funcs, h'.globals.trans h.globals,
    h'.closed.trans h.closed⟩

theorem Ran.tables (h : e.Ran e₁) : e.SameTables e₁ := by
  obtain ⟨_, _, _, rfl, -⟩ := h
  exact ⟨rfl, rfl, rfl, rfl⟩

theorem Searched.tables (h : e.Searched e₁) : e.SameTables e₁ := by
  obtain ⟨_, _, _, _, _, _, rfl, -⟩ := h
  exact ⟨rfl, rfl, rfl, rfl⟩

/-- Linking leaves the tables, or publishes the definitions of the artifact under its name. -/
theorem link_tables (e : Engine) (ns : String) (art : Artifact) (name : String) :
    ((e.link ns art name).2.2.isOk = false ∧ e.SameTables (e.link ns art name).1) ∨
    (((e.link ns art name).2.2.isOk = true ∨ crashed (e.link ns art name).2.2 = true) ∧
      ∃ e₁ functions globals, e.SameTables e₁ ∧
        (e.link ns art name).1 = e₁.publish name functions globals) := by
  obtain ⟨hfailed, e₁, hran, rfl | ⟨a, -, rfl⟩⟩ |
    ⟨hok, a, p, e₁, e₂, -, hbound, hran, hpublish⟩ := link_cases e ns art name
  · exact .inl ⟨hfailed, hran.tables⟩
  · exact .inl ⟨hfailed, (searched_bound e name a).tables.trans hran.tables⟩
  · have hsearched := searched_bound e name a
    rw [hbound] at hsearched
    exact .inr ⟨hok, e₂, _, _, hsearched.tables.trans hran.tables, hpublish⟩

/-- Linking by itself records no outcome. -/
theorem link_recorded (e : Engine) (ns : String) (art : Artifact) (name : String) :
    (e.link ns art name).1.modules = e.modules ∧ (e.link ns art name).1.closed = e.closed := by
  obtain ⟨-, htables⟩ | ⟨-, e₁, functions, globals, htables, hpublish⟩ := link_tables e ns art name
  · exact ⟨htables.modules, htables.closed⟩
  · rw [hpublish]
    exact ⟨htables.modules, htables.closed⟩

/-! ## Loading -/

/-- What a load does: it is refused, it is answered by the record of its name, or the artifact is
linked. -/
theorem load_cases (e : Engine) (ns : String) (art : Artifact) (name : String) :
    (∃ failure, e.refusal? (some art) name = some failure ∧
      e.load ns (some art) name = (e, ns, .error failure)) ∨
    (e.refusal? (some art) name = none ∧ ∃ record result metrics,
      e.modules.get? name = some record ∧ record.outcome.result? = some result ∧
      e.load ns (some art) name = ({ e with metrics }, ns, result)) ∨
    (e.refusal? (some art) name = none ∧
      (∀ record, e.modules.get? name = some record → record.outcome = .pending) ∧
      e.load ns (some art) name = e.loadNew ns art name) := by
  unfold load
  cases hrefusal : e.refusal? (some art) name with
  | some failure => exact .inl ⟨failure, rfl, rfl⟩
  | none =>
    dsimp only
    cases hget : e.modules.get? name with
    | none =>
      refine .inr (.inr ⟨rfl, by simp, ?_⟩)
      simp [known?, hget]
    | some record =>
      cases hresult : record.outcome.result? with
      | none =>
        refine .inr (.inr ⟨rfl, ?_, ?_⟩)
        · rintro record' ⟨⟩
          exact Outcome.result?_eq_none.mp hresult
        · simp [known?, hget, hresult]
      | some result =>
        let metrics := e.metrics.bump "jitlink_engine_loads_total" [("result", "reused")]
        refine .inr (.inl ⟨rfl, record, result, metrics, rfl, hresult, ?_⟩)
        simp only [known?, hget, hresult, bind, Option.bind_some, pure, metrics]

end Engine

end WasmLisp
