import Mathlib
import WasmLisp.Proofs.Codegen.Binders
import WasmLisp.Proofs.Engine.Typed

/-!
# What loading interns

Loading first runs the code of a unit, which binds vars, then carries out the effects, and then interns
the functions. In the end the directory is what the effects and the definitions of the unit make of it.

* `Engine.Binds`: the binders in the store bind vars of a set, and `Env.Over`: the vars of an
  environment are those of a directory and some of the set. Code that runs keeps both;
* `Engine.Linkage.bound`: every var that the unit defines at the top has been bound when its entry
  returns, since generated code calls the binders on its way and does not jump;
* `Engine.load_directory`: what the directory is after a load.
-/

namespace WasmLisp

open Machine (Store Config)
open Node (definitions)

variable {A B : Set (String × String)} {D : Directory}

/-- The environment has vars of a set on top of a directory. -/
def Env.Over (env : Env) (D : Directory) (A : Set (String × String)) : Prop :=
  ∃ V ⊆ A, env.directory = D.declare V

/-! ## Host functions -/

namespace HostFn

/-- The vars that a host function binds. -/
def binds : HostFn → Set (String × String)
  | .foreign _ => ∅
  | .readVar _ => ∅
  | .bindVar q => {partsOf q}

/-- A host function declares the vars that it binds. -/
theorem directory_call (f : HostFn) (args : List Int64) (w : World) :
    (call f args w).1.env.directory = w.env.directory.declare f.binds := by
  cases f with
  | foreign s =>
    rw [binds, Directory.declare_empty, call]
    split <;> rfl
  | readVar q => rw [binds, Directory.declare_empty, call]
  | bindVar q =>
    rw [binds, call, bindVarIn]
    exact Env.directory_intern _ _ _ _ _

theorem over_call {f : HostFn} (hf : f.binds ⊆ A) (args : List Int64) {w : World}
    (hw : w.env.Over D A) : (call f args w).1.env.Over D A := by
  obtain ⟨V, hV, hdirectory⟩ := hw
  exact ⟨V ∪ f.binds, Set.union_subset hV hf, by
    rw [directory_call, hdirectory, Directory.declare_declare]⟩

end HostFn

namespace Engine

variable {e e₁ e₂ e₃ : Engine} {name ns : String}

/-- The binders in the store bind vars of a set. -/
def Binds (e : Engine) (A : Set (String × String)) : Prop := e.store.Hosts fun f => f.binds ⊆ A

theorem Binds.mono (h : e.Binds A) (hAB : A ⊆ B) : e.Binds B :=
  Store.Hosts.mono h fun _ hf => hf.trans hAB

/-! ## Running code -/

/-- A function is not called for want of arguments, or the store and the world are what the call leaves
of them. -/
theorem invoke_cases {e : Engine} {function : Nat} {args : List Int64}
    {o : Machine.Outcome HostFn World}
    (ho : Machine.invoke HostFn.call e.store { env := e.env, around := e.around } function args = o) :
    (∃ failure, e.invoke function args = (e, .failed failure)) ∨
      (e.invoke function args).1 =
        { e with store := o.store, env := o.world.env, around := o.world.around } ∧
      ∀ vs, (e.invoke function args).2 = .values vs → ∃ s w, o = .done vs s w := by
  unfold invoke
  dsimp only
  split
  · exact .inl ⟨_, rfl⟩
  right
  rw [ho]
  cases o with
  | done vs s w => exact ⟨rfl, fun vs' hvs => by cases hvs; exact ⟨s, w, rfl⟩⟩
  | trap cause active s w => exact ⟨rfl, fun vs hvs => by cases hvs⟩
  | outOfFuel s w => exact ⟨rfl, fun vs hvs => by cases hvs⟩

theorem Binds.invoke (h : e.Binds A) (he : e.env.Over D A) (function : Nat) (args : List Int64) :
    (e.invoke function args).1.Binds A ∧ (e.invoke function args).1.env.Over D A := by
  have hcases := invoke_cases
    (rfl : Machine.invoke HostFn.call e.store { env := e.env, around := e.around } function args = _)
  obtain ⟨failure, heq⟩ | ⟨heq, -⟩ := hcases
  · rw [heq]
    exact ⟨h, he⟩
  · rw [heq]
    have halike := Machine.invoke_alike HostFn.call e.store { env := e.env, around := e.around }
      function args
    have hkeeps : e.store.Keeps HostFn.call fun w => w.env.Over D A :=
      Store.Hosts.mono h fun f hf args w hw => HostFn.over_call hf args hw
    exact ⟨Store.Hosts.of_funcs h halike.funcs, Machine.world_invokeWithin hkeeps he _ _ _ _⟩

theorem Binds.runStart (h : e.Binds A) (he : e.env.Over D A) (m : Machine.Module) (name : String) :
    (e.runStart m name).1.Binds A ∧ (e.runStart m name).1.env.Over D A := by
  unfold Engine.runStart
  dsimp only
  refine List.foldlRecOn (motive := fun (s : Engine × Option Failure) =>
    s.1.Binds A ∧ s.1.env.Over D A) _ _ ⟨h, he⟩ ?_
  rintro ⟨e₁, failure⟩ hs function -
  cases failure with
  | some failure => exact hs
  | none =>
    have hnext := hs.1.invoke hs.2 function []
    dsimp only
    split
    all_goals rename_i heq
    all_goals rw [heq] at hnext
    all_goals exact hnext

/-! ## Host functions of new instances -/

theorem Binds.materialize (h : e.Binds A) : e.materialize.Binds A := by
  unfold Engine.materialize
  split
  · exact h
  · -- registered symbols bind no vars
    have hforeign : ∀ (recs : List Registry.Record),
        ∀ f ∈ recs.map fun r => (r.symbol.name, HostFn.foreign r.symbol,
          ({ params := i64s r.symbol.arity.toNat, results := i64s 1 } : Binary.FuncType)),
          f.2.1.binds ⊆ A := by
      intro recs f hf
      obtain ⟨r, -, rfl⟩ := List.mem_map.mp hf
      exact Set.empty_subset A
    unfold Binds
    dsimp only
    split <;> split
    · exact h
    · exact Store.Hosts.addHost h _ (hforeign _)
    · exact Store.Hosts.addGlobals h _ _
    · exact Store.Hosts.addGlobals (Store.Hosts.addHost h _ (hforeign _)) _ _

theorem Binds.bound (h : e.Binds A) (name : String) (a : Prepared) : (e.bound name a).1.Binds A := by
  refine resolveAll_induction (motive := fun e => e.Binds A) (fun e₁ i p he => ?_) _ _ h.materialize
  obtain heq | ⟨_, _, _, _, registry, -, -, -, heq⟩ := resolveImport_cases e₁ name a.info i p
  · rw [heq]
    exact he
  · rw [heq]
    exact Binds.materialize (e := { e₁ with registry }) he

/-- The binders that are made for an artifact. -/
theorem Binds.bindVars (h : e.Binds A) (name : String) {p : Plan}
    (hdefs : ∀ q ∈ p.defs, HostFn.partsOf q ∈ A) : (e.bindVars name p).Binds A := by
  have hreads : ∀ f ∈ p.reads.map fun q => (q, HostFn.readVar q,
      ({ params := [], results := i64s 1 } : Binary.FuncType)), f.2.1.binds ⊆ A := by
    intro f hf
    obtain ⟨q, -, rfl⟩ := List.mem_map.mp hf
    exact Set.empty_subset A
  have hbinders : ∀ f ∈ p.defs.map fun q => (q, HostFn.bindVar q,
      ({ params := i64s 1, results := [] } : Binary.FuncType)), f.2.1.binds ⊆ A := by
    intro f hf
    obtain ⟨q, hq, rfl⟩ := List.mem_map.mp hf
    exact Set.singleton_subset_iff.mpr (hdefs q hq)
  unfold Binds Engine.bindVars
  dsimp only
  split <;> split
  · exact h
  · exact Store.Hosts.addHost h _ hreads
  · exact Store.Hosts.addHost h _ hbinders
  · exact Store.Hosts.addHost (Store.Hosts.addHost h _ hreads) _ hbinders

theorem env_bound (e : Engine) (name : String) (a : Prepared) : (e.bound name a).1.env = e.env := by
  obtain ⟨_, _, _, _, _, _, heq, -⟩ := searched_bound e name a
  rw [heq]

/-- Imports from the module of binders are bound to the binders made for the artifact. -/
theorem bound_binders {a : Prepared} {plan : Plan} (h : e.bound name a = (e₁, .ok plan)) :
    plan.defs = namesFrom Artifact.varDefModule a.info.imports ∧
      ∀ q ∈ plan.defs, plan.target Artifact.varDefModule q = name ++ "#var.def" := by
  obtain ⟨choices, hall, hremap, -, hdefs⟩ :=
    resolveAll_eq_ok (motive := fun _ => True)
      (P := fun _ i m => i.module = Artifact.varDefModule → m = name ++ "#var.def")
      (fun _ _ _ _ => trivial) (fun _ i m _ hm => hm.of_varDef) (fun _ _ _ _ _ _ hm => hm) trivial h
  refine ⟨hdefs, fun q hq => ?_⟩
  rw [hdefs] at hq
  obtain ⟨i, hi, rfl⟩ := List.mem_map.mp hq
  obtain ⟨hi, hmodule⟩ := List.mem_filter.mp hi
  have hmodule : i.module = Artifact.varDefModule := by simpa using hmodule
  obtain ⟨j, -, hkey, hj⟩ := Plan.target_of_choices hall (hremap.trans (List.append_nil _)) hi
  rw [← hmodule]
  exact hj ((congrArg Prod.fst hkey).trans hmodule)

/-! ## Publishing -/

/-- The vars of functions that a module publishes. -/
def published (functions : List (String × Int)) : Set (String × String) :=
  {q | ∃ f ∈ functions, Symbol.cut? f.1 = some q}

theorem directory_publish (e : Engine) (name : String) (functions : List (String × Int))
    (globals : List String) :
    (e.publish name functions globals).env.directory =
      e.env.directory.declare (published functions) := by
  unfold Engine.publish
  dsimp only
  generalize e.env = env
  induction functions generalizing env with
  | nil => simp [published]
  | cons f functions ih =>
    rw [List.foldl_cons, ih]
    have hcons : published (f :: functions) = {q | Symbol.cut? f.1 = some q} ∪ published functions := by
      ext q
      simp [published]
    rw [hcons, ← Directory.declare_declare]
    congr 1
    split
    · rename_i ns sym hcut
      rw [Env.directory_intern, hcut]
      congr 1
      ext q
      simp [eq_comm]
    · rename_i hcut
      rw [hcut]
      simp

/-! ## Loading -/

section Load

variable {art : Artifact} {u : CompUnit} {fns : List Defn} {maxDepth : Int} {g : Codegen.Generated}
  {p : Codegen.Program} {new : List Codegen.Reached} {a : Prepared} {plan : Plan} {bin : List UInt8}
  {s : Store HostFn} {inst : Machine.Instance} {function : Nat} {values : List Int64} {frame : Frame}

/-- The binders that an artifact imports are those of the vars that its unit defines. -/
theorem mem_defs (hfns : ∀ d ∈ fns, Node.Orderly [d.node])
    (hp : p.Built u fns (Codegen.effectiveDepth maxDepth) new)
    (hstands : List.Forall₂ (Codegen.Stands a.info.types) p.layout.imports a.info.imports)
    (hdefs : plan.defs = namesFrom Artifact.varDefModule a.info.imports) {q : String} :
    q ∈ plan.defs → ∃ v ∈ definitions u.forms, q = Symbol.qualify v.1 v.2 := by
  intro hq
  rw [hdefs, mem_namesFrom hstands (by decide)] at hq
  obtain ⟨params, results, hw⟩ := hq
  exact hp.layout.mem_definitions hfns hw

theorem invoke_eq_values {e' : Engine} {args : List Int64}
    (h : e.invoke function args = (e', .values values)) :
    ∃ t w, Machine.invoke HostFn.call e.store { env := e.env, around := e.around } function args =
        .done values t w ∧ e' = { e with store := t, env := w.env, around := w.around } := by
  obtain ⟨failure, heq⟩ | ⟨heq, hdone⟩ := invoke_cases
    (rfl : Machine.invoke HostFn.call e.store { env := e.env, around := e.around } function args = _)
  · cases h.symm.trans heq
  · rw [h] at heq hdone
    obtain ⟨t, w, hout⟩ := hdone _ rfl
    refine ⟨t, w, hout, ?_⟩
    rw [hout] at heq
    exact heq

/-- The entry that is called is that of the program. -/
theorem Linkage.entry_callee
    (h : e.Linkage ns name art p a plan bin e₁ e₂ e₃ s inst function values frame)
    (hp : p.Built u fns (Codegen.effectiveDepth maxDepth) new)
    (hsize : p.toModule.encode.length < 0x100000000) (hentry : a.entry = u.entrySymbol) :
    s.Grown e₂.store ∧ ∃ k, e₂.store.funcs[function]? =
      some (.code (e₁.bindVars name plan).store.instances.size k (.ofCounts p.entry.params 1)
        p.entry.locals p.entry.body) := by
  have hgrown := (ran_runStart { e₁.bindVars name plan with store := s }
    (p.machine.redirect plan.target) name).store
  rw [h.started.began] at hgrown
  have hexport := hgrown.export? ((h.found _).trans
    (h.placed.lookup_entry hp hsize h.exports))
  have hcalled := h.started.entry
  rw [hentry, ← hp.name, exportedFunction?, hexport] at hcalled
  cases hcalled
  have hcode : p.codes[p.functions.length]? = some p.entry := by simp [Codegen.Program.codes]
  obtain ⟨-, k, hcallee⟩ := h.placed.funcs _ _ hcode
  exact ⟨hgrown, k, hgrown.funcs _ _ hcallee⟩

/-- The host function that binds a var of the unit is where the code calls it. -/
theorem Linkage.binder (h : e.Linkage ns name art p a plan bin e₁ e₂ e₃ s inst function values frame)
    (hp : p.Built u fns (Codegen.effectiveDepth maxDepth) new)
    (hstands : List.Forall₂ (Codegen.Stands a.info.types) p.layout.imports a.info.imports)
    (hfree : ∀ x, Reserved name x → e₁.store.Free x) {q : String}
    (hq : .func Artifact.varDefModule q 1 0 ∈ p.layout.imports) :
    ∃ b label t, inst.funcs[p.layout.importIndex Artifact.varDefModule q]? = some b ∧
      (e₁.bindVars name plan).store.funcs[b]? = some (.host (.bindVar q) label t) := by
  obtain ⟨hdefs, htarget⟩ := bound_binders h.bound
  have hin : q ∈ plan.defs := by
    rw [hdefs, mem_namesFrom hstands (by decide)]
    exact ⟨1, 0, hq⟩
  have hnodup : plan.defs.Nodup := hdefs ▸ nodup_namesFrom hp.layout.tidy hstands (by decide)
  obtain ⟨b, callee, hexport, hindex, -, -⟩ := h.placed.imports _ _ _ _ hq
  obtain ⟨b', label, hexport', hcallee⟩ := export?_binder hfree hnodup hin
  rw [htarget q hin] at hexport
  cases hexport.symm.trans hexport'
  exact ⟨b, label, _, hindex, hcallee⟩

/-- Every var that the unit defines at the top has been bound when the entry returns. -/
theorem Linkage.binds (h : e.Linkage ns name art p a plan bin e₁ e₂ e₃ s inst function values frame)
    (hp : p.Built u fns (Codegen.effectiveDepth maxDepth) new)
    (hsize : p.toModule.encode.length < 0x100000000) (hentry : a.entry = u.entrySymbol)
    (hstands : List.Forall₂ (Codegen.Stands a.info.types) p.layout.imports a.info.imports)
    (hfree : ∀ x, Reserved name x → e₁.store.Free x) (horder : Node.Orderly u.forms)
    {ns' x : String} {init : Node} (hslash : '/' ∉ ns'.toList) (hx : .bindVar ns' x init ∈ u.nodes) :
    (ns', x) ∈ e₃.env.directory.vars := by
  obtain ⟨hgrown, k, hcallee⟩ := h.entry_callee hp hsize hentry
  have hplaces : .bindVar ns' x init ∈ Codegen.reachedNodes u new := by
    rw [Codegen.reachedNodes, Node.flattenAll_append]
    exact List.mem_append_left _ hx
  obtain ⟨b, label, t, hindex, hbinder⟩ :=
    h.binder hp hstands hfree (hp.layout.places _ hplaces)
  have hinst : s.instances[(e₁.bindVars name plan).store.instances.size]? = some inst := by
    rw [h.placed.instances, Array.getElem?_push_size]
  obtain ⟨hcode, -⟩ := Codegen.entryCode_eq_ok hp.entry
  obtain ⟨t', w, hrun, rfl⟩ := invoke_eq_values h.started.ran
  unfold Machine.invoke Machine.invokeWithin at hrun
  rw [hcallee] at hrun
  let Q : World → Prop := fun w => (ns', x) ∈ w.env.directory.vars
  have hkeeps : e₂.store.Keeps HostFn.call Q := by
    intro _ handle _ _ _ args w hw
    show _ ∈ (HostFn.call handle args w).1.env.directory.vars
    rw [HostFn.directory_call]
    exact .inl hw
  have hparts : HostFn.partsOf (Symbol.qualify ns' x) = (ns', x) := by
    rw [HostFn.partsOf, Symbol.cut?_qualify hslash, Option.getD_some]
  refine (?_ : Config.Due HostFn.call Q (p.layout.importIndex Artifact.varDefModule
    (Symbol.qualify ns' x)) (.bindVar (Symbol.qualify ns' x)) _).run hrun
  refine ⟨⟨Codegen.sequence_straight hcode, fun _ hl => absurd hl List.not_mem_nil⟩,
    ⟨inst, b, label, t, hgrown.instances _ _ hinst, hindex, ?_⟩, hkeeps, fun args w => ?_, .inr ?_⟩
  · exact hgrown.funcs _ _ ((Machine.Store.grown_instantiate? h.started.made).funcs _ _ hbinder)
  · show _ ∈ (HostFn.call _ args w).1.env.directory.vars
    rw [HostFn.directory_call, HostFn.binds, hparts]
    exact .inr rfl
  · exact Codegen.sequence_binds hcode (horder _ hx (Option.some_ne_none (ns', x)))

/-- The functions that a module publishes are those that its unit defines. -/
theorem published_eq (hp : p.Built u fns (Codegen.effectiveDepth maxDepth) new)
    (hslash : ∀ v ∈ definitions u.forms, '/' ∉ v.1.toList) :
    published (Codegen.manifestOf u p.layout).functions =
      {v | ∃ params body, .defn v.1 v.2 params body ∈ u.nodes} := by
  have hdefined : ∀ f ∈ u.nodes.filterMap Codegen.definition?,
      Symbol.cut? f.defn.qualified = some (f.defn.ns, f.defn.name) := by
    intro f hf
    exact Symbol.cut?_qualify (hslash _ ⟨_, (Codegen.definition?_exported hf).2, rfl⟩) _
  ext v
  constructor
  · rintro ⟨⟨q, arity⟩, hmem, hcut⟩
    obtain ⟨i, f, -, -, hf, rfl, -⟩ := mem_functions hp hmem
    cases (hdefined f hf).symm.trans hcut
    exact ⟨_, _, (Codegen.definition?_exported hf).2⟩
  · rintro ⟨params, body, hn⟩
    have hf : { defn := ⟨v.1, v.2, params, body⟩, exported := true } ∈
        u.nodes.filterMap Codegen.definition? := List.mem_filterMap.mpr ⟨_, hn, rfl⟩
    have hfuncs : { defn := ⟨v.1, v.2, params, body⟩, exported := true } ∈ p.layout.funcs := by
      rw [hp.layout.funcs]
      exact List.mem_append_left _ hf
    exact ⟨_, List.mem_map.mpr ⟨_, List.mem_filter.mpr ⟨hfuncs, rfl⟩, rfl⟩, hdefined _ hf⟩

/-- What a linked artifact makes of the directory: what the effects and the definitions of its unit
make of it. The binders that it brings are of vars that there are. -/
theorem Linkage.directory (h : e.Linkage ns name art p a plan bin e₁ e₂ e₃ s inst function values frame)
    (hmade : art.Made u fns maxDepth g) (hp : p.Built u fns (Codegen.effectiveDepth maxDepth) new)
    (hmodule : g.module = p.withManifest g.manifest)
    (hmanifest : g.manifest = Codegen.manifestOf u p.layout) (hname : Loadable name)
    (hfree : ∀ x, Reserved name x → e.store.Free x) (hentry : a.entry = u.entrySymbol)
    (hfns : ∀ d ∈ fns, Node.Orderly [d.node]) (horder : Node.Orderly u.forms)
    (hslash : ∀ v ∈ definitions u.forms, '/' ∉ v.1.toList) (hb : e.Binds e.env.directory.vars) :
    frame.env.directory.declare (published g.manifest.functions) =
        ((e.env.directory.ensure {ns}).effects u.effects).declare (definitions u.forms) ∧
      frame.ns = Frame.nsAfter ns u.effects ∧
      e₃.Binds (e.env.directory.vars ∪ definitions u.forms) := by
  obtain ⟨hinfo, hmanifest'⟩ := prepare_made hmade h.prepared
  have hstands : List.Forall₂ (Codegen.Stands a.info.types) p.layout.imports a.info.imports := by
    rw [hinfo, hmodule]
    exact (Codegen.Program.toModule_spec (Codegen.Program.types_le (hmodule ▸ hmade.size))).1
  have hadds := (generates_bound e name a).2
  have henv := env_bound e name a
  have hbound := hb.bound name a
  rw [h.bound] at hadds henv hbound
  have hfree₁ : ∀ x, Reserved name x → e₁.store.Free x := fun x hx =>
    hadds.free (hfree x hx) (not_foreignName hx hname)
  -- the binders of the artifact bind vars that its unit defines
  have hbinders : (e₁.bindVars name plan).Binds (e.env.directory.vars ∪ definitions u.forms) := by
    refine (hbound.mono Set.subset_union_left).bindVars name fun q hq => ?_
    obtain ⟨v, hv, rfl⟩ := mem_defs hfns hp hstands (bound_binders h.bound).1 hq
    rw [HostFn.partsOf, Symbol.cut?_qualify (hslash v hv), Option.getD_some]
    exact .inr hv
  have hstart : ({ e₁.bindVars name plan with store := s } : Engine).Binds
      (e.env.directory.vars ∪ definitions u.forms) :=
    Store.Hosts.instantiate? hbinders h.started.made
  have hover : ({ e₁.bindVars name plan with store := s } : Engine).env.Over e.env.directory
      (e.env.directory.vars ∪ definitions u.forms) :=
    ⟨∅, Set.empty_subset _, by rw [Directory.declare_empty, ← henv]; rfl⟩
  obtain ⟨hstarted, V, hV, hbegan⟩ := hstart.runStart hover (p.machine.redirect plan.target) name
  rw [h.started.began] at hstarted hbegan
  have hensured : (e₂.env.ensure ns).Over (e.env.directory.ensure {ns})
      (e.env.directory.vars ∪ definitions u.forms) :=
    ⟨V, hV, by rw [Env.directory_ensure, hbegan, Directory.ensure_declare]⟩
  obtain ⟨hran, W, hW, hdirectory⟩ :=
    Binds.invoke (e := { e₂ with env := e₂.env.ensure ns }) hstarted hensured function []
  rw [h.started.ran] at hran hdirectory
  obtain ⟨heffects, hns⟩ := Frame.directory_apply h.started.effects
  rw [hmanifest', hmanifest] at heffects hns
  refine ⟨?_, hns, hran⟩
  rw [heffects, hdirectory, Directory.effects_declare, Directory.declare_declare, hmanifest,
    published_eq hp hslash]
  -- what was declared and what is defined are the same vars apart from those that there were
  refine Directory.declare_eq_of_union ?_ ?_
  · intro ns' hns'
    obtain ⟨v, hv, rfl⟩ := hns'
    rw [Directory.vars_effects] at hv
    exact Directory.subset_effects _ _ (.inl (Env.fst_mem_namespaces hv))
  · rw [Directory.vars_effects]
    ext v
    constructor
    · rintro ((hv | ⟨params, body, hv⟩) | hv)
      · exact (hW hv).symm
      · exact .inl ⟨_, hv, rfl⟩
      · exact .inr hv
    · rintro (⟨m, hm, hv⟩ | hv)
      · cases m with
        | defn ns' x params body =>
          cases hv
          exact .inl (.inr ⟨params, body, hm⟩)
        | bindVar ns' x init =>
          cases hv
          have hbinds := h.binds hp (hmade.toModule_lt hmodule) hentry hstands hfree₁ horder
            (hslash _ ⟨_, hm, rfl⟩) hm
          rw [hdirectory] at hbinds
          exact hbinds.symm.imp_left .inl
        | _ => cases hv
      · exact .inr hv

/-- What a load that succeeds makes of the directory and of the current namespace. Its binders are of
vars that there are then. -/
theorem load_directory {e' : Engine} {ns' : String} {entry : EntryPoint}
    (hnew : e.modules.get? name = none) (hfree : ∀ x, Reserved name x → e.store.Free x)
    (hmade : art.Made u fns maxDepth g) (hentry : art.entrySymbol = u.entrySymbol)
    (hsmall : (e.begin art name).RewritesSmall art name)
    (hfns : ∀ d ∈ fns, Node.Orderly [d.node]) (horder : Node.Orderly u.forms)
    (hslash : ∀ v ∈ definitions u.forms, '/' ∉ v.1.toList) (hb : e.Binds e.env.directory.vars)
    (h : e.load ns (some art) name = (e', ns', .ok entry)) :
    e'.env.directory =
        ((e.env.directory.ensure {ns}).effects u.effects).declare (definitions u.forms) ∧
      ns' = Frame.nsAfter ns u.effects ∧ e'.Binds e'.env.directory.vars := by
  obtain ⟨failure, -, heq⟩ | ⟨-, record, result, metrics, hget, -, -⟩ | ⟨hrefusal, -, heq⟩ :=
    load_cases e ns art name
  · cases heq.symm.trans h
  · cases hnew.symm.trans hget
  rw [heq, loadNew] at h
  rcases hlink : (e.begin art name).link ns art name with ⟨e₁, ns₁, failure | entry₁⟩
  · rw [hlink] at h
    cases h
  rw [hlink] at h
  obtain ⟨rfl, hrest⟩ := Prod.mk.inj h
  obtain ⟨rfl, -⟩ := Prod.mk.inj hrest
  obtain ⟨p, new, hp, hmanifest, hmodule⟩ := hmade.program
  have hname := loadable_of_refusal? hrefusal
  obtain ⟨a, plan, bin, e₁, e₂, e₃, s, inst, function, values, frame, hlinkage, rfl, rfl, -⟩ :=
    link_made (e := e.begin art name) hmade hp hmodule hname hfree hsmall hlink (.inl rfl)
  have ha : a.entry = u.entrySymbol := by
    obtain ⟨-, -, ha, -⟩ := prepare_eq_ok hlinkage.prepared
    rw [ha, (prepare_made hmade hlinkage.prepared).2, hmanifest, hentry]
    exact ite_self _
  obtain ⟨hdirectory, hns, hbinds⟩ := hlinkage.directory hmade hp hmodule hmanifest hname hfree ha hfns
    horder hslash hb
  have hpublish : ∀ e : Engine, ∀ r, (e.finish art name r).env.directory = e.env.directory :=
    fun _ _ => rfl
  have hfinal : ({ e₃ with env := frame.env }.publish name g.manifest.functions
      g.module.info.exportedGlobals).env.directory =
      ((e.env.directory.ensure {ns}).effects u.effects).declare (definitions u.forms) :=
    (directory_publish _ _ _ _).trans hdirectory
  refine ⟨hfinal, hns, ?_⟩
  show Store.Hosts _ _
  rw [hpublish, hfinal]
  refine Store.Hosts.mono hbinds fun f hf => hf.trans (Set.union_subset_union_left _ ?_)
  rw [Directory.vars_effects]
  rfl

end Load

end Engine

end WasmLisp
