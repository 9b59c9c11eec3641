import Mathlib
import WasmLisp.Proofs.Artifact
import WasmLisp.Proofs.Codegen.Placed
import WasmLisp.Proofs.Engine.Crash
import WasmLisp.Proofs.Engine.Resolution
import WasmLisp.Proofs.Engine.Singular

/-!
# Artifacts of generated modules

* `Artifact.Made`: an artifact holds the module that was generated of a unit. Preparation finds its
  imports and its manifest (`Engine.prepare_made`), and what is loaded in the end is the program of the
  unit with other module names (`Artifact.Made.load?_redirected`);
* `Engine.Started`: all that happens when a binary starts without a fault, and
  `Engine.link_eq_published`: what it takes to be linked;
* `Engine.crashed_link_made`: an artifact of a generated module does not crash.
-/

namespace WasmLisp

/-! ## Artifacts -/

open Codegen in
/-- The artifact holds the module that was generated of a unit, and comes with its manifest if it
comes with any. -/
structure Artifact.Made (art : Artifact) (u : CompUnit) (fns : List Defn) (maxDepth : Int)
    (g : Generated) : Prop where
  generated : generate u fns maxDepth = .ok g
  bytes : art.bytes = g.module.encode
  manifest : art.manifest = none ∨ art.manifest = some g.manifest
  size : g.module.encode.length < 0x100000000

namespace Artifact.Made

open Codegen

variable {art : Artifact} {u : CompUnit} {fns : List Defn} {maxDepth : Int} {g : Generated}

/-- The program that the module was written from. -/
theorem program (h : art.Made u fns maxDepth g) :
    ∃ (p : Program) (new : List Reached), p.Built u fns (effectiveDepth maxDepth) new ∧
      g.manifest = manifestOf u p.layout ∧ g.module = p.withManifest g.manifest := by
  obtain ⟨p, hp, hmanifest, hmodule⟩ := generate_eq_ok h.generated
  obtain ⟨new, hb⟩ := Program.ofUnit_built hp
  exact ⟨p, new, hb, hmanifest, hmodule⟩

theorem toModule_lt (h : art.Made u fns maxDepth g) {p : Program}
    (hmodule : g.module = p.withManifest g.manifest) :
    p.toModule.encode.length < 0x100000000 := by
  have hle := p.length_encode_le g.manifest
  have hsize := h.size
  rw [hmodule] at hsize
  omega

theorem inspect (h : art.Made u fns maxDepth g) :
    Binary.Info.inspect art.bytes = .ok g.module.info := by
  rw [h.bytes]
  exact inspect_generate h.generated h.size

/-- The binary is rewritten to that of the module with other module names. -/
theorem redirectImports_eq (h : art.Made u fns maxDepth g) {p : Program}
    (hmodule : g.module = p.withManifest g.manifest) (target : String → String → String) :
    ∃ r, Binary.redirectImports target art.bytes = .ok r ∧
      r.bytes = ((p.withManifest g.manifest).redirect target).encode := by
  have hwritten := h.size
  rw [h.bytes]
  rw [hmodule] at hwritten ⊢
  exact Binary.redirectImports_encode target
    (Program.plain (Program.types_le hwritten) g.manifest) hwritten

/-- The rewritten binary is loaded to the program with other module names, if that is valid. -/
theorem load?_redirected_eq (h : art.Made u fns maxDepth g) {p : Program} {new : List Reached}
    (hp : p.Built u fns (effectiveDepth maxDepth) new)
    (hmodule : g.module = p.withManifest g.manifest) {target : String → String → String}
    {r : Binary.Redirected} (hr : Binary.redirectImports target art.bytes = .ok r)
    (hsize : r.bytes.length < 0x100000000) :
    Machine.Module.load? r.bytes =
      if p.machine.valid then some (p.machine.redirect target) else none := by
  have hwritten := h.size
  rw [hmodule] at hwritten
  obtain ⟨r', hr', hbytes⟩ := h.redirectImports_eq hmodule target
  cases hr'.symm.trans hr
  rw [hbytes] at hsize ⊢
  have hwritable : Machine.Writable ((p.withManifest g.manifest).redirect target) _ :=
    (hp.writable hwritten (p.length_encode_le g.manifest)).redirect hsize
  unfold Machine.Module.load?
  rw [Machine.Module.decode?_encode hwritable, ← Machine.Module.valid_redirect target p.machine]
  rfl

/-- The rewritten binary, if it can be loaded at all, is the program with other module names. -/
theorem load?_redirected (h : art.Made u fns maxDepth g) {p : Program} {new : List Reached}
    (hp : p.Built u fns (effectiveDepth maxDepth) new)
    (hmodule : g.module = p.withManifest g.manifest) {target : String → String → String}
    {r : Binary.Redirected} (hr : Binary.redirectImports target art.bytes = .ok r)
    (hsize : r.bytes.length < 0x100000000) {m : Machine.Module}
    (hm : Machine.Module.load? r.bytes = some m) :
    m = p.machine.redirect target ∧ (p.exports.map (·.name)).Nodup := by
  rw [h.load?_redirected_eq hp hmodule hr hsize] at hm
  split at hm
  · rename_i hvalid
    refine ⟨(Option.some.inj hm).symm, ?_⟩
    unfold Machine.Module.valid at hvalid
    split at hvalid
    · cases hvalid
    · simp only [Bool.and_eq_true, decide_eq_true_eq] at hvalid
      exact hvalid.1.2
  · cases hm

end Artifact.Made

namespace Engine

open Machine (Store)

variable {e e₁ e₂ e' : Engine} {ns ns' name : String} {art : Artifact}

/-- What is found out about an artifact is what was generated. -/
theorem prepare_made {u : CompUnit} {fns : List Defn} {maxDepth : Int} {g : Codegen.Generated}
    (h : art.Made u fns maxDepth g) {a : Prepared} (ha : e.prepare art name = .ok a) :
    a.info = g.module.info ∧ a.manifest = g.manifest := by
  obtain ⟨hinspect, hmanifest, -⟩ := prepare_eq_ok ha
  have hinfo : a.info = g.module.info := Except.ok.inj (hinspect.symm.trans h.inspect)
  refine ⟨hinfo, ?_⟩
  rw [hinfo] at hmanifest
  unfold manifestOf at hmanifest
  obtain hnone | hsome := h.manifest
  · rw [hnone] at hmanifest
    dsimp only at hmanifest
    split at hmanifest
    · cases hmanifest
    · rename_i opened hopened
      rw [← Except.ok.inj hmanifest, (Artifact.ofInfo_generate h.generated h.size hopened).1]
      rfl
  · rw [hsome] at hmanifest
    exact (Except.ok.inj hmanifest).symm

/-! ## Starting -/

/-- All that happens when a binary with bound imports starts without a fault: the instance `m` gives
the store `s`, its start leaves the engine `e₁`, and the entry `function` comes back with values and
gives the engine `e₂` in which the effects lead to the frame. -/
structure Started (e : Engine) (ns name : String) (bin : List UInt8) (p : Plan) (a : Prepared)
    (m : Machine.Module) (s : Store HostFn) (e₁ e₂ : Engine) (function : Nat) (values : List Int64)
    (frame : Frame) : Prop where
  loaded : Machine.Module.load? bin = some m
  made : (e.bindVars name p).store.instantiate? m name = some s
  began : { e.bindVars name p with store := s }.runStart m name = (e₁, none)
  entry : e₁.exportedFunction? name a.entry = some function
  ran : { e₁ with env := e₁.env.ensure ns }.invoke function [] = (e₂, .values values)
  effects : ({ env := e₂.env, ns } : Frame).apply a.manifest.effects = (frame, none)

theorem instantiate_eq_none {bin : List UInt8} (h : e.instantiate bin name = (e', none)) :
    ∃ m s, Machine.Module.load? bin = some m ∧ e.store.instantiate? m name = some s ∧
      { e with store := s }.runStart m name = (e', none) := by
  unfold instantiate at h
  split at h
  · cases h
  rename_i m hm
  split at h
  · cases h
  rename_i s hs
  split at h
  · cases h
  · exact ⟨m, s, hm, hs, h⟩

theorem initialise_eq_ok {entry : String} {effects : List Effect} {result : Nat × List Int64}
    (h : e.initialise ns name entry effects = (e', ns', .ok result)) :
    ∃ e₁ frame, e.exportedFunction? name entry = some result.1 ∧
      { e with env := e.env.ensure ns }.invoke result.1 [] = (e₁, .values result.2) ∧
      ({ env := e₁.env, ns } : Frame).apply effects = (frame, none) ∧
      e' = { e₁ with env := frame.env } ∧ ns' = frame.ns := by
  unfold initialise at h
  split at h
  · cases h
  rename_i function hfunction
  dsimp only at h
  split at h
  · cases h
  rename_i e₁ values hvalues
  split at h
  · cases h
  · rename_i frame hframe
    cases h
    exact ⟨e₁, frame, hfunction, hvalues, hframe, rfl, rfl⟩

/-- No failure of an entry is a crash. -/
theorem crashed_initialise {entry : String} {effects : List Effect} {failure : Failure}
    (h : e.initialise ns name entry effects = (e', ns', .error failure)) :
    failure.isCrash = false := by
  unfold initialise at h
  split at h
  · cases h
    rfl
  dsimp only at h
  split at h
  · cases h
    rfl
  · split at h
    · cases h
      rfl
    · cases h

/-- A start that succeeds or crashes has met with no fault, and everything is published. -/
theorem start_eq_published {bin : List UInt8} {p : Plan} {a : Prepared} {r : Result EntryPoint}
    (h : e.start ns name bin p a = (e', ns', r)) (hr : r.isOk = true ∨ crashed r = true) :
    ∃ m s e₁ e₂ function values frame, e.Started ns name bin p a m s e₁ e₂ function values frame ∧
      e' = { e₂ with env := frame.env }.publish name a.manifest.functions a.info.exportedGlobals ∧
      ns' = frame.ns ∧ r = entryPoint name a p function values := by
  unfold start at h
  dsimp only at h
  split at h
  · cases h
    rcases hr with hr | hr <;> cases hr
  split at h
  · cases h
    rcases hr with hr | hr <;> cases hr
  rename_i e₁ hinstantiate
  obtain ⟨m, s, hm, hs, hstart⟩ := instantiate_eq_none hinstantiate
  split at h
  · rename_i failure hinitialise
    cases h
    have hno : failure.isCrash = false := crashed_initialise hinitialise
    rcases hr with hr | hr
    · cases hr
    · cases hno.symm.trans hr
  · rename_i e₂ ns₂ function values hinitialise
    obtain ⟨e₃, frame, hfunction, hvalues, hframe, rfl, rfl⟩ := initialise_eq_ok hinitialise
    cases h
    exact ⟨m, s, e₁, e₃, function, values, frame,
      ⟨hm, hs, hstart, hfunction, hvalues, hframe⟩, rfl, rfl, rfl⟩

theorem entryPoint_eq_ok {a : Prepared} {p : Plan} {function : Nat} {values : List Int64}
    {entry : EntryPoint} (h : entryPoint name a p function values = .ok entry) :
    ∃ result rest, values = result :: rest ∧
      entry = { module := name, symbol := a.entry, result, bindings := p.bindings, function } := by
  cases values with
  | nil => cases h
  | cons result rest =>
    cases h
    exact ⟨result, rest, rfl, rfl⟩

/-- What linking does before an artifact starts that succeeds or crashes. -/
theorem link_eq_published {r : Result EntryPoint} (h : e.link ns art name = (e', ns', r))
    (hr : r.isOk = true ∨ crashed r = true) :
    ∃ a p e₁ b, e.prepare art name = .ok a ∧ e.bound name a = (e₁, .ok p) ∧
      Binary.redirectImports p.target art.bytes = .ok b ∧
      e₁.start ns name b.bytes p a = (e', ns', r) := by
  have hprepare := crashed_prepare e art name
  unfold link at h
  cases ha : e.prepare art name with
  | error failure =>
    rw [ha] at h hprepare
    cases h
    rcases hr with hr | hr
    · cases hr
    · cases hprepare.symm.trans hr
  | ok a =>
    rw [ha] at h
    have hsearch := crashed_resolveAll e.materialize name a.info {} a.info.imports
    dsimp only at h
    split at h
    · rename_i failure hbound
      rw [hbound] at hsearch
      cases h
      rcases hr with hr | hr
      · cases hr
      · cases hsearch.symm.trans hr
    · rename_i e₁ p hbound
      split at h
      · cases h
        rcases hr with hr | hr <;> cases hr
      · rename_i b hb
        exact ⟨a, p, e₁, b, rfl, hbound, hb, h⟩

/-- The binary that an artifact is rewritten to when it is linked is no larger than the 32-bit sizes of
the format can say. -/
def RewritesSmall (e : Engine) (art : Artifact) (name : String) : Prop :=
  ∀ a e₁ p r, e.prepare art name = .ok a → e.bound name a = (e₁, .ok p) →
    Binary.redirectImports p.target art.bytes = .ok r → r.bytes.length < 0x100000000

/-- Whether the binary that an artifact is rewritten to is no larger than that. -/
def rewritesSmall (e : Engine) (art : Artifact) (name : String) : Bool :=
  match e.prepare art name with
  | .error _ => true
  | .ok a =>
    match e.bound name a with
    | (_, .error _) => true
    | (_, .ok p) =>
      match Binary.redirectImports p.target art.bytes with
      | .error _ => true
      | .ok r => r.bytes.length < 0x100000000

theorem rewritesSmall_iff {e : Engine} {art : Artifact} {name : String} :
    e.rewritesSmall art name = true ↔ e.RewritesSmall art name := by
  unfold rewritesSmall RewritesSmall
  constructor
  · intro h a e₁ p r ha hbound hr
    simp only [ha, hbound, hr] at h
    exact of_decide_eq_true h
  · intro h
    split
    · rfl
    · rename_i a ha
      split
      · rfl
      · rename_i e₁ p hbound
        split
        · rfl
        · rename_i r hr
          exact decide_eq_true (h a e₁ p r ha hbound hr)

instance (e : Engine) (art : Artifact) (name : String) : Decidable (e.RewritesSmall art name) :=
  decidable_of_iff _ rewritesSmall_iff

/-- The instance stays in the store until the end of the load. -/
theorem Started.grown {bin : List UInt8} {p : Plan} {a : Prepared} {m : Machine.Module}
    {s : Store HostFn} {function : Nat} {values : List Int64} {frame : Frame}
    (h : e.Started ns name bin p a m s e₁ e₂ function values frame) : s.Grown e₂.store := by
  have hbegan := (ran_runStart { e.bindVars name p with store := s } m name).store
  have hran := (ran_invoke { e₁ with env := e₁.env.ensure ns } function []).store
  rw [h.began] at hbegan
  rw [h.ran] at hran
  exact hbegan.trans hran

/-- All that starting does is running code and making instances. -/
theorem Started.runs {bin : List UInt8} {p : Plan} {a : Prepared} {m : Machine.Module}
    {s : Store HostFn} {function : Nat} {values : List Int64} {frame : Frame}
    (h : e.Started ns name bin p a m s e₁ e₂ function values frame) :
    e.Ran { e₂ with env := frame.env } := by
  have hmade : (e.bindVars name p).Ran { e.bindVars name p with store := s } :=
    ⟨_, _, _, rfl, Store.grown_instantiate? h.made⟩
  have hbegan := ran_runStart { e.bindVars name p with store := s } m name
  have henter : e₁.Ran { e₁ with env := e₁.env.ensure ns } := ⟨_, _, _, rfl, .refl _⟩
  have hran := ran_invoke { e₁ with env := e₁.env.ensure ns } function []
  rw [h.began] at hbegan
  rw [h.ran] at hran
  have hends : e₂.Ran { e₂ with env := frame.env } := ⟨_, _, _, rfl, .refl _⟩
  exact ((((ran_bindVars e name p).trans hmade).trans hbegan).trans henter).trans (hran.trans hends)

/-- The artifact of a program is linked: its imports are bound in the engine `e₁`, and the instance
`inst` of the program starts in it without a fault. -/
structure Linkage (e : Engine) (ns name : String) (art : Artifact) (p : Codegen.Program)
    (a : Prepared) (plan : Plan) (bin : List UInt8) (e₁ e₂ e₃ : Engine) (s : Store HostFn)
    (inst : Machine.Instance) (function : Nat) (values : List Int64) (frame : Frame) : Prop where
  prepared : e.prepare art name = .ok a
  bound : e.bound name a = (e₁, .ok plan)
  started : e₁.Started ns name bin plan a (p.machine.redirect plan.target) s e₂ e₃ function values frame
  placed : Codegen.Placed p plan.target name (e₁.bindVars name plan).store s inst
  exports : (p.exports.map (·.name)).Nodup
  found : ∀ x, s.export? name x = inst.exports.lookup x

/-- An artifact of a generated module that is linked without a fault. Whether that is a crash is for its
entry to say. -/
theorem link_made {u : CompUnit} {fns : List Defn} {maxDepth : Int} {g : Codegen.Generated}
    {p : Codegen.Program} {new : List Codegen.Reached} (hmade : art.Made u fns maxDepth g)
    (hp : p.Built u fns (Codegen.effectiveDepth maxDepth) new)
    (hmodule : g.module = p.withManifest g.manifest) (hname : Loadable name)
    (hfree : ∀ x, Reserved name x → e.store.Free x) (hsmall : e.RewritesSmall art name)
    {result : Result EntryPoint} (h : e.link ns art name = (e', ns', result))
    (hresult : result.isOk = true ∨ crashed result = true) :
    ∃ a plan bin e₁ e₂ e₃ s inst function values frame,
      e.Linkage ns name art p a plan bin e₁ e₂ e₃ s inst function values frame ∧
      e' = { e₃ with env := frame.env }.publish name g.manifest.functions
        g.module.info.exportedGlobals ∧ ns' = frame.ns ∧
      result = entryPoint name a plan function values := by
  obtain ⟨a, plan, e₁, r, ha, hbound, hr, hstart⟩ := link_eq_published h hresult
  obtain ⟨hinfo, hmanifest⟩ := prepare_made hmade ha
  obtain ⟨m, s, e₂, e₃, function, values, frame, hstarted, rfl, rfl, rfl⟩ :=
    start_eq_published hstart hresult
  obtain ⟨rfl, hexports⟩ := hmade.load?_redirected hp hmodule hr (hsmall a e₁ plan r ha hbound hr)
    hstarted.loaded
  obtain ⟨inst, hplaced⟩ :=
    Codegen.placed_of_instantiate? hp (hmade.toModule_lt hmodule) hstarted.made
  have hfree₁ : (e₁.bindVars name plan).store.Free name := by
    have hadds := (generates_bound e name a).2
    rw [hbound] at hadds
    exact free_bindVars (hadds.free (hfree name (.inl rfl)) (not_foreignName (.inl rfl) hname)) plan
  refine ⟨a, plan, r.bytes, e₁, e₂, e₃, s, inst, function, values, frame,
    ⟨ha, hbound, hstarted, hplaced, hexports, fun x => ?_⟩, ?_, rfl, rfl⟩
  · obtain rfl := hplaced.name
    exact hfree₁.export?_push hplaced.live hplaced.instances x
  · rw [hinfo, hmanifest]

/-- What is called as the entry has one result, whatever name the artifact gives. -/
theorem Linkage.length_values {u : CompUnit} {fns : List Defn} {depth : Nat} {p : Codegen.Program}
    {new : List Codegen.Reached} {a : Prepared} {plan : Plan} {bin : List UInt8} {e₃ : Engine}
    {s : Store HostFn} {inst : Machine.Instance} {function : Nat} {values : List Int64} {frame : Frame}
    (h : e.Linkage ns name art p a plan bin e₁ e₂ e₃ s inst function values frame)
    (hp : p.Built u fns depth new) (hsize : p.toModule.encode.length < 0x100000000) :
    values.length = 1 := by
  have hgrown := (ran_runStart { e₁.bindVars name plan with store := s }
    (p.machine.redirect plan.target) name).store
  rw [h.started.began] at hgrown
  have hlive : (s.find? name).isSome := by
    have hentry := (h.found p.entryName).trans (h.placed.lookup_entry hp hsize h.exports)
    simp only [Store.export?, bind, Option.bind_eq_some_iff] at hentry
    obtain ⟨i, hi, -⟩ := hentry
    rw [hi]
    rfl
  have hlookup : inst.exports.lookup a.entry = some (.func function) := by
    have hcalled := h.started.entry
    rw [exportedFunction?, hgrown.export?_eq hlive, h.found] at hcalled
    split at hcalled
    · rename_i b hb
      cases hcalled
      exact hb
    · cases hcalled
  obtain ⟨callee, hcallee, hresults⟩ := h.placed.results_of_lookup hp hsize hlookup
  rcases invoke_ends { e₂ with env := e₂.env.ensure ns } function [] with
    ⟨vs, f, hvalues, hf, hlength⟩ | ⟨reason, hfailed, -⟩
  · rw [h.started.ran] at hvalues
    cases hvalues
    cases (hgrown.funcs _ _ hcallee).symm.trans hf
    exact hlength.trans hresults
  · rw [h.started.ran] at hfailed
    cases hfailed

/-- No artifact of a generated module crashes when it is linked. -/
theorem crashed_link_made {u : CompUnit} {fns : List Defn} {maxDepth : Int} {g : Codegen.Generated}
    (hmade : art.Made u fns maxDepth g) (hname : Loadable name)
    (hfree : ∀ x, Reserved name x → e.store.Free x) (hsmall : e.RewritesSmall art name) (ns : String) :
    crashed (e.link ns art name).2.2 = false := by
  rcases hlink : e.link ns art name with ⟨e', ns', result⟩
  cases hcrashed : crashed result with
  | false => rfl
  | true =>
    obtain ⟨p, new, hp, -, hmodule⟩ := hmade.program
    obtain ⟨a, plan, bin, e₁, e₂, e₃, s, inst, function, values, frame, hlinkage, -, -, rfl⟩ :=
      link_made hmade hp hmodule hname hfree hsmall hlink (.inr hcrashed)
    obtain ⟨v, rfl⟩ := List.length_eq_one_iff.mp
      (hlinkage.length_values hp (hmade.toModule_lt hmodule))
    cases hcrashed

end Engine

end WasmLisp
