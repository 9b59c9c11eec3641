import Mathlib
import WasmLisp.Service.Runner
import WasmLisp.Proofs.Artifact.Opened
import WasmLisp.Proofs.Engine.Renamed
import WasmLisp.Proofs.Engine.Same
import WasmLisp.Proofs.Lisp.Aligned
import WasmLisp.Proofs.Session.Named

/-!
# Modules of messages are loaded as those that were compiled

A runner opens the bytes of a module before it loads them. What it opens is the artifact that was
compiled, so it loads the same under another name (`Service.Runner.load_message`).
-/

namespace WasmLisp

open Result (RelUpTo)
open Engine (TakesSmall)

theorem Artifact.Generated.made {art : Artifact} (h : art.Generated)
    (hsize : art.bytes.length < 0x100000000) :
    ∃ (u : CompUnit) (fns : List Defn) (maxDepth : Int) (g : Codegen.Generated),
      art.Made u fns maxDepth g ∧ art.manifest = some g.manifest ∧ art.hash = g.manifest.hash ∧
        art.entrySymbol = g.manifest.entry := by
  obtain ⟨u, fns, maxDepth, g, target, hg, rfl⟩ := h
  exact ⟨u, fns, maxDepth, g, ⟨hg, rfl, .inr rfl, hsize⟩, rfl, rfl, rfl⟩

/-- The module as messages carry it. -/
def Compiled.message (m : Compiled) : Service.Module :=
  { name := m.module, entrySymbol := m.artifact.entrySymbol, hash := m.artifact.hash
    artifact := m.artifact.bytes }

/-- No list of the module's manifest is longer than a decoder takes. -/
def Compiled.Listable (m : Compiled) : Prop :=
  ∀ manifest, m.artifact.manifest = some manifest → manifest.Listable

instance (m : Compiled) : Decidable m.Listable :=
  inferInstanceAs (Decidable (∀ manifest ∈ m.artifact.manifest, manifest.Listable))

/-- The binary of a compiled module is opened as the artifact that it holds. -/
theorem Artifact.Generated.open?_eq_ok {art : Artifact} (h : art.Generated)
    (hsize : art.bytes.length < 0x100000000)
    (hlists : ∀ manifest, art.manifest = some manifest → manifest.Listable) (target : Target) :
    ∃ art', Artifact.open? art.bytes target = .ok art' ∧ art'.Same art := by
  obtain ⟨u, fns, maxDepth, g, hmade, hmanifest, hhash, hentry⟩ := h.made hsize
  exact ⟨_, hmade.open?_eq_ok (hlists _ hmanifest) target, hmanifest.symm, hhash.symm, hentry.symm, rfl⟩

namespace Service.Runner

variable {f : String → String} {e : Engine} {x : Runner} {m : Compiled}

/-- What the module of a message is opened as is not rewritten to a binary that is too large. -/
def TakesSmall (x : Runner) (m : Module) : Prop :=
  ∀ art, Artifact.open? m.artifact .host = .ok art → (x.engine.begin art m.name).RewritesSmall art m.name

instance (x : Runner) (m : Module) : Decidable (x.TakesSmall m) :=
  match h : Artifact.open? m.artifact .host with
  | .error _ => isTrue fun _ hart => nomatch h.symm.trans hart
  | .ok art =>
    decidable_of_iff ((x.engine.begin art m.name).RewritesSmall art m.name)
      ⟨fun hsmall _ hart => Except.ok.inj (h.symm.trans hart) ▸ hsmall, fun hsmall => hsmall art h⟩

/-- The modules that are loaded one after the other, each with the runner that loads it. -/
def loadsOf (x : Runner) : List Module → List (Runner × Module)
  | [] => []
  | m :: rest =>
    (x, m) :: match x.load m with
      | (_, .error _) => []
      | (x, .ok _) => x.loadsOf rest

/-- The runner is where the engine and the frame got, and both loads gave the same or failed alike. -/
structure SameLoad {α β : Type} (f : String → String) (x : Runner) (R : α → β → Prop)
    (left : Engine × String × Result α) (right : Runner × Result β) : Prop where
  ns : right.1.ns = left.2.1
  stem : right.1.stem = x.stem
  evals : right.1.evals = x.evals
  engine : left.1.Renamed f right.1.engine
  result : RelUpTo Failure.SameSort R left.2.2 right.2

theorem SameLoad.map {α β γ : Type} {R : α → β → Prop} {left : Engine × String × Result α}
    {right : Runner × Result β} (h : SameLoad f x R left right) {g : α → γ} {g' : β → γ}
    (hg : ∀ a b, R a b → g a = g' b) :
    SameLoad f x Eq (left.1, left.2.1, left.2.2.map g) (right.1, right.2.map g') :=
  { h with result := h.result.map hg }

theorem load_message (h : e.Renamed f x.engine) (hf : Renaming f) (hname : Renames f m.module)
    (hart : m.artifact.Generated) (hlists : m.Listable) (hsmall : e.TakesSmall m)
    (hsmall' : x.TakesSmall (m.rename f).message) :
    SameLoad f x (fun p value => value = p.result) (e.load x.ns (some m.artifact) m.module)
      (x.load (m.rename f).message) := by
  obtain ⟨art, hopen, hsame⟩ := hart.open?_eq_ok hsmall.1 hlists .host
  obtain ⟨u, fns, maxDepth, g, hmade, -⟩ := hart.made hsmall.1
  have hrewrites : (x.engine.begin m.artifact (f m.module)).RewritesSmall m.artifact (f m.module) := by
    have hrewrites := hsmall' art hopen
    rw [hsame.begin_eq] at hrewrites
    exact hsame.symm.rewritesSmall _ _ hrewrites
  have hloaded := h.load hf hname hmade hsmall.2 hrewrites x.ns
  have hload : x.load (m.rename f).message =
      ({ x with
          engine := (x.engine.load x.ns (some m.artifact) (f m.module)).1
          ns := (x.engine.load x.ns (some m.artifact) (f m.module)).2.1 },
        (x.engine.load x.ns (some m.artifact) (f m.module)).2.2.map (·.result)) := by
    have hopen : Artifact.open? (m.rename f).message.artifact .host = .ok art := hopen
    unfold Runner.load
    rw [hopen, ← hsame.load_eq]
    simp only [Compiled.message, Compiled.rename]
    exact if_neg (by simp [hsame.hash, hsame.entrySymbol])
  rw [hload]
  generalize e.load x.ns (some m.artifact) m.module = left at hloaded ⊢
  generalize x.engine.load x.ns (some m.artifact) (f m.module) = right at hloaded ⊢
  obtain ⟨e₁, ns₁, failure | p⟩ := left <;> obtain ⟨e₂, ns₂, failure' | p'⟩ := right <;>
    obtain ⟨hengine, rfl, hresult⟩ := hloaded
  · exact ⟨rfl, rfl, rfl, hengine, hresult⟩
  · exact hresult.elim
  · exact hresult.elim
  · obtain rfl : p' = p.rename f := hresult
    exact ⟨rfl, rfl, rfl, hengine, rfl⟩

/-- The modules of messages are loaded as those that were compiled, up to the first that fails. -/
theorem loadAll_messages (hf : Renaming f) {ms : List Compiled} (h : e.Renamed f x.engine)
    (hall : ∀ m ∈ ms, Renames f m.module ∧ m.artifact.Generated ∧ m.Listable)
    (hsmall : ∀ l ∈ Evaluator.loadsOf e x.ns ms, l.1.TakesSmall l.2)
    (hsmall' : ∀ l ∈ x.loadsOf (ms.map fun m => (m.rename f).message), l.1.TakesSmall l.2) :
    SameLoad f x Eq (Evaluator.loadAll e x.ns ms) (x.loadAll (ms.map fun m => (m.rename f).message)) := by
  induction ms generalizing e x with
  | nil => exact ⟨rfl, rfl, rfl, h, rfl⟩
  | cons m ms ih =>
    obtain ⟨⟨hname, hart, hlists⟩, hrest⟩ := List.forall_mem_cons.mp hall
    obtain ⟨hfirst, hsmall⟩ := List.forall_mem_cons.mp hsmall
    obtain ⟨hfirst', hsmall'⟩ := List.forall_mem_cons.mp hsmall'
    obtain ⟨hns, hstem, hevals, hengine, hresult⟩ := load_message h hf hname hart hlists hfirst hfirst'
    rw [List.map_cons]
    unfold Evaluator.loadAll Runner.loadAll
    generalize e.load x.ns (some m.artifact) m.module = left at hns hengine hresult hsmall ⊢
    generalize x.load (m.rename f).message = right at hns hstem hevals hengine hresult hsmall' ⊢
    obtain ⟨e₁, ns₁, failure | p⟩ := left <;> obtain ⟨x₁, failure' | value⟩ := right
    · exact ⟨hns, hstem, hevals, hengine, hresult⟩
    · exact hresult.elim
    · exact hresult.elim
    · obtain rfl : x₁.ns = ns₁ := hns
      obtain ⟨hns', hstem', hevals', hengine', hresult'⟩ := ih hengine hrest hsmall hsmall'
      exact ⟨hns', hstem'.trans hstem, hevals'.trans hevals, hengine', hresult'⟩

end Service.Runner

end WasmLisp
