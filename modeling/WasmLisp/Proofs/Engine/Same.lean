import Mathlib
import WasmLisp.Proofs.Compiler
import WasmLisp.Proofs.Engine.Linked

/-!
# Artifacts that are the same are loaded alike

A load looks at the bytes, the manifest, the digest and the entry symbol of an artifact, not at where it
comes from. So an artifact that was read back, from a cache or from a message, is loaded as the one that
was built (`Artifact.Same.load_eq`).
-/

namespace WasmLisp.Artifact.Same

variable {a b : Artifact} (h : a.Same b) (e : Engine) (name : String)
include h

/-- Both have the same manifest, whether it comes with them or is read from their bytes. -/
theorem manifestOf_eq (info : Binary.Info) :
    Engine.manifestOf a info name = Engine.manifestOf b info name := by
  unfold Engine.manifestOf Artifact.ofInfo
  rw [h.manifest, h.bytes]
  cases b.manifest with
  | some m => rfl
  | none =>
    cases info.custom? Manifest.sectionName with
    | none => rfl
    | some data =>
      cases hm : Manifest.decode data with
      | error fault => simp only [hm]
      | ok m => simp only [hm]

/-- The artifacts are prepared alike. -/
theorem prepare_eq : e.prepare a name = e.prepare b name := by
  unfold Engine.prepare
  simp only [h.bytes, h.entrySymbol, h.manifestOf_eq]

/-- The same is recorded when a load of them begins. -/
theorem begin_eq : e.begin a name = e.begin b name := by
  simp only [Engine.begin, Engine.recordOf, h.entrySymbol, h.hash]

/-- To load one does what it does to load the other. -/
theorem load_eq (ns : String) : e.load ns (some a) name = e.load ns (some b) name := by
  have hfinish : ∀ (e : Engine) r, e.finish a name r = e.finish b name r := by
    intro e r
    simp only [Engine.finish, Engine.recordOf, h.entrySymbol, h.hash]
  have hlink : ∀ e : Engine, e.link ns a name = e.link ns b name := by
    intro e
    unfold Engine.link
    rw [h.prepare_eq, h.bytes]
  have hrefusal : e.refusal? (some a) name = e.refusal? (some b) name := rfl
  unfold Engine.load
  rw [hrefusal]
  cases e.refusal? (some b) name with
  | some failure => rfl
  | none => simp only [Engine.loadNew, h.begin_eq, hlink, hfinish]

/-- One is rewritten to a small binary if the other is. -/
theorem rewritesSmall (hsmall : e.RewritesSmall b name) : e.RewritesSmall a name := by
  intro p e₁ plan r hp hbound hr
  rw [h.prepare_eq] at hp
  rw [h.bytes] at hr
  exact hsmall p e₁ plan r hp hbound hr

end WasmLisp.Artifact.Same
