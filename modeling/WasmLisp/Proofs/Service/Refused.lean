import Mathlib
import WasmLisp.Service.Server
import WasmLisp.Proofs.Session

/-!
# What a refused request leaves

A request is refused before its session goes to the namespace that the request asks for, or after
that. The work of a request that is refused is taken back, but the move to another namespace is not:

* `Service.reachable_dispatch`: the sessions of the service are sessions after requests;
* `Service.untouched_iff_of_refused`: a refused request leaves its session untouched if and only if
  it was not admitted or asked for no other namespace.
-/

namespace WasmLisp.Service

variable {s : Session} {c : Compiler} {r : Request}

/-- The request is one for a session to compile, and for a target that the session serves. -/
def Request.Admitted (s : Session) (r : Request) : Prop :=
  (r.op = "compile" ∨ r.op = "require") ∧ targetRefusal? s r = none

/-- Without being admitted a request reaches no session. -/
theorem dispatch_of_not_admitted (h : ¬ r.Admitted s) (c : Compiler) : (dispatch s c r).1 = s := by
  unfold dispatch
  split
  · rfl
  split
  · rfl
  · rename_i hop
    have hkind : r.op = "compile" ∨ r.op = "require" := by
      by_contra hother
      simp [not_or.mp hother] at hop
    cases htarget : targetRefusal? s r with
    | some e => rfl
    | none => exact absurd ⟨hkind, htarget⟩ h

theorem dispatch_of_admitted (h : r.Admitted s) (c : Compiler) :
    dispatch s c r = if r.op = "compile" then compileFor (s.switchTo r.ns) c r
      else requireFor (s.switchTo r.ns) c r := by
  obtain ⟨hkind, htarget⟩ := h
  have hping : r.op ≠ "ping" := by rintro hop; simp [hop] at hkind
  have hknown : ¬ (r.op ≠ "compile" && r.op ≠ "require") = true := by
    rcases hkind with hop | hop <;> simp [hop]
  unfold dispatch
  rw [if_neg hping, if_neg hknown, htarget]

/-! ## Once the session has gone to the namespace -/

theorem compileFor_keeps (hs : s.frame.Sound) (c : Compiler) (r : Request) :
    (compileFor s c r).2.2.isOk = false → s.Untouched (compileFor s c r).1 := by
  unfold compileFor
  split
  · exact fun _ => .refl s
  · intro hrefused
    apply (Session.compile_keeps hs c r.module r.source).2
    simpa [Result.isOk_map] using hrefused

theorem requireFor_keeps (hs : s.frame.Sound) (c : Compiler) (r : Request) :
    (requireFor s c r).2.2.isOk = false → s.Untouched (requireFor s c r).1 := by
  intro hrefused
  apply (Session.require_keeps hs c _ r.source).2
  simpa [requireFor, Result.isOk_map] using hrefused

theorem reachable_compileFor (hs : s.Reachable) (c : Compiler) (r : Request) :
    (compileFor s c r).1.Reachable := by
  unfold compileFor
  split
  · exact hs
  · exact hs.handle c (.compile r.module r.source)

theorem reachable_requireFor (hs : s.Reachable) (c : Compiler) (r : Request) :
    (requireFor s c r).1.Reachable :=
  hs.handle c (.require _ r.source)

/-- A session of the service is a session after requests. -/
theorem reachable_dispatch (hs : s.Reachable) (c : Compiler) (r : Request) :
    (dispatch s c r).1.Reachable := by
  by_cases h : r.Admitted s
  · have hmoved : (s.switchTo r.ns).Reachable := hs.handle c (.switchTo r.ns)
    rw [dispatch_of_admitted h]
    split
    · exact reachable_compileFor hmoved c r
    · exact reachable_requireFor hmoved c r
  · rw [dispatch_of_not_admitted h]
    exact hs

/-- What an admitted request did is taken back to where the session went for it. -/
theorem moved_of_refused (hs : s.Reachable) (h : r.Admitted s)
    (hrefused : (dispatch s c r).2.2.isOk = false) :
    (s.switchTo r.ns).Untouched (dispatch s c r).1 := by
  have hsound := Session.switchTo_sound hs.sound r.ns
  rw [dispatch_of_admitted h] at hrefused ⊢
  split at hrefused
  · rw [if_pos ‹_›]
    exact compileFor_keeps hsound c r hrefused
  · rw [if_neg ‹_›]
    exact requireFor_keeps hsound c r hrefused

/-- A request that is refused leaves the session untouched exactly if it was not admitted, or asked
for no namespace but the current one; if it was admitted, it leaves the session as going to the
namespace leaves it. -/
theorem untouched_iff_of_refused (hs : s.Reachable)
    (hrefused : (dispatch s c r).2.2.isOk = false) :
    (s.Untouched (dispatch s c r).1 ↔ (r.Admitted s → r.ns = "" ∨ r.ns = s.ns)) ∧
      (r.Admitted s → (s.switchTo r.ns).Untouched (dispatch s c r).1) := by
  refine ⟨⟨fun huntouched hadmitted => ?_, fun hstays => ?_⟩, (moved_of_refused hs · hrefused)⟩
  · -- the namespace that was asked for is the one before
    have hmoved := moved_of_refused hs hadmitted hrefused
    have hns : (s.switchTo r.ns).ns = s.ns := hmoved.frame.ns.symm.trans huntouched.frame.ns
    by_contra hother
    have hswitch : s.switchTo r.ns = { s with frame := .enter s.frame.env r.ns } := by
      unfold Session.switchTo
      exact if_neg (by simpa using hother)
    rw [hswitch] at hns
    exact hother (.inr hns)
  · by_cases hadmitted : r.Admitted s
    · have hmoved := moved_of_refused hs hadmitted hrefused
      have hswitch : s.switchTo r.ns = s := by
        unfold Session.switchTo
        exact if_pos (by simpa using hstays hadmitted)
      rwa [hswitch] at hmoved
    · rw [dispatch_of_not_admitted hadmitted]
      exact .refl s

/-- A request that cannot be read, for another namespace than the current one. -/
def strayRequest : Request := { op := "compile", id := 1, ns := "other", module := "m", source := "(" }

/-- The session is in the namespace that was asked for, which was not there before. -/
theorem untouched_iff_of_refused_stray :
    Session.start.Reachable ∧
      (dispatch .start Session.hostCompiler strayRequest).2.2.isOk = false ∧
      (Session.start.switchTo "other").Untouched
        (dispatch .start Session.hostCompiler strayRequest).1 := by
  have hnew : Session.new none .host = .ok .start := rfl
  have hstart : Session.start.Reachable := .new hnew
  have hrefused : (dispatch .start Session.hostCompiler strayRequest).2.2.isOk = false := by
    decide +kernel
  have hadmitted : strayRequest.Admitted .start := ⟨.inl rfl, rfl⟩
  exact ⟨hstart, hrefused, (untouched_iff_of_refused hstart hrefused).2 hadmitted⟩

/-- A refused request can leave its session in another namespace. -/
theorem namespace_left_by_refused :
    (dispatch .start Session.hostCompiler strayRequest).2.2.isOk = false ∧
      ¬ Session.start.Untouched (dispatch .start Session.hostCompiler strayRequest).1 := by
  refine ⟨by decide +kernel, fun huntouched => ?_⟩
  have hns : (dispatch .start Session.hostCompiler strayRequest).1.ns ≠ Session.start.ns := by
    decide +kernel
  exact hns huntouched.frame.ns

end WasmLisp.Service
