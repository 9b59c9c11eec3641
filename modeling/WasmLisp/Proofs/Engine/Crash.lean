import Mathlib
import WasmLisp.Proofs.Engine

/-!
# Where an engine can crash

An engine crashes where it takes something for granted: that a function which was promised is there, and
that a function which comes back has a result. Nothing that is found out about an artifact before it is
instantiated, and no registration, takes anything for granted. What goes wrong there is reported.

* `Engine.crashed_invokeForValue_iff`: a function that is called for its value crashes the engine if it
  comes back without one (`Engine.ComesBackEmpty`), which only a function without results does;
* `Engine.crashed_prepare` and `Engine.crashed_resolveAll`: no crash while an artifact is inspected and
  while providers are looked for.
-/

namespace WasmLisp.Engine

variable {e : Engine} {module name : String} {i : Binary.Import} {w : Want} {p : Plan}

/-- A step that does not crash, and others that do not crash after it. -/
theorem crashed_bind {α β : Type} {r : Result α} {f : α → Result β} (hr : crashed r = false)
    (hf : ∀ a, crashed (f a) = false) : crashed (r >>= f) = false := by
  cases r with
  | ok a => exact hf a
  | error failure => exact hr

theorem crashed_map {α β : Type} (r : Result α) (f : α → β) : crashed (r.map f) = crashed r := by
  cases r <;> rfl

/-- To say more of all failures but crashes makes no crash, and hides none. -/
theorem crashed_mapError {α : Type} (r : Result α) {f : Failure → Failure}
    (hsame : ∀ failure : Failure, failure.isCrash = true → f failure = failure)
    (hother : ∀ failure : Failure, failure.isCrash = false → (f failure).isCrash = false) :
    crashed (r.mapError f) = crashed r := by
  cases r with
  | ok a => rfl
  | error failure =>
    show (f failure).isCrash = failure.isCrash
    cases hcrash : failure.isCrash with
    | true => rw [hsame failure hcrash, hcrash]
    | false => exact hother failure hcrash

/-! ## Functions that are called -/

/-- A function that is called comes back with as many values as its type says, or fails without a
crash. -/
theorem invoke_ends (e : Engine) (a : Nat) (args : List Int64) :
    (∃ vs f, (e.invoke a args).2 = .values vs ∧ e.store.funcs[a]? = some f ∧
      vs.length = f.type.results.length) ∨
    ∃ reason : Failure, (e.invoke a args).2 = .failed reason ∧ reason.isCrash = false := by
  unfold invoke
  dsimp only
  split
  · exact .inr ⟨_, rfl, rfl⟩
  split
  · rename_i vs store w hdone
    obtain ⟨f, hf, hlength⟩ := Machine.length_of_invoke_done hdone
    exact .inl ⟨vs, f, rfl, hf, hlength⟩
  · exact .inr ⟨_, rfl, rfl⟩
  · exact .inr ⟨_, rfl, rfl⟩

/-- A function comes back without a value. -/
def ComesBackEmpty (e : Engine) (a : Nat) (args : List Int64) : Prop :=
  (e.invoke a args).2 = .values []

theorem crashed_invokeForValue_iff (e : Engine) (a : Nat) (args : List Int64) :
    crashed (e.invokeForValue a args).2 = true ↔ e.ComesBackEmpty a args := by
  have hcases := invoke_ends e a args
  unfold invokeForValue ComesBackEmpty
  generalize e.invoke a args = out at hcases ⊢
  rcases out with ⟨e₁, vs | reason⟩
  · cases vs with
    | nil => exact iff_of_true rfl rfl
    | cons v vs => exact iff_of_false Bool.false_ne_true (by simp)
  · rcases hcases with ⟨vs, f, hvalues, -⟩ | ⟨reason', hfailed, hreason⟩
    · cases hvalues
    · cases hfailed
      exact iff_of_false (ne_true_of_eq_false hreason) (by simp)

/-- Only a function that has no results comes back without a value. -/
theorem ComesBackEmpty.results {a : Nat} {args : List Int64} (h : e.ComesBackEmpty a args) :
    ∃ f, e.store.funcs[a]? = some f ∧ f.type.results = [] := by
  rcases invoke_ends e a args with ⟨vs, f, hvalues, hf, hlength⟩ | ⟨reason, hfailed, -⟩
  · obtain rfl : vs = [] := CallEnd.values.inj (hvalues.symm.trans h)
    exact ⟨f, hf, List.length_eq_zero_iff.mp hlength.symm⟩
  · cases hfailed.symm.trans h

/-! ## Before an artifact starts -/

theorem crashed_checkGlobals (e : Engine) (module : String) (names : List String) :
    crashed (e.checkGlobals module names) = false := by
  induction names with
  | nil => rfl
  | cons g names ih =>
    unfold checkGlobals
    split
    · rfl
    · rfl
    · exact ih

theorem crashed_manifestOf (art : Artifact) (info : Binary.Info) (name : String) :
    crashed (manifestOf art info name) = false := by
  unfold manifestOf
  split
  · rfl
  · split <;> rfl

/-- No artifact makes its inspection crash. -/
theorem crashed_prepare (e : Engine) (art : Artifact) (name : String) :
    crashed (e.prepare art name) = false := by
  unfold prepare
  cases Binary.Info.inspect art.bytes with
  | error fault => rfl
  | ok info =>
    refine crashed_bind (r := .ok info) rfl fun info => ?_
    refine crashed_bind (crashed_manifestOf art info name) fun manifest => ?_
    exact crashed_bind (crashed_checkGlobals e name info.exportedGlobals) fun _ => rfl

theorem crashed_register (r : Registry) (s : Registry.Foreign) (origin : String) :
    crashed (r.register s origin) = false := by
  unfold Registry.register
  split
  · rfl
  split
  · split <;> rfl
  · rfl

theorem crashed_fromRegistry {r : Result Plan} (h : e.fromRegistry module i w p = some r) :
    crashed r = false := by
  simp only [fromRegistry, bind, pure, Option.bind_eq_some_iff, Option.some.injEq] at h
  obtain ⟨record, -, rfl⟩ := h
  split
  · rfl
  split
  · rfl
  split <;> rfl

theorem crashed_fromModules {r : Result Plan} (h : e.fromModules module i w p = some r) :
    crashed r = false := by
  unfold fromModules at h
  split at h
  · obtain ⟨owner, -, rfl⟩ := Option.map_eq_some_iff.mp h
    rfl
  · obtain ⟨provider, -, rfl⟩ := Option.map_eq_some_iff.mp h
    split <;> rfl

theorem crashed_fromCatalog {r : Engine × Result Plan} (h : e.fromCatalog module i w p = some r) :
    crashed r.2 = false := by
  simp only [fromCatalog, bind, Option.bind_eq_some_iff] at h
  obtain ⟨c, -, ⟨symbol, lib⟩, -, h⟩ := h
  have hregister := crashed_register e.registry symbol (Registry.libraryOrigin lib)
  split at h
  · rename_i failure heq
    cases h
    rw [heq] at hregister
    exact hregister
  · obtain ⟨r, hr, rfl⟩ := Option.map_eq_some_iff.mp h
    exact crashed_fromRegistry hr

theorem crashed_resolveImport (e : Engine) (module : String) (info : Binary.Info) (i : Binary.Import)
    (p : Plan) : crashed (e.resolveImport module info i p).2 = false := by
  unfold resolveImport
  split
  · unfold resolveEnv
    split
    · rfl
    · rename_i w _
      split
      · rename_i r hr
        rcases Option.or_eq_some_iff.mp hr with hr | ⟨-, hr⟩
        · exact crashed_fromRegistry hr
        · exact crashed_fromModules hr
      · cases hr : e.fromCatalog module i w p with
        | none => rfl
        | some r => exact crashed_fromCatalog hr
  split
  · rfl
  split <;> rfl

/-- Neither does the search for providers. -/
theorem crashed_resolveAll (e : Engine) (module : String) (info : Binary.Info) (p : Plan)
    (imports : List Binary.Import) : crashed (e.resolveAll module info p imports).2 = false := by
  induction imports generalizing e p with
  | nil => rfl
  | cons i imports ih =>
    have hfirst := crashed_resolveImport e module info i p
    unfold resolveAll
    split
    · rename_i failure heq
      rw [heq] at hfirst
      exact hfirst
    · exact ih _ _

end WasmLisp.Engine
