import Mathlib
import WasmLisp.Machine.Run

/-!
# Names make no difference to a run

Instances have names, and host functions have labels. Linking and traces need them; steps go by
addresses. So a run in a store without names is the same run (`Config.run_nameless`, `invoke_nameless`).
-/

namespace WasmLisp.Machine

variable {η σ : Type}

/-! ## Without names -/

/-- The function without the label that a trace shows. -/
def Callee.unlabelled : Callee η → Callee η
  | .host handle _ t => .host handle "" t
  | .code inst index t locals body => .code inst index t locals body

/-- A label is no part of the type. -/
@[simp]
theorem Callee.type_unlabelled (c : Callee η) : c.unlabelled.type = c.type := by
  cases c <;> rfl

/-- The instance without its name. -/
def Instance.nameless (i : Instance) : Instance := { i with name := "" }

/-- The store without labels and names. -/
def Store.nameless (s : Store η) : Store η :=
  { s with funcs := s.funcs.map Callee.unlabelled, instances := s.instances.map Instance.nameless }

/-- An outcome with the names taken off its store. -/
def Outcome.nameless : Outcome η σ → Outcome η σ
  | .done values s w => .done values s.nameless w
  | .trap cause active s w => .trap cause active s.nameless w
  | .outOfFuel s w => .outOfFuel s.nameless w

/-- A moment of a run with the names taken off its store. -/
def Config.nameless (c : Config η σ) : Config η σ := { c with store := c.store.nameless }

/-- A step with the names taken off what it leads to. -/
def Step.nameless : Step η σ → Step η σ
  | .next c => .next c.nameless
  | .stop o => .stop o.nameless

/-! ## Runs -/

namespace Config

variable (host : HostCall η σ) (c : Config η σ)

/-- An instance stays in its place. -/
@[simp]
theorem getElem?_instances_nameless (i : Nat) :
    c.nameless.store.instances[i]? = (c.store.instances[i]?).map Instance.nameless := by
  simp only [nameless, Store.nameless, Array.getElem?_map]

/-- A function is found by its index in the instance that runs. -/
@[simp]
theorem funcAddress?_nameless (i : Nat) : c.nameless.funcAddress? i = c.funcAddress? i := by
  simp only [funcAddress?, getElem?_instances_nameless, Option.bind_map]
  rfl

/-- So is a global. -/
@[simp]
theorem globalAddress?_nameless (i : Nat) : c.nameless.globalAddress? i = c.globalAddress? i := by
  simp only [globalAddress?, getElem?_instances_nameless, Option.bind_map]
  rfl

@[simp]
theorem blockArity_nameless (t : BlockType) : c.nameless.blockArity t = c.blockArity t := by
  cases t with
  | empty | value => rfl
  | signature i =>
    simp only [blockArity, getElem?_instances_nameless, Option.bind_map]
    rfl

/-- A function hands over its values whatever the instances are called. -/
theorem leave_nameless : c.nameless.leave = c.leave.nameless := by
  obtain ⟨store, world, frame, callers, depth, limit⟩ := c
  by_cases hstuck : (frame.stack.take frame.results).length < frame.results
  · simp only [leave, nameless, hstuck, if_true]
    rfl
  · simp only [leave, nameless, hstuck, if_false]
    cases callers <;> rfl

/-- A branch goes to the same place. -/
theorem branch_nameless (l : Nat) : c.nameless.branch l = (c.branch l).nameless := by
  obtain ⟨store, world, frame, callers, depth, limit⟩ := c
  simp only [branch, nameless]
  cases frame.labels.drop l with
  | nil => exact leave_nameless { store, world, frame, callers, depth, limit }
  | cons label outer => rfl

/-- A call enters the same function, and a host function gets the same arguments. -/
theorem call_nameless (address : Nat) (rest : List Instr) :
    c.nameless.call host address rest = (c.call host address rest).nameless := by
  have hfuncs : c.nameless.store.funcs[address]? =
      (c.store.funcs[address]?).map Callee.unlabelled := by
    simp only [nameless, Store.nameless, Array.getElem?_map]
  unfold call
  rw [hfuncs]
  obtain ⟨store, world, frame, callers, depth, limit⟩ := c
  simp only [nameless]
  cases store.funcs[address]? with
  | none => rfl
  | some callee =>
    cases callee with
    | host handle label t =>
      simp only [Option.map_some, Callee.unlabelled, Callee.type]
      cases hostAnswer t (host handle (frame.stack.take t.params.length).reverse world).2 <;> rfl
    | code inst index t locals body =>
      simp only [Option.map_some, Callee.unlabelled, Callee.type]
      by_cases hfull : isFull { store, world, frame, callers, depth, limit }
      · rw [if_pos hfull]
        exact if_pos hfull
      · rw [if_neg hfull]
        exact if_neg hfull

/-- No instruction looks at a name. -/
theorem exec_nameless (i : Instr) (rest : List Instr) :
    c.nameless.exec host i rest = (c.exec host i rest).nameless := by
  have hframe : c.nameless.frame = c.frame := rfl
  cases i with
  | br l => exact c.branch_nameless l
  | ret => exact c.leave_nameless
  | call j =>
    simp only [exec, funcAddress?_nameless]
    cases c.funcAddress? j with
    | none => rfl
    | some a => exact c.call_nameless host a rest
  | brIf l =>
    simp only [exec, hframe]
    cases c.frame.stack with
    | nil => rfl
    | cons v stack =>
      dsimp only
      split
      · rfl
      · exact branch_nameless { c with frame := { c.frame with stack } } l
  | globalGet j =>
    simp only [exec, globalAddress?_nameless]
    cases c.globalAddress? j <;> rfl
  | globalSet j =>
    cases hst : c.frame.stack with
    | nil =>
      simp only [exec, hframe, hst]
      rfl
    | cons v stack =>
      simp only [exec, hframe, hst, globalAddress?_nameless]
      cases c.globalAddress? j <;> rfl
  | block t | loop t =>
    simp only [exec, blockArity_nameless]
    rfl
  | ifElse t =>
    simp only [exec, blockArity_nameless, hframe]
    cases c.frame.stack <;> rfl
  | unreachable | nop | localGet | i32Const | i64Const => rfl
  | drop | localSet | localTee | eqz | wrap | extendS | extendU =>
    simp only [exec, hframe]
    cases c.frame.stack <;> rfl
  | rel w op =>
    simp only [exec, hframe]
    rcases c.frame.stack with _ | ⟨b, _ | ⟨a, stack⟩⟩ <;> rfl
  | bin w op =>
    simp only [exec, hframe]
    rcases c.frame.stack with _ | ⟨b, _ | ⟨a, stack⟩⟩
    · rfl
    · rfl
    · dsimp only
      cases binary w op a b <;> rfl
  | select =>
    simp only [exec, hframe]
    rcases c.frame.stack with _ | ⟨v, _ | ⟨b, _ | ⟨a, stack⟩⟩⟩ <;> rfl

/-- A step in a store without names is the same step. -/
theorem step_nameless : c.nameless.step host = (c.step host).nameless := by
  have hframe : c.nameless.frame = c.frame := rfl
  unfold step
  rw [hframe]
  cases c.frame.code with
  | cons i rest => exact c.exec_nameless host i rest
  | nil =>
    cases c.frame.labels with
    | nil => exact c.leave_nameless
    | cons label outer => rfl

/-- A run in a store without names is the same run. -/
theorem run_nameless (fuel : Nat) (c : Config η σ) :
    c.nameless.run host fuel = (c.run host fuel).nameless := by
  induction fuel generalizing c with
  | zero => rfl
  | succ fuel ih =>
    unfold run
    rw [step_nameless]
    cases c.step host with
    | next d => exact ih d
    | stop o => rfl

end Config

/-- A function that is called from outside does the same in a store without names. -/
theorem invoke_nameless (host : HostCall η σ) (s : Store η) (w : σ) (address : Nat)
    (args : List Int64) :
    invoke host s.nameless w address args = (invoke host s w address args).nameless := by
  have hfuncs : s.nameless.funcs[address]? = (s.funcs[address]?).map Callee.unlabelled := by
    simp only [Store.nameless, Array.getElem?_map]
  unfold invoke invokeWithin
  rw [hfuncs]
  cases s.funcs[address]? with
  | none => rfl
  | some callee =>
    cases callee with
    | host handle label t =>
      simp only [Option.map_some, Callee.unlabelled]
      cases hostAnswer t (host handle args w).2 <;> rfl
    | code inst index t locals body =>
      exact Config.run_nameless host enough
        { store := s, world := w, limit := some maxDepth
          frame := .start address inst t.results.length locals body args }

end WasmLisp.Machine
