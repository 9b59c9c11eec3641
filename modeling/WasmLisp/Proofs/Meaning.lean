import Mathlib
import WasmLisp.Machine.Run
import WasmLisp.Proofs.Codegen.Layout

/-!
# What a unit means

Evaluation of nodes without any code: locals by their names, calls by the bodies of the functions.
What is not in the unit or its preamble is outside, and evaluation shows what it does there. Calls
of functions use up fuel, and so may what happens outside; evaluation without enough of it gives
nothing.
-/

namespace WasmLisp

open Machine (Trap)

/-- What evaluation does outside. -/
inductive Event where
  | call (name : String) (args : List Int64)
  | readVar (name : String)
  | bindVar (name : String) (value : Int64)
  | write (name : String) (value : Int64)
  deriving DecidableEq, Repr

/-- Evaluation with a state: nothing if the fuel was not enough, or else what it did outside, the
state that it left, and a value or why it failed. -/
def Eval (τ α : Type) : Type := τ → Option (List Event × τ × Except Trap α)

namespace Eval

variable {τ α β : Type}

instance : Monad (Eval τ) where
  pure a := fun s => some ([], s, .ok a)
  bind x f := fun s =>
    match x s with
    | none => none
    | some (events, s, .error t) => some (events, s, .error t)
    | some (events, s, .ok a) => (f a s).map fun (more, s, r) => (events ++ more, s, r)

section

variable {x : Eval τ α} {f : α → Eval τ β} {s s' : τ} {events : List Event}

theorem bind_of_none (h : x s = none) : (x >>= f) s = none := by
  simp only [bind, h]

theorem bind_of_error {t : Trap} (h : x s = some (events, s', .error t)) :
    (x >>= f) s = some (events, s', .error t) := by
  simp only [bind, h]

theorem bind_of_ok {a : α} (h : x s = some (events, s', .ok a)) :
    (x >>= f) s = (f a s').map fun r => (events ++ r.1, r.2) := by
  simp only [bind, h]

end

instance : LawfulMonad (Eval τ) := by
  refine LawfulMonad.mk' _ ?_ ?_ ?_
  · intro α x
    funext s
    simp only [Functor.map]
    rcases x s with _ | ⟨events, s, _ | a⟩
    · rfl
    · rfl
    · show some (events ++ [], s, Except.ok a) = _
      rw [List.append_nil]
  · intro α β a f
    funext s
    simp only [bind, pure]
    rcases f a s with _ | ⟨events, s, r⟩ <;> simp
  · intro α β γ x f g
    funext s
    simp only [bind]
    rcases x s with _ | ⟨events, s, _ | a⟩
    · rfl
    · rfl
    · simp only
      rcases f a s with _ | ⟨more, s, _ | b⟩
      · rfl
      · rfl
      · simp only [Option.map_some]
        rcases g b s with _ | ⟨rest, s, r⟩ <;> simp

/-- Fails. -/
def fail (t : Trap) : Eval τ α := fun s => some ([], s, .error t)

/-- The fuel was not enough. -/
def exhausted : Eval τ α := fun _ => none

/-- The result of an operation that does not touch the state. -/
def lift (r : Except Trap α) : Eval τ α := fun s => some ([], s, r)

/-- An event, and then what happens at it. -/
def doing (e : Event) (x : τ → Option (τ × Except Trap α)) : Eval τ α := fun s =>
  (x s).map fun (s, r) => ([e], s, r)

/-- What happens outside, and then a function of its result. -/
theorem doing_map (e : Event) (x : τ → Option (τ × Except Trap α)) (f : α → β) :
    (doing e fun s => (x s).map fun r => (r.1, r.2.map f)) =
      doing e x >>= fun a => pure (f a) := by
  funext s
  simp only [doing, bind, pure]
  rcases x s with _ | ⟨s, _ | a⟩ <;> rfl

end Eval

/-- What is outside of a unit, with a state of its own. What is called there can run on, which the
fuel bounds. -/
structure Outside (τ : Type) where
  call : (fuel : Nat) → (name : String) → (args : List Int64) → τ → Option (τ × Except Trap Int64)
  readVar : (fuel : Nat) → (name : String) → τ → Option (τ × Except Trap Int64)
  bindVar : (fuel : Nat) → (name : String) → Int64 → τ → Option (τ × Except Trap Unit)
  get : (name : String) → τ → Int64
  set : (name : String) → Int64 → τ → τ

namespace Meaning

/-- The value of a primitive. Arithmetic wraps around; division fails where it has no result. -/
def primitive (op : String) (args : List Int64) : Except Trap Int64 :=
  match op, args with
  | "+", args => .ok (args.foldl (· + ·) 0)
  | "*", args => .ok (args.foldl (· * ·) 1)
  | "-", [a] => .ok (-a)
  | "-", a :: rest => .ok (rest.foldl (· - ·) a)
  | "quot", [a, b] =>
    if b = 0 then .error .divideByZero
    else if a = Int64.minValue ∧ b = -1 then .error .overflow
    else .ok (a / b)
  | "rem", [a, b] => if b = 0 then .error .divideByZero else .ok (a % b)
  | "<", [a, b] => .ok (if a < b then 1 else 0)
  | ">", [a, b] => .ok (if b < a then 1 else 0)
  | "<=", [a, b] => .ok (if a ≤ b then 1 else 0)
  | ">=", [a, b] => .ok (if b ≤ a then 1 else 0)
  | "=", [a, b] => .ok (if a = b then 1 else 0)
  | "not=", [a, b] => .ok (if a ≠ b then 1 else 0)
  | "not", [a] => .ok (if a = 0 then 1 else 0)
  | _, _ => .error .stuck

section Primitive

variable (a b : Int64) (args : List Int64)

@[simp]
theorem primitive_add : primitive "+" args = .ok (args.foldl (· + ·) 0) := rfl

@[simp]
theorem primitive_mul : primitive "*" args = .ok (args.foldl (· * ·) 1) := rfl

@[simp]
theorem primitive_neg : primitive "-" [a] = .ok (-a) := rfl

@[simp]
theorem primitive_sub :
    primitive "-" (a :: b :: args) = .ok ((b :: args).foldl (· - ·) a) := rfl

@[simp]
theorem primitive_quot : primitive "quot" [a, b] =
    if b = 0 then .error .divideByZero
    else if a = Int64.minValue ∧ b = -1 then .error .overflow
    else .ok (a / b) := rfl

@[simp]
theorem primitive_rem :
    primitive "rem" [a, b] = if b = 0 then .error .divideByZero else .ok (a % b) := rfl

@[simp]
theorem primitive_lt : primitive "<" [a, b] = .ok (if a < b then 1 else 0) := rfl

@[simp]
theorem primitive_gt : primitive ">" [a, b] = .ok (if b < a then 1 else 0) := rfl

@[simp]
theorem primitive_le : primitive "<=" [a, b] = .ok (if a ≤ b then 1 else 0) := rfl

@[simp]
theorem primitive_ge : primitive ">=" [a, b] = .ok (if b ≤ a then 1 else 0) := rfl

@[simp]
theorem primitive_eq : primitive "=" [a, b] = .ok (if a = b then 1 else 0) := rfl

@[simp]
theorem primitive_ne : primitive "not=" [a, b] = .ok (if a ≠ b then 1 else 0) := rfl

@[simp]
theorem primitive_not : primitive "not" [a] = .ok (if a = 0 then 1 else 0) := rfl

end Primitive

/-- Local names and their values, the innermost first. -/
abbrev Locals := List (String × Int64)

/-- What calls of pairs give. -/
abbrev Calls (τ : Type) := (ns name : String) → List Int64 → Eval τ Int64

section

variable {τ : Type} (o : Outside τ) (fuel : Nat) (calls : Calls τ)

mutual

/-- The value of an expression. -/
def value (locals : Locals) : Node → Eval τ Int64
  | .absent => pure 0
  | .const v => pure v
  | .localVar name =>
    match locals.lookup name with
    | some v => pure v
    | none => .fail .stuck
  | .varRef ns name =>
    .doing (.readVar (Symbol.qualify ns name)) (o.readVar fuel (Symbol.qualify ns name))
  | .bindVar ns name init => do
    let v ← value locals init
    .doing (.bindVar (Symbol.qualify ns name) v) (o.bindVar fuel (Symbol.qualify ns name) v)
    return v
  | .defn _ _ _ _ => pure 0
  | .defGlobal _ init => pure init
  | .invoke ns name args => do calls ns name (← values locals args)
  | .foreignCall name args => do
    let vs ← values locals args
    .doing (.call name vs) (o.call fuel name vs)
  | .foreignGet name => fun s => some ([], s, .ok (o.get name s))
  | .foreignSet name stored => do
    let v ← value locals stored
    .doing (.write name v) fun s => some (o.set name v s, .ok v)
  | .prim op args => do .lift (primitive op (← values locals args))
  | .ifElse cond thenB elseB => do
    let v ← value locals cond
    if v ≠ 0 then value locals thenB else value locals elseB
  | .letIn bindings body => do value (← bind locals bindings) body
  | .seq forms => sequence locals forms

/-- The values of expressions from the first to the last. -/
def values (locals : Locals) : List Node → Eval τ (List Int64)
  | [] => pure []
  | n :: rest => do
    let v ← value locals n
    let vs ← values locals rest
    return v :: vs

/-- The value of the last of some expressions, which are evaluated in order. -/
def sequence (locals : Locals) : List Node → Eval τ Int64
  | [] => pure 0
  | [n] => value locals n
  | n :: rest => do
    let _ ← value locals n
    sequence locals rest

/-- The locals with bindings, each of which sees those before it. -/
def bind (locals : Locals) : List (String × Node) → Eval τ Locals
  | [] => pure locals
  | (name, n) :: rest => do
    let v ← value locals n
    bind ((name, v) :: locals) rest

end

end

/-- There are as many values as expressions. -/
theorem values_bind_congr {τ β : Type} {o : Outside τ} {fuel : Nat} {calls : Calls τ}
    {locals : Locals} {ns : List Node} {f g : List Int64 → Eval τ β}
    (h : ∀ vs, vs.length = ns.length → f vs = g vs) :
    values o fuel calls locals ns >>= f = values o fuel calls locals ns >>= g := by
  induction ns generalizing f g with
  | nil =>
    rw [values, pure_bind, pure_bind]
    exact h [] rfl
  | cons n ns ih =>
    rw [values]
    simp only [bind_assoc, pure_bind]
    congr 1
    funext v
    exact ih fun vs hvs => h (v :: vs) (by simp [hvs])

variable {τ : Type}

/-- The value of a call: that of the body of the function if the unit or its preamble has it, and
otherwise a function outside is called. -/
def call (o : Outside τ) (u : CompUnit) (fns : List Defn) : (fuel : Nat) → Calls τ
  | fuel, ns, name, args =>
    match Codegen.callee? u fns (ns, name), fuel with
    | none, fuel =>
      .doing (.call (Symbol.qualify ns name) args) (o.call fuel (Symbol.qualify ns name) args)
    | some _, 0 => .exhausted
    | some d, fuel + 1 => value o fuel (call o u fns fuel) (d.params.zip args).reverse d.body

section

variable {o : Outside τ} {u : CompUnit} {fns : List Defn} {ns name : String} {args : List Int64}

theorem call_outside (h : Codegen.callee? u fns (ns, name) = none) (fuel : Nat) :
    call o u fns fuel ns name args =
      .doing (.call (Symbol.qualify ns name) args) (o.call fuel (Symbol.qualify ns name) args) := by
  unfold call
  rw [h]

theorem call_zero {d : Defn} (h : Codegen.callee? u fns (ns, name) = some d) :
    call o u fns 0 ns name args = .exhausted := by
  unfold call
  rw [h]

theorem call_succ {d : Defn} (h : Codegen.callee? u fns (ns, name) = some d) (fuel : Nat) :
    call o u fns (fuel + 1) ns name args =
      value o fuel (call o u fns fuel) (d.params.zip args).reverse d.body := by
  rw [call.eq_def]
  dsimp only
  rw [h]

end

/-- The value of a unit: its forms are evaluated in order, and the last gives the value. -/
def ofUnit (o : Outside τ) (u : CompUnit) (fns : List Defn) (fuel : Nat) : Eval τ Int64 :=
  sequence o fuel (call o u fns fuel) [] u.forms

end Meaning

end WasmLisp
