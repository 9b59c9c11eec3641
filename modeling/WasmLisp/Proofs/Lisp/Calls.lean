import Mathlib
import WasmLisp.Lisp
import WasmLisp.Proofs.Session

/-!
# Calls of an evaluator

* `Evaluator.Call`: what can be asked of an evaluator, and `Evaluator.runAll`: what calls lead to that
  all succeed;
* `Evaluator.Call.handed`, `Evaluator.Call.loads`: the units that a call hands to the compiler, and the
  modules that it hands to the engine;
* `Evaluator.moduleName_inj` and the like: no two modules of an evaluator have the same name.
-/

namespace WasmLisp

/-! ## Names of modules -/

/-- The name of the module that a number of evaluation gets. -/
def Evaluator.moduleName (stem : String) (n : Nat) : String := s!"{stem}${n}"

namespace Evaluator

variable {stem : String} {n m i j : Nat}

theorem toList_moduleName (stem : String) (n : Nat) :
    (moduleName stem n).toList = stem.toList ++ '$' :: (toString n).toList := by
  have hdollar : "$".toList = ['$'] := String.toList_ofList
  show (stem ++ "$" ++ toString n).toList = _
  rw [String.toList_append, String.toList_append, hdollar, List.append_assoc, List.singleton_append]

theorem toList_numbered (x : String) (i : Nat) :
    (s!"{x}.{i}").toList = x.toList ++ '.' :: (toString i).toList := by
  have hdot : ".".toList = ['.'] := String.toList_ofList
  show (x ++ "." ++ toString i).toList = _
  rw [String.toList_append, String.toList_append, hdot, List.append_assoc, List.singleton_append]

/-- The numbers of the modules of one request tell them apart. -/
theorem numbered_inj {x y : String} (h : s!"{x}.{i}" = s!"{y}.{j}") : x = y ∧ i = j := by
  have hlist := congrArg String.toList h
  rw [toList_numbered, toList_numbered] at hlist
  obtain ⟨hfirst, hlast⟩ := append_cons_inj (notMem_toString (by decide) i)
    (notMem_toString (by decide) j) hlist
  exact ⟨String.toList_inj.mp hfirst, toString_toList_inj hlast⟩

theorem moduleName_inj (h : moduleName stem n = moduleName stem m) : n = m := by
  have hlist := congrArg String.toList h
  rw [toList_moduleName, toList_moduleName] at hlist
  exact toString_toList_inj (List.cons.inj (List.append_cancel_left hlist)).2

theorem requiredName_inj (h : Session.moduleName stem n i = Session.moduleName stem m j) :
    n = m ∧ i = j :=
  (numbered_inj h).imp_left moduleName_inj

/-- The modules of evaluations and those that are required have different names: only the latter have
a dot after the last dollar sign. -/
theorem moduleName_ne_requiredName : moduleName stem n ≠ Session.moduleName stem m i := by
  intro h
  have hlist : (moduleName stem n).toList = (s!"{moduleName stem m}.{i}").toList :=
    congrArg String.toList h
  rw [toList_numbered, toList_moduleName, toList_moduleName, List.append_assoc] at hlist
  have hdigits := (List.cons.inj (List.append_cancel_left hlist)).2
  refine notMem_toString (c := '.') (by decide) n ?_
  rw [hdigits]
  simp

/-! ## Calls -/

/-- What can be asked of an evaluator. -/
inductive Call where
  | eval (src : String)
  | require (src : String)
  deriving DecidableEq, Repr

namespace Call

/-- The evaluator and the Lisp after a call, and whether it succeeded. -/
def run (v : Evaluator) (s : Lisp) : Call → Evaluator × Lisp × Result Unit
  | .eval src =>
    let (v, s, r) := v.eval s src
    (v, s, r.map fun _ => ())
  | .require src =>
    let (v, s, r) := v.require s src
    (v, s, r.map fun _ => ())

/-- The request that a call makes to the session. -/
def request (v : Evaluator) : Call → Session.Request
  | .eval src => .compile (moduleName modulePrefix (v.evals + 1)) src
  | .require src => .require modulePrefix src

/-- The units that a call hands to the compiler. -/
def handed (v : Evaluator) (s : Lisp) (c : Call) : List CompUnit :=
  (v.session.switchTo v.ns).handed s.compiler (c.request v)

end Call

/-- The modules that are loaded one after the other, each with the engine that it is loaded into. -/
def loadsOf (e : Engine) (ns : String) : List Compiled → List (Engine × Compiled)
  | [] => []
  | c :: rest =>
    (e, c) :: match e.load ns (some c.artifact) c.module with
      | (_, _, .error _) => []
      | (e, ns, .ok _) => loadsOf e ns rest

/-- The modules that a call loads, each with the engine that it is loaded into. -/
def Call.loads (v : Evaluator) (s : Lisp) (c : Call) : List (Engine × Compiled) :=
  match ((v.session.switchTo v.ns).handle s.compiler (c.request v)).2.2 with
  | .compiled (.ok m) => loadsOf s.engine v.ns [m]
  | .required (.ok q) => loadsOf s.engine v.ns q.modules
  | _ => []

/-- The evaluator and the Lisp after calls one after the other, if all of them succeed. -/
def runAll (v : Evaluator) (s : Lisp) : List Call → Option (Evaluator × Lisp)
  | [] => some (v, s)
  | c :: rest =>
    match c.run v s with
    | (_, _, .error _) => none
    | (v, s, .ok _) => runAll v s rest

/-- The units that calls hand to the compiler, one after the other. -/
def handedAll (v : Evaluator) (s : Lisp) : List Call → List CompUnit
  | [] => []
  | c :: rest => c.handed v s ++ handedAll (c.run v s).1 (c.run v s).2.1 rest

/-- Something holds of every call when it is made. -/
def Along (P : Evaluator → Lisp → Call → Prop) (v : Evaluator) (s : Lisp) : List Call → Prop
  | [] => True
  | c :: rest => P v s c ∧ Along P (c.run v s).1 (c.run v s).2.1 rest

instance Along.decidable {P : Evaluator → Lisp → Call → Prop} [∀ v s c, Decidable (P v s c)] :
    ∀ v s calls, Decidable (Along P v s calls)
  | _, _, [] => isTrue trivial
  | v, s, c :: rest =>
    have := Along.decidable (P := P) (c.run v s).1 (c.run v s).2.1 rest
    inferInstanceAs (Decidable (P v s c ∧ _))

/-- Calls leave the backends of the compiler as they are. -/
theorem Call.run_backends (v : Evaluator) (s : Lisp) (c : Call) :
    (c.run v s).2.1.compiler.backends = s.compiler.backends := by
  have hkept := Session.handle_backends (v.session.switchTo v.ns) s.compiler (c.request v)
  unfold Session.handle Call.request at hkept
  cases c with
  | eval src =>
    unfold Call.run Evaluator.eval
    unfold moduleName at hkept
    dsimp only at hkept ⊢
    generalize Session.compile _ _ _ _ = compiled at hkept ⊢
    obtain ⟨session, compiler, failure | m⟩ := compiled <;> exact hkept
  | require src =>
    unfold Call.run Evaluator.require
    dsimp only at hkept ⊢
    generalize Session.require _ _ _ _ = required at hkept ⊢
    obtain ⟨session, compiler, failure | q⟩ := required <;> exact hkept

end Evaluator

end WasmLisp
