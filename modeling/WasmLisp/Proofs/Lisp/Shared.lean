import Mathlib
import WasmLisp.Proofs.Lisp.Loading

/-!
# Users of one Lisp

Users have counters of their own and one engine, and the modules of their evaluations are named by the
counters alone. A name that is known to the engine is not loaded again.

* `Company`: users that join a Lisp and make calls in any order; `Company.evaluations` is what they
  evaluate, each with the user and the Lisp as they are at that moment;
* `Company.Logged`: what the engine knows of the evaluations so far (`Company.Logged.step`);
* `Company.first_evaluation_answers`: an evaluation is answered by the module that is compiled of its own
  source if no other user has evaluated as many sources before, and else with what the first of these gave
  that came to an end.
-/

namespace WasmLisp

open Evaluator (Call moduleName modulePrefix)

/-! ## Users -/

/-- A Lisp and its users, in the order in which they joined. -/
structure Company where
  lisp : Lisp
  users : List Evaluator := []

namespace Company

/-- What happens: somebody joins for a target, or a user makes a call. -/
inductive Act where
  | join (target : Target)
  | ask (user : Nat) (call : Call)
  deriving DecidableEq, Repr

/-- What an act leads to. Who is refused does not join, and only users make calls. -/
def step (x : Company) : Act → Company
  | .join target =>
    match Evaluator.new x.lisp target with
    | .error _ => x
    | .ok v => { x with users := x.users ++ [v] }
  | .ask user call =>
    match x.users[user]? with
    | none => x
    | some v => { lisp := (call.run v x.lisp).2.1, users := x.users.set user (call.run v x.lisp).1 }

/-- A user evaluates a source. The user and the Lisp are what they are before. -/
structure Evaluation where
  user : Nat
  evaluator : Evaluator
  lisp : Lisp
  src : String

namespace Evaluation

/-- Which of the evaluations of the user it is. -/
def number (y : Evaluation) : Nat := y.evaluator.evals + 1

/-- What the source is compiled to. -/
def compiled (y : Evaluation) : Result Compiled :=
  ((y.evaluator.session.switchTo y.evaluator.ns).compile y.lisp.compiler
    (moduleName modulePrefix y.number) y.src).2.2

/-- What the user gets. -/
def answer (y : Evaluation) : Result Int64 := (y.evaluator.eval y.lisp y.src).2.2

/-- The engine afterwards. -/
def engine (y : Evaluation) : Engine := (y.evaluator.eval y.lisp y.src).2.1.engine

/-- What the engine gives if it links a module, whatever has been loaded before. -/
def linked (y : Evaluation) (m : Compiled) : Result Int64 :=
  (y.lisp.engine.loadNew y.evaluator.ns m.artifact m.module).2.2.map (·.result)

/-- The source is compiled, and the load of the module ends: it succeeds or fails, and does not crash. -/
def Ends (y : Evaluation) : Prop := y.compiled.isOk = true ∧ Engine.crashed y.answer = false

end Evaluation

/-- The evaluation that an act is. -/
def evaluation? (x : Company) : Act → Option Evaluation
  | .ask user (.eval src) =>
    (x.users[user]?).map fun evaluator => { user, evaluator, lisp := x.lisp, src }
  | _ => none

/-- The evaluations that are asked for, one after the other. -/
def evaluations (x : Company) : List Act → List Evaluation
  | [] => []
  | a :: rest => (x.evaluation? a).toList ++ (x.step a).evaluations rest

/-! ### One evaluation -/

section

variable {y : Evaluation} {m : Compiled}

theorem Evaluation.exists_compiled (h : y.compiled.isOk = true) : ∃ m, y.compiled = .ok m := by
  cases hm : y.compiled with
  | ok m => exact ⟨m, rfl⟩
  | error failure =>
    rw [hm] at h
    cases h

theorem Evaluation.module_compiled (h : y.compiled = .ok m) :
    m.module = moduleName modulePrefix y.number := by
  rcases hcompile : (y.evaluator.session.switchTo y.evaluator.ns).compile y.lisp.compiler
    (moduleName modulePrefix y.number) y.src with ⟨session, compiler, r⟩
  rw [compiled, hcompile] at h
  cases h
  obtain ⟨_, _, _, art, -, -, -, rfl, -⟩ := Session.compile_eq_ok hcompile
  rfl

/-- What is compiled is loaded, and the load is what the user gets. -/
theorem Evaluation.loads (h : y.compiled = .ok m) :
    y.engine = (y.lisp.engine.load y.evaluator.ns (some m.artifact) m.module).1 ∧
      y.answer =
        (y.lisp.engine.load y.evaluator.ns (some m.artifact) m.module).2.2.map (·.result) := by
  unfold compiled at h
  unfold engine answer Evaluator.eval
  dsimp only
  rcases hcompile : (y.evaluator.session.switchTo y.evaluator.ns).compile y.lisp.compiler
    (moduleName modulePrefix y.number) y.src with ⟨session, compiler, r⟩
  rw [hcompile] at h
  cases h
  unfold number moduleName at hcompile
  rw [hcompile]
  exact ⟨rfl, rfl⟩

/-- What is not compiled is not loaded. -/
theorem Evaluation.loads_nothing (h : y.compiled.isOk = false) : y.engine = y.lisp.engine := by
  unfold compiled at h
  unfold engine Evaluator.eval
  dsimp only
  rcases hcompile : (y.evaluator.session.switchTo y.evaluator.ns).compile y.lisp.compiler
    (moduleName modulePrefix y.number) y.src with ⟨session, compiler, failure | m⟩
  · unfold number moduleName at hcompile
    rw [hcompile]
  · rw [hcompile] at h
    cases h

end

/-! ### What the engine knows of evaluations -/

/-- The engine is not closed, has an outcome for the evaluations that ended so far and for no others, and
has only gone on since each of them; and no user has a number twice. -/
structure Logged (log : List Evaluation) (x : Company) : Prop where
  opened : x.lisp.engine.closed = false
  counted : ∀ y ∈ log, ∃ v, x.users[y.user]? = some v ∧ y.number ≤ v.evals
  followed : ∀ y ∈ log, ∃ events, x.lisp.engine = y.engine.after events
  known : ∀ n, x.lisp.engine.Ended (moduleName modulePrefix n) → ∃ y ∈ log, y.number = n ∧ y.Ends

/-- A call loads modules one after the other, and a module with the name of an evaluation only if it is
that evaluation. -/
theorem run_after (v : Evaluator) (s : Lisp) (c : Call) :
    ∃ events : List Engine.Event, (c.run v s).2.1.engine = s.engine.after events ∧
      ∀ ns art n, .load ns art (moduleName modulePrefix n) ∈ events →
        ∃ src, c = .eval src ∧ n = v.evals + 1 ∧
          ∀ user, (Evaluation.mk user v s src).compiled.isOk = true := by
  cases c with
  | eval src =>
    have hengine : ((Call.eval src).run v s).2.1.engine = (Evaluation.mk 0 v s src).engine := rfl
    cases hcompiled : (Evaluation.mk 0 v s src).compiled with
    | error failure =>
      rw [hengine, Evaluation.loads_nothing (by rw [hcompiled]; rfl)]
      exact ⟨[], rfl, fun _ _ _ h => absurd h List.not_mem_nil⟩
    | ok m =>
      rw [hengine, (Evaluation.loads hcompiled).1]
      refine ⟨[.load v.ns m.artifact m.module], rfl, fun ns art n hin => ?_⟩
      obtain ⟨-, -, hname⟩ := Engine.Event.load.inj (List.mem_singleton.mp hin)
      rw [Evaluation.module_compiled hcompiled] at hname
      refine ⟨src, rfl, Evaluator.moduleName_inj hname, fun _ => ?_⟩
      show (Evaluation.mk 0 v s src).compiled.isOk = true
      rw [hcompiled]
      rfl
  | require src =>
    unfold Call.run Evaluator.require
    dsimp only
    rcases hrequire : (v.session.switchTo v.ns).require s.compiler modulePrefix src with
      ⟨session, compiler, failure | q⟩
    · exact ⟨[], rfl, fun _ _ _ h => absurd h List.not_mem_nil⟩
    · obtain ⟨forms, p, -, -, hforms, -, -, rfl⟩ := Session.require_eq_ok hrequire
      obtain ⟨events, heq, hevents⟩ := Engine.loadAll_after s.engine v.ns p.done.modules
      refine ⟨events, heq, fun ns art n hin => ?_⟩
      obtain ⟨ns', m, hm, hload⟩ := hevents _ hin
      obtain ⟨-, -, hname⟩ := Engine.Event.load.inj hload
      obtain hnone | ⟨j, hj⟩ := Session.requireForms_names hforms m hm
      · exact absurd hnone List.not_mem_nil
      · exact absurd (hname.trans hj) Evaluator.moduleName_ne_requiredName

/-- Calls only count evaluations up. -/
theorem evals_run (v : Evaluator) (s : Lisp) (c : Call) : v.evals ≤ (c.run v s).1.evals := by
  cases c with
  | eval src =>
    unfold Call.run Evaluator.eval
    dsimp only
    rcases Session.compile _ _ _ _ with ⟨session, compiler, failure | m⟩ <;> exact Nat.le_succ _
  | require src =>
    unfold Call.run Evaluator.require
    dsimp only
    rcases Session.require _ _ _ _ with ⟨session, compiler, failure | q⟩ <;> exact le_rfl

theorem evals_run_eval (v : Evaluator) (s : Lisp) (src : String) :
    ((Call.eval src).run v s).1.evals = v.evals + 1 := by
  unfold Call.run Evaluator.eval
  dsimp only
  rcases Session.compile _ _ _ _ with ⟨session, compiler, failure | m⟩ <;> rfl

variable {x : Company} {log : List Evaluation}

/-- If a load of a module with the name of an evaluation has ended after a call, it had ended before, or
the call is the evaluation. -/
theorem ended_of_call {v : Evaluator} {s : Lisp} {call : Call} {n : Nat} (user : Nat)
    (hn : (call.run v s).2.1.engine.Ended (moduleName modulePrefix n)) :
    s.engine.Ended (moduleName modulePrefix n) ∨ ∃ src, call = .eval src ∧
      (Evaluation.mk user v s src).number = n ∧ (Evaluation.mk user v s src).Ends := by
  obtain ⟨events, hengine, hevents⟩ := run_after v s call
  have hafter := hn
  rw [hengine] at hafter
  obtain hold | ⟨ns, art, hin⟩ := Engine.ended_of_after hafter
  · exact .inl hold
  · -- the module is loaded by an evaluation, and that is the only load of it
    obtain ⟨src, rfl, rfl, hok⟩ := hevents ns art n hin
    obtain ⟨m, hm⟩ := Evaluation.exists_compiled (hok user)
    have hloads := Evaluation.loads hm
    have hload : ((Call.eval src).run v s).2.1.engine =
        (Engine.Event.load v.ns m.artifact m.module).run s.engine := hloads.1
    rw [hload] at hn
    obtain hold | ⟨ns', art', heq, hcrashed⟩ := Engine.ended_of_run hn
    · exact .inl hold
    · obtain ⟨rfl, rfl, hname⟩ := Engine.Event.load.inj heq
      refine .inr ⟨src, rfl, rfl, hok user, ?_⟩
      rw [hloads.2, Engine.crashed_map, hname]
      exact hcrashed

/-- A call of a user is logged if it is an evaluation. -/
theorem Logged.ask (h : Logged log x) {user : Nat} {v : Evaluator} (hv : x.users[user]? = some v)
    (call : Call) :
    Logged (log ++ (x.evaluation? (.ask user call)).toList) (x.step (.ask user call)) := by
  obtain ⟨events, hengine, -⟩ := run_after v x.lisp call
  have hstep : x.step (.ask user call) =
      { lisp := (call.run v x.lisp).2.1, users := x.users.set user (call.run v x.lisp).1 } := by
    simp only [step, hv]
  have huser : (x.users.set user (call.run v x.lisp).1)[user]? = some (call.run v x.lisp).1 :=
    List.getElem?_set_self (List.getElem?_eq_some_iff.mp hv).1
  have hnow : ∀ y ∈ (x.evaluation? (.ask user call)).toList,
      y.user = user ∧ y.number ≤ (call.run v x.lisp).1.evals ∧
        y.engine = (call.run v x.lisp).2.1.engine := by
    intro y hy
    cases call with
    | require src => exact absurd hy List.not_mem_nil
    | eval src =>
      simp only [evaluation?, hv, Option.map_some, Option.toList_some, List.mem_singleton] at hy
      subst hy
      exact ⟨rfl, (evals_run_eval v x.lisp src).ge, rfl⟩
  rw [hstep]
  refine ⟨?_, fun y hy => ?_, fun y hy => ?_, fun n hn => ?_⟩
  · rw [hengine, Engine.closed_after]
    exact h.opened
  · obtain hy | hy := List.mem_append.mp hy
    · obtain ⟨w, hw, hle⟩ := h.counted y hy
      by_cases heq : user = y.user
      · subst heq
        rw [hv] at hw
        cases hw
        exact ⟨_, huser, hle.trans (evals_run v x.lisp call)⟩
      · exact ⟨w, (List.getElem?_set_ne heq).trans hw, hle⟩
    · obtain ⟨rfl, hle, -⟩ := hnow y hy
      exact ⟨_, huser, hle⟩
  · obtain hy | hy := List.mem_append.mp hy
    · obtain ⟨before, hbefore⟩ := h.followed y hy
      refine ⟨before ++ events, ?_⟩
      rw [hengine, hbefore, Engine.after_append]
    · exact ⟨[], (hnow y hy).2.2.symm⟩
  · obtain hold | ⟨src, rfl, hnumber, hends⟩ := ended_of_call user hn
    · obtain ⟨y, hy, hnumber, hends⟩ := h.known n hold
      exact ⟨y, List.mem_append_left _ hy, hnumber, hends⟩
    · refine ⟨⟨user, v, x.lisp, src⟩, List.mem_append_right _ ?_, hnumber, hends⟩
      simp only [evaluation?, hv, Option.map_some, Option.toList_some, List.mem_singleton]

theorem Logged.step (h : Logged log x) (a : Act) :
    Logged (log ++ (x.evaluation? a).toList) (x.step a) := by
  cases a with
  | join target =>
    have hlog : log ++ (x.evaluation? (.join target)).toList = log := List.append_nil log
    rw [hlog]
    unfold Company.step
    dsimp only
    split
    · exact h
    · refine ⟨h.opened, fun y hy => ?_, h.followed, h.known⟩
      obtain ⟨v, hv, hle⟩ := h.counted y hy
      exact ⟨v, by rw [List.getElem?_append_left (List.getElem?_eq_some_iff.mp hv).1, hv], hle⟩
  | ask user call =>
    cases hv : x.users[user]? with
    | none =>
      have hnone : x.evaluation? (.ask user call) = none := by
        cases call <;> simp [evaluation?, hv]
      have hsame : x.step (.ask user call) = x := by simp only [Company.step, hv]
      rw [hnone, hsame, Option.toList_none, List.append_nil]
      exact h
    | some v => exact h.ask hv call

/-- Every evaluation is one of a user of the company, and those before it are logged then. -/
theorem Logged.evaluation (h : Logged log x) {acts : List Act} {before after : List Evaluation}
    {y : Evaluation} (hlog : x.evaluations acts = before ++ y :: after) :
    ∃ x', Logged (log ++ before) x' ∧ x'.lisp = y.lisp ∧ x'.users[y.user]? = some y.evaluator := by
  induction acts generalizing x log before with
  | nil => exact absurd hlog (by simp [evaluations])
  | cons a acts ih =>
    rw [evaluations] at hlog
    cases hy : x.evaluation? a with
    | none =>
      rw [hy, Option.toList_none, List.nil_append] at hlog
      have hstep := h.step a
      rw [hy, Option.toList_none, List.append_nil] at hstep
      exact ih hstep hlog
    | some first =>
      rw [hy, Option.toList_some, List.singleton_append] at hlog
      cases before with
      | nil =>
        obtain ⟨rfl, -⟩ := List.cons.inj hlog
        refine ⟨x, by rwa [List.append_nil], ?_⟩
        match a with
        | .join _ => exact absurd hy (by simp [evaluation?])
        | .ask _ (.require _) => exact absurd hy (by simp [evaluation?])
        | .ask user (.eval src) =>
          obtain ⟨v, hv, rfl⟩ := Option.map_eq_some_iff.mp hy
          exact ⟨rfl, hv⟩
      | cons first' before =>
        obtain ⟨rfl, hrest⟩ := List.cons.inj hlog
        have hstep := h.step a
        rw [hy, Option.toList_some] at hstep
        obtain ⟨x', hlogged, hx'⟩ := ih hstep hrest
        exact ⟨x', by rwa [List.append_assoc, List.singleton_append] at hlogged, hx'⟩

/-- Evaluations with the same number have one answer. Whatever the users of one Lisp with a fresh engine
do: an evaluation whose source is compiled is answered by the module that is compiled of it, which the engine
links then, if no evaluation of another user with the same number was compiled before and came to an end;
and if one did, it is answered with what that one gave, and the engine does nothing but count. -/
theorem first_evaluation_answers {s : Lisp} {registry : Registry} {catalog : Option Catalog}
    {around : Surroundings} (hengine : s.engine = { registry, catalog, around }) {acts : List Act}
    {before after : List Evaluation} {y : Evaluation} {m : Compiled}
    (hlog : evaluations { lisp := s } acts = before ++ y :: after) (hm : y.compiled = .ok m) :
    ((∀ z ∈ before, z.Ends → z.number = y.number → z.user = y.user) → y.answer = y.linked m) ∧
    ∀ z ∈ before, z.Ends → z.number = y.number →
      z.user ≠ y.user ∧ y.answer = z.answer ∧
        ∃ metrics, y.engine = { y.lisp.engine with metrics } := by
  have hstart : Logged [] { lisp := s } := by
    refine ⟨by rw [hengine], fun _ h => absurd h List.not_mem_nil,
      fun _ h => absurd h List.not_mem_nil, fun n hn => ?_⟩
    obtain ⟨record, hget, -⟩ := hn
    rw [hengine] at hget
    cases hget
  obtain ⟨x, hlogged, hlisp, huser⟩ := hstart.evaluation hlog
  rw [List.nil_append] at hlogged
  obtain ⟨hengineAfter, hanswer⟩ := Evaluation.loads hm
  have hmodule := Evaluation.module_compiled hm
  -- the numbers of the user are used up to the one before this
  have hothers : ∀ z ∈ before, z.number = y.number → z.user ≠ y.user := by
    intro z hz hnumber hsame
    obtain ⟨v, hv, hle⟩ := hlogged.counted z hz
    rw [hsame, huser] at hv
    cases hv
    rw [hnumber] at hle
    exact absurd hle (Nat.not_succ_le_self _)
  refine ⟨fun hfirst => ?_, fun z hz hends hnumber => ⟨hothers z hz hnumber, ?_⟩⟩
  · have hnew : ¬y.lisp.engine.Ended (moduleName modulePrefix y.number) := by
      intro hended
      rw [← hlisp] at hended
      obtain ⟨z, hz, hnumber, hends⟩ := hlogged.known _ hended
      exact hothers z hz hnumber (hfirst z hz hends hnumber)
    have hopen := hlogged.opened
    rw [hlisp] at hopen
    rw [hanswer, Evaluation.linked, hmodule,
      Engine.load_of_not_ended hopen (Evaluator.loadable_moduleName _) hnew]
  · obtain ⟨events, hevents⟩ := hlogged.followed z hz
    obtain ⟨hok, hcrashed⟩ := hends
    obtain ⟨first, hz'⟩ := Evaluation.exists_compiled hok
    obtain ⟨hfirstEngine, hfirstAnswer⟩ := Evaluation.loads hz'
    have hsame : first.module = m.module := by
      rw [Evaluation.module_compiled hz', hmodule, hnumber]
    rw [hfirstAnswer, Engine.crashed_map] at hcrashed
    obtain ⟨metrics, hagain⟩ := z.lisp.engine.load_again z.evaluator.ns first.artifact first.module
      hcrashed events y.evaluator.ns m.artifact
    rw [← hfirstEngine, ← hevents, hlisp, hsame] at hagain
    rw [hengineAfter, hanswer, hfirstAnswer, hagain, hsame]
    exact ⟨rfl, metrics, rfl⟩

/-! ### Two users -/

/-- Two users join, and each evaluates a source. -/
def twoUsers (first second : String) : List Act :=
  [.join .host, .join .host, .ask 0 (.eval first), .ask 1 (.eval second)]

/-- Both users are new when they evaluate, and the second source is evaluated in the Lisp that the first has
left. -/
theorem evaluations_twoUsers {s : Lisp} {v : Evaluator} (h : Evaluator.new s .host = .ok v)
    (first second : String) :
    evaluations { lisp := s } (twoUsers first second) =
      [{ user := 0, evaluator := v, lisp := s, src := first }] ++
        { user := 1, evaluator := v, lisp := (v.eval s first).2.1, src := second } :: [] := by
  simp only [twoUsers, evaluations, evaluation?, step, h]
  rfl

/-- The second user evaluates a product after the first has evaluated a sum. -/
def productEvaluation : Evaluation :=
  { user := 1, evaluator := Evaluator.smallEvaluator
    lisp := (Evaluator.smallEvaluator.eval Evaluator.smallLisp "(+ 1 2)").2.1, src := "(* 10 10)" }

theorem first_evaluation_answers_twoUsers :
    ∃ y m, evaluations { lisp := Evaluator.smallLisp } (twoUsers "(+ 1 2)" "(* 10 10)") =
        [y] ++ productEvaluation :: [] ∧
      productEvaluation.compiled = .ok m ∧ y.Ends ∧ y.number = productEvaluation.number ∧
      y.user ≠ productEvaluation.user ∧ productEvaluation.answer = y.answer ∧
      ∃ metrics, productEvaluation.engine = { productEvaluation.lisp.engine with metrics } := by
  have hlog : evaluations { lisp := Evaluator.smallLisp } (twoUsers "(+ 1 2)" "(* 10 10)") =
      [Evaluation.mk 0 Evaluator.smallEvaluator Evaluator.smallLisp "(+ 1 2)"] ++
        productEvaluation :: [] :=
    evaluations_twoUsers Evaluator.new_smallEvaluator _ _
  have hcompiled : productEvaluation.compiled.isOk = true := by decide +kernel
  have hfirst : (Evaluation.mk 0 Evaluator.smallEvaluator Evaluator.smallLisp "(+ 1 2)").Ends := by
    unfold Evaluation.Ends
    decide +kernel
  cases hm : productEvaluation.compiled with
  | error failure =>
    rw [hm] at hcompiled
    cases hcompiled
  | ok m =>
    exact ⟨_, m, hlog, rfl, hfirst, rfl,
      (first_evaluation_answers rfl hlog hm).2 _ List.mem_cons_self hfirst rfl⟩

/-- The second user gets the sum of the first, although the product alone is another number. -/
theorem product_answered_by_sum :
    productEvaluation.answer = .ok 3 ∧
      (Evaluator.smallEvaluator.eval Evaluator.smallLisp "(* 10 10)").2.2 = .ok 100 := by
  have hsum : productEvaluation.answer.toOption = some 3 := by decide +kernel
  have hproduct : (Evaluator.smallEvaluator.eval Evaluator.smallLisp
      "(* 10 10)").2.2.toOption = some 100 := by decide +kernel
  exact ⟨Except.eq_ok_of_toOption hsum, Except.eq_ok_of_toOption hproduct⟩

end Company

end WasmLisp
