import Mathlib
import WasmLisp.Proofs.Lisp.Stem
import WasmLisp.Proofs.Service.Exchange
import WasmLisp.Proofs.Service.Loaded

/-!
# Evaluation here and through the service

The same calls are made to an evaluator and to a caller of the service. Both sides analyse and compile
alike (`Session.compile_rename`), the caller gets to know what the session answered
(`Server.Attached.ask`), and loads what was compiled (`Runner.load_message`). So call by call they agree
(`Service.remote_agrees`).
-/

namespace WasmLisp

open Result (RelUpTo)
open Engine (Loadable)

/-! ## Calls on both sides -/

/-- What a call gives. -/
inductive Evaluator.Answer where
  | value (v : Int64)
  /-- The names that a require left out. -/
  | skipped (names : List String)
  deriving DecidableEq, Repr

namespace Evaluator.Call

/-- The evaluator and the Lisp after a call, and what it gives. -/
def answer (v : Evaluator) (s : Lisp) : Call → Evaluator × Lisp × Result Answer
  | .eval src =>
    let (v, s, r) := v.eval s src
    (v, s, r.map .value)
  | .require src =>
    let (v, s, r) := v.require s src
    (v, s, r.map .skipped)

/-- The modules that a call compiles, if it compiles all of them. -/
def compiled (v : Evaluator) (s : Lisp) (c : Call) : List Compiled :=
  match ((v.session.switchTo v.ns).handle s.compiler (c.request v)).2.2 with
  | .compiled (.ok m) => [m]
  | .required (.ok q) => q.modules
  | _ => []

end Evaluator.Call

namespace Service

open Evaluator (Call Answer)

namespace Caller

variable {σ : Type} (x : Caller) (peer : Peer σ) (server : σ) (why : Client.Impatience)

/-- The caller and the other side after a call, and what it gives. -/
def answer : Call → Caller × σ × Result Answer
  | .eval src =>
    let (x, server, r) := x.eval peer server why src
    (x, server, r.map .value)
  | .require src =>
    let (x, server, r) := x.require peer server why src
    (x, server, r.map .skipped)

/-- The modules that a call loads, each with the runner that loads it. -/
def loads : Call → List (Runner × Module)
  | .eval src =>
    match (x.client.ask peer server why (x.runner.evalRequest src).2).2.2 with
    | .ok r => (x.runner.evalRequest src).1.loadsOf [r.compiled]
    | .error _ => []
  | .require src =>
    match (x.client.ask peer server why (x.runner.requireRequest src)).2.2 with
    | .ok r => x.runner.loadsOf r.modules
    | .error _ => []

end Caller

/-- An evaluator over a Lisp, and a caller of a service. -/
structure Sides where
  evaluator : Evaluator
  lisp : Lisp
  caller : Caller
  server : Server

namespace Sides

variable (connection : Nat) (patience : Duration) (p : Sides)

/-- Makes a call on both sides. -/
def call (c : Call) : Sides × Result Answer × Result Answer :=
  let (evaluator, lisp, here) := c.answer p.evaluator p.lisp
  let (caller, server, there) := p.caller.answer (Server.peer connection) p.server (.timeout patience) c
  ({ evaluator, lisp, caller, server }, here, there)

/-- What is relied on when a call is made: the connection holds, no list of a manifest is longer than a
decoder takes, and no binary outgrows the 32-bit sizes of the format. -/
structure Fits (c : Call) : Prop where
  up : (p.call connection patience c).1.caller.client.Up
  listable : ∀ m ∈ c.compiled p.evaluator p.lisp, m.Listable
  small : ∀ l ∈ c.loads p.evaluator p.lisp, l.1.TakesSmall l.2
  smallThere : ∀ l ∈ p.caller.loads (Server.peer connection) p.server (.timeout patience) c,
    l.1.TakesSmall l.2

instance (c : Call) : Decidable (p.Fits connection patience c) :=
  decidable_of_iff ((p.call connection patience c).1.caller.client.Up ∧
      (∀ m ∈ c.compiled p.evaluator p.lisp, m.Listable) ∧
      (∀ l ∈ c.loads p.evaluator p.lisp, l.1.TakesSmall l.2) ∧
      ∀ l ∈ p.caller.loads (Server.peer connection) p.server (.timeout patience) c, l.1.TakesSmall l.2)
    ⟨fun ⟨hup, hlists, hsmall, hsmall'⟩ => ⟨hup, hlists, hsmall, hsmall'⟩,
      fun h => ⟨h.up, h.listable, h.small, h.smallThere⟩⟩

/-- Both sides gave the same value or failures of one phase and kind, and are in the same namespace;
the same was printed, and the data symbols have the same values. -/
structure Agrees (c : Call) : Prop where
  result : RelUpTo Failure.SameSort Eq (p.call connection patience c).2.1
    (p.call connection patience c).2.2
  ns : (p.call connection patience c).1.caller.runner.ns = (p.call connection patience c).1.evaluator.ns
  printed : (p.call connection patience c).1.caller.runner.engine.around.printed =
    (p.call connection patience c).1.lisp.engine.around.printed
  globals : ∀ name, (p.call connection patience c).1.caller.runner.engine.global? name =
    (p.call connection patience c).1.lisp.engine.global? name

/-- Something holds of every call when it is made. -/
def Along (P : Sides → Call → Prop) (p : Sides) : List Call → Prop
  | [] => True
  | c :: rest => P p c ∧ Along P (p.call connection patience c).1 rest

end Sides

end Service

/-! ## Sessions -/

namespace Session

variable {s : Session} {c : Compiler}

@[simp]
theorem settle_target {α : Type} (s : Session) (after : Frame) (r : Result α) :
    (s.settle after r).target = s.target := by
  cases r <;> rfl

@[simp]
theorem switchTo_target (s : Session) (ns : String) : (s.switchTo ns).target = s.target := by
  unfold switchTo
  split <;> rfl

theorem compile_target (s : Session) (c : Compiler) (module src : String) :
    (s.compile c module src).1.target = s.target := by
  unfold Session.compile
  split
  · rfl
  · split
    · exact settle_target _ _ _
    · exact settle_target _ _ _

theorem require_target (s : Session) (c : Compiler) (modulePrefix src : String) :
    (s.require c modulePrefix src).1.target = s.target := by
  unfold Session.require
  split
  · rfl
  · split
    · rfl
    · dsimp only
      split <;> rfl

end Session

namespace Service

open Evaluator (Call Answer modulePrefix restem)
open Server (Attached)

/-! ## Requests of a runner -/

section

variable {s : Session} {c : Compiler} (hs : s.target = .host)
include hs

theorem targetRefusal?_host {r : Request} (hr : r.target = some .host) : targetRefusal? s r = none := by
  unfold targetRefusal?
  rw [hr]
  dsimp only
  rw [hs, if_pos]
  simp [Target.serves, Target.host]

theorem dispatch_eval {module : String} (hmodule : module ≠ "") (ns source : String) (id : Nat) :
    let out := (s.switchTo ns).compile c module source
    let answered := dispatch s c
      { op := "compile", id, ns, source, module, target := some .host }
    answered.1 = out.1 ∧ answered.2.1 = out.2.1 ∧
      answered.2.2 = out.2.2.map fun m =>
        { op := "compiled", id, ns := out.1.ns, compiled := m.message } := by
  unfold dispatch
  rw [targetRefusal?_host hs rfl]
  simp only [if_neg (by decide : ¬ "compile" = "ping"), ne_eq, not_true_eq_false, decide_false,
    Bool.false_and, Bool.false_eq_true, if_false, if_true, compileFor, if_neg hmodule, true_and]
  rfl

theorem dispatch_require {stem : String} (hstem : stem ≠ "") (ns source : String) (id : Nat) :
    let out := (s.switchTo ns).require c stem source
    let answered := dispatch s c
      { op := "require", id, ns, source, module := stem, target := some .host }
    answered.1 = out.1 ∧ answered.2.1 = out.2.1 ∧
      answered.2.2 = out.2.2.map fun q =>
        { op := "required", id, ns := out.1.ns, modules := q.modules.map Compiled.message
          skipped := q.skipped } := by
  unfold dispatch
  rw [targetRefusal?_host hs rfl]
  simp only [if_neg (by decide : ¬ "require" = "ping"), if_neg (by decide : ¬ "require" = "compile"),
    ne_eq, not_true_eq_false, decide_false, Bool.and_false, Bool.false_eq_true, if_false, requireFor,
    if_neg hstem, true_and]
  rfl

end

/-! ## Loading what was compiled -/

/-- The engine after loading what was compiled, with its frame and the value. -/
def evalHere (e : Engine) (ns : String) : Result Compiled → Engine × String × Result Answer
  | .error failure => (e, ns, .error failure)
  | .ok m =>
    let out := e.load ns (some m.artifact) m.module
    (out.1, out.2.1, out.2.2.map fun entry => .value entry.result)

/-- The engine after loading what was required, with its frame and the names left out. -/
def requireHere (e : Engine) (ns : String) : Result Required → Engine × String × Result Answer
  | .error failure => (e, ns, .error failure)
  | .ok q =>
    let out := Evaluator.loadAll e ns q.modules
    (out.1, out.2.1, out.2.2.map fun _ => .skipped q.skipped)

section

variable {f : String → String} {e : Engine} {x : Runner} {told : Result Response}

theorem sameLoad_eval (hf : Renaming f) (h : e.Renamed f x.engine) {compiled : Result Compiled}
    (hresult : RelUpTo Failure.SameSort (fun m r => r.compiled = (m.rename f).message) compiled told)
    (hall : ∀ m, compiled = .ok m →
      Renames f m.module ∧ m.artifact.Generated ∧ m.Listable ∧ e.TakesSmall m)
    (hsmall : ∀ r, told = .ok r → x.TakesSmall r.compiled) :
    Runner.SameLoad f x Eq (evalHere e x.ns compiled)
      ((x.finishEval told).1, (x.finishEval told).2.map .value) := by
  cases compiled <;> cases told
  · exact ⟨rfl, rfl, rfl, h, hresult⟩
  · exact hresult.elim
  · exact hresult.elim
  · rename_i m r
    have hmodule : r.compiled = (m.rename f).message := hresult
    obtain ⟨hname, hart, hlists, htakes⟩ := hall m rfl
    have hsame := Runner.load_message h hf hname hart hlists htakes (hmodule ▸ hsmall r rfl)
    have hfinish : x.finishEval (.ok r) = x.load (m.rename f).message := congrArg x.load hmodule
    rw [hfinish]
    exact hsame.map fun entry value hvalue => by rw [hvalue]

theorem sameLoad_require (hf : Renaming f) (h : e.Renamed f x.engine) {required : Result Required}
    (hresult : RelUpTo Failure.SameSort (fun q r => r.skipped = q.skipped ∧
      r.modules = q.modules.map fun m => (m.rename f).message) required told)
    (hall : ∀ q, required = .ok q → (∀ m ∈ q.modules,
      Renames f m.module ∧ m.artifact.Generated ∧ m.Listable) ∧
      ∀ l ∈ Evaluator.loadsOf e x.ns q.modules, l.1.TakesSmall l.2)
    (hsmall : ∀ r, told = .ok r → ∀ l ∈ x.loadsOf r.modules, l.1.TakesSmall l.2) :
    Runner.SameLoad f x Eq (requireHere e x.ns required)
      ((x.finishRequire told).1, (x.finishRequire told).2.map .skipped) := by
  cases required <;> cases told
  · exact ⟨rfl, rfl, rfl, h, hresult⟩
  · exact hresult.elim
  · exact hresult.elim
  · rename_i q r
    obtain ⟨hskipped, hmodules⟩ := hresult
    obtain ⟨hmade, htakes⟩ := hall q rfl
    have hsame := Runner.loadAll_messages hf h hmade htakes (hmodules ▸ hsmall r rfl)
    have hfinish : x.finishRequire (.ok r) =
        ((x.loadAll r.modules).1, (x.loadAll r.modules).2.map fun _ => r.skipped) := rfl
    have hcompose : ∀ out : Result Unit, (out.map fun _ => q.skipped).map Answer.skipped =
        out.map fun _ => .skipped q.skipped := by
      rintro (failure | ⟨⟩) <;> rfl
    rw [hfinish, hmodules, hskipped, hcompose]
    exact hsame.map fun _ _ _ => rfl

end

/-! ## One call -/

/-- What the client was told is what was compiled: the service is where the session and the compiler got,
and the response tells the result. -/
structure Told {α : Type} (connection : Nat) (R : α → Response → Prop)
    (compiled : Session × Compiler × Result α) (asked : Client × Server × Result Response) : Prop where
  cache : compiled.2.1.cache = none
  target : compiled.1.target = .host
  attached : Attached asked.2.1 connection compiled.1 compiled.2.1
  idle : asked.1.Idle
  result : RelUpTo Failure.SameSort R compiled.2.2 asked.2.2

/-- The client was told of the same under other names of modules. -/
theorem told_of_sameAnswer {α : Type} {connection : Nat} {R : α → α → Prop} {S : α → Response → Prop}
    {left right : Session × Compiler × Result α} {out : Session × Compiler × Result Response}
    {asked : Client × Server × Result Response} {tell : α → Response}
    (hsame : Session.SameAnswer R left right)
    (hout : out.1 = right.1 ∧ out.2.1 = right.2.1 ∧ out.2.2 = right.2.2.map tell)
    (hasked : asked.1.Idle ∧ Attached asked.2.1 connection out.1 out.2.1 ∧
      RelUpTo Failure.SameSort Eq out.2.2 asked.2.2)
    (htell : ∀ a b, R a b → S a (tell b)) (hcache : left.2.1.cache = none)
    (htarget : left.1.target = .host) : Told connection S left asked := by
  obtain ⟨hidle, hattached, hresult⟩ := hasked
  obtain ⟨hsession, hcompiler, hanswer⟩ := hout
  rw [hsession, hcompiler, hsame.1, hsame.2.1] at hattached
  refine ⟨hcache, htarget, hattached, hidle, ?_⟩
  have hleft := hsame.2.2
  rw [hanswer] at hresult
  generalize left.2.2 = a at hleft ⊢
  generalize right.2.2 = b at hleft hresult
  generalize asked.2.2 = r at hresult ⊢
  cases a <;> cases b <;> cases r <;> first | exact hleft.elim | exact hresult.elim | skip
  · exact hleft.trans hresult
  · obtain rfl := (hresult : tell _ = _)
    exact htell _ _ hleft

namespace Sides

variable {connection : Nat} {patience : Duration} {stem src : String} {p : Sides}

/-- Both sides are at one point, apart from the names of modules. -/
structure InStep (connection : Nat) (stem : String) (p : Sides) : Prop where
  cache : p.lisp.compiler.cache = none
  target : p.evaluator.session.target = .host
  attached : Attached p.server connection p.evaluator.session p.lisp.compiler
  idle : p.caller.client.Idle
  ns : p.caller.runner.ns = p.evaluator.ns
  evals : p.caller.runner.evals = p.evaluator.evals
  stemmed : p.caller.runner.stem = stem
  engine : p.lisp.engine.Renamed (restem modulePrefix stem) p.caller.runner.engine

theorem loadable_modulePrefix : Loadable modulePrefix := by
  unfold Loadable modulePrefix
  decide

theorem moduleName_ne_empty (stem : String) (n : Nat) : Evaluator.moduleName stem n ≠ "" := by
  intro h
  have hlist := congrArg String.toList h
  rw [Evaluator.toList_moduleName] at hlist
  simp at hlist

/-- What the evaluator's session makes of a source. -/
def compiledSource (p : Sides) (src : String) : Session × Compiler × Result Compiled :=
  (p.evaluator.session.switchTo p.evaluator.ns).compile p.lisp.compiler
    (Evaluator.moduleName modulePrefix (p.evaluator.evals + 1)) src

/-- What the evaluator's session makes of a source form by form. -/
def requiredSource (p : Sides) (src : String) : Session × Compiler × Result Required :=
  (p.evaluator.session.switchTo p.evaluator.ns).require p.lisp.compiler modulePrefix src

/-- What the client is told about a request. -/
def asked (connection : Nat) (patience : Duration) (p : Sides) (r : Request) :
    Client × Server × Result Response :=
  p.caller.client.ask (Server.peer connection) p.server (.timeout patience) r

theorem InStep.told_eval (h : p.InStep connection stem)
    (hup : (p.asked connection patience (p.caller.runner.evalRequest src).2).1.Up) :
    Told connection (fun m r => r.compiled = (m.rename (restem modulePrefix stem)).message)
      (p.compiledSource src) (p.asked connection patience (p.caller.runner.evalRequest src).2) := by
  have hrequest : (p.caller.runner.evalRequest src).2 =
      { op := "compile", ns := p.evaluator.ns, source := src
        module := Evaluator.moduleName stem (p.evaluator.evals + 1), target := some .host } := by
    unfold Runner.evalRequest
    dsimp only
    rw [h.evals, h.ns, h.stemmed]
    rfl
  have hasked := h.attached.ask h.idle patience _ hup
  rw [hrequest] at hasked ⊢
  refine told_of_sameAnswer ?_ (dispatch_eval h.target (moduleName_ne_empty stem _) _ src _) hasked
    (fun m m' hm => congrArg Compiled.message hm) ?_ ?_
  · rw [← Evaluator.restem_moduleName loadable_modulePrefix]
    exact Session.compile_rename h.cache _ _ src
  · exact (Session.compile_generated h.cache _ src).1
  · rw [compiledSource, Session.compile_target, Session.switchTo_target, h.target]

theorem InStep.told_require (h : p.InStep connection stem) (hstem : stem ≠ "")
    (hup : (p.asked connection patience (p.caller.runner.requireRequest src)).1.Up) :
    Told connection (fun q r => r.skipped = q.skipped ∧
        r.modules = q.modules.map fun m => (m.rename (restem modulePrefix stem)).message)
      (p.requiredSource src) (p.asked connection patience (p.caller.runner.requireRequest src)) := by
  have hrequest : p.caller.runner.requireRequest src =
      { op := "require", ns := p.evaluator.ns, source := src, module := stem
        target := some .host } := by
    unfold Runner.requireRequest
    rw [h.ns, h.stemmed]
  have hasked := h.attached.ask h.idle patience _ hup
  rw [hrequest] at hasked ⊢
  refine told_of_sameAnswer (Session.require_rename h.cache loadable_modulePrefix.1 hstem
    (Evaluator.restem_requiredName loadable_modulePrefix) src)
    (dispatch_require h.target hstem _ src _) hasked ?_ ?_ ?_
  · rintro q _ rfl
    exact ⟨rfl, by simp [Required.rename]⟩
  · exact (Session.require_generated h.cache _ src).1
  · rw [requiredSource, Session.require_target, Session.switchTo_target, h.target]

/-- Where a call leads, given what was compiled, what the client was told, and what was loaded here and
there. -/
def loaded {α : Type} (p : Sides) (evals : Nat) (compiled : Session × Compiler × Result α)
    (told : Client × Server × Result Response) (here : Engine × String × Result Answer)
    (there : Runner × Result Answer) : Sides × Result Answer × Result Answer :=
  ({ evaluator := { session := compiled.1, ns := here.2.1, evals }
     lisp := { p.lisp with compiler := compiled.2.1, engine := here.1 }
     caller := { client := told.1, runner := there.1 }
     server := told.2.1 }, here.2.2, there.2)

theorem call_eval (p : Sides) (src : String) : p.call connection patience (.eval src) =
    let request := p.caller.runner.evalRequest src
    let told := p.asked connection patience request.2
    let there := request.1.finishEval told.2.2
    p.loaded (p.evaluator.evals + 1) (p.compiledSource src) told
      (evalHere p.lisp.engine p.evaluator.ns (p.compiledSource src).2.2)
      (there.1, there.2.map .value) := by
  have hhere : (Call.eval src).answer p.evaluator p.lisp =
      let compiled := p.compiledSource src
      let here := evalHere p.lisp.engine p.evaluator.ns compiled.2.2
      (({ session := compiled.1, ns := here.2.1, evals := p.evaluator.evals + 1 } : Evaluator),
        { p.lisp with compiler := compiled.2.1, engine := here.1 }, here.2.2) := by
    unfold Call.answer Evaluator.eval compiledSource Evaluator.moduleName
    dsimp only
    generalize Session.compile _ p.lisp.compiler _ src = compiled
    obtain ⟨session, compiler, e | m⟩ := compiled
    · rfl
    · unfold evalHere
      dsimp only
      generalize p.lisp.engine.load _ _ _ = out
      obtain ⟨engine, ns, e | entry⟩ := out <;> rfl
  unfold Sides.call
  rw [hhere]
  rfl

theorem call_require (p : Sides) (src : String) : p.call connection patience (.require src) =
    let told := p.asked connection patience (p.caller.runner.requireRequest src)
    let there := p.caller.runner.finishRequire told.2.2
    p.loaded p.evaluator.evals (p.requiredSource src) told
      (requireHere p.lisp.engine p.evaluator.ns (p.requiredSource src).2.2)
      (there.1, there.2.map .skipped) := by
  have hhere : (Call.require src).answer p.evaluator p.lisp =
      let required := p.requiredSource src
      let here := requireHere p.lisp.engine p.evaluator.ns required.2.2
      (({ session := required.1, ns := here.2.1, evals := p.evaluator.evals } : Evaluator),
        { p.lisp with compiler := required.2.1, engine := here.1 }, here.2.2) := by
    unfold Call.answer Evaluator.require requiredSource
    dsimp only
    generalize Session.require _ p.lisp.compiler _ src = required
    obtain ⟨session, compiler, e | q⟩ := required
    · rfl
    · unfold requireHere
      dsimp only
      generalize Evaluator.loadAll _ _ _ = out
      obtain ⟨engine, ns, e | ⟨⟩⟩ := out <;> rfl
  unfold Sides.call
  rw [hhere]
  rfl

/-- Both sides stay in step if they load the same. -/
theorem InStep.loaded {α : Type} {R : α → Response → Prop} {x : Runner} {evals : Nat}
    {compiled : Session × Compiler × Result α} {told : Client × Server × Result Response}
    {here : Engine × String × Result Answer} {there : Runner × Result Answer}
    (htold : Told connection R compiled told) (hstem : x.stem = stem) (hevals : x.evals = evals)
    (hload : Runner.SameLoad (restem modulePrefix stem) x Eq here there) :
    (p.loaded evals compiled told here there).1.InStep connection stem where
  cache := htold.cache
  target := htold.target
  attached := htold.attached
  idle := htold.idle
  ns := hload.ns
  evals := hload.evals.trans hevals
  stemmed := hload.stem.trans hstem
  engine := hload.engine

theorem loads_eval (p : Sides) (src : String) : (Call.eval src).loads p.evaluator p.lisp =
    match (p.compiledSource src).2.2 with
    | .ok m => Evaluator.loadsOf p.lisp.engine p.evaluator.ns [m]
    | .error _ => [] := by
  show (match Session.Response.compiled (p.compiledSource src).2.2 with
    | .compiled (.ok m) => Evaluator.loadsOf p.lisp.engine p.evaluator.ns [m]
    | .required (.ok q) => Evaluator.loadsOf p.lisp.engine p.evaluator.ns q.modules
    | _ => []) = _
  cases (p.compiledSource src).2.2 <;> rfl

theorem compiled_eval (p : Sides) (src : String) : (Call.eval src).compiled p.evaluator p.lisp =
    match (p.compiledSource src).2.2 with
    | .ok m => [m]
    | .error _ => [] := by
  show (match Session.Response.compiled (p.compiledSource src).2.2 with
    | .compiled (.ok m) => [m]
    | .required (.ok q) => q.modules
    | _ => []) = _
  cases (p.compiledSource src).2.2 <;> rfl

theorem InStep.eval (h : p.InStep connection stem) (hstem : Loadable stem)
    (hfits : p.Fits connection patience (.eval src)) :
    (p.call connection patience (.eval src)).1.InStep connection stem ∧
      RelUpTo Failure.SameSort Eq (p.call connection patience (.eval src)).2.1
        (p.call connection patience (.eval src)).2.2 := by
  obtain ⟨hup, hlists, hsmall, hsmall'⟩ := hfits
  rw [call_eval] at hup ⊢
  rw [compiled_eval] at hlists
  rw [loads_eval] at hsmall
  have htold := h.told_eval hup
  have hgenerated := (Session.compile_generated (s := p.evaluator.session.switchTo p.evaluator.ns)
    h.cache (Evaluator.moduleName modulePrefix (p.evaluator.evals + 1)) src).2
  have hload := sameLoad_eval (x := (p.caller.runner.evalRequest src).1)
    (Evaluator.renaming_restem hstem) h.engine htold.result
    (by
      intro m hm
      obtain ⟨hart, hname⟩ := hgenerated m hm
      rw [hm] at hlists hsmall
      exact ⟨hname ▸ Evaluator.renames_moduleName loadable_modulePrefix hstem _, hart,
        hlists m List.mem_cons_self, (List.forall_mem_cons.mp hsmall).1⟩)
    (by
      intro r hr
      unfold Caller.loads at hsmall'
      unfold asked at hr
      dsimp only at hsmall'
      rw [hr] at hsmall'
      exact (List.forall_mem_cons.mp hsmall').1)
  have hns : (p.caller.runner.evalRequest src).1.ns = p.evaluator.ns := h.ns
  rw [hns] at hload
  exact ⟨InStep.loaded (x := (p.caller.runner.evalRequest src).1) htold h.stemmed
    (congrArg (· + 1) h.evals) hload, hload.result⟩

theorem loads_require (p : Sides) (src : String) : (Call.require src).loads p.evaluator p.lisp =
    match (p.requiredSource src).2.2 with
    | .ok q => Evaluator.loadsOf p.lisp.engine p.evaluator.ns q.modules
    | .error _ => [] := by
  show (match Session.Response.required (p.requiredSource src).2.2 with
    | .compiled (.ok m) => Evaluator.loadsOf p.lisp.engine p.evaluator.ns [m]
    | .required (.ok q) => Evaluator.loadsOf p.lisp.engine p.evaluator.ns q.modules
    | _ => []) = _
  cases (p.requiredSource src).2.2 <;> rfl

theorem compiled_require (p : Sides) (src : String) :
    (Call.require src).compiled p.evaluator p.lisp =
      match (p.requiredSource src).2.2 with
      | .ok q => q.modules
      | .error _ => [] := by
  show (match Session.Response.required (p.requiredSource src).2.2 with
    | .compiled (.ok m) => [m]
    | .required (.ok q) => q.modules
    | _ => []) = _
  cases (p.requiredSource src).2.2 <;> rfl

theorem InStep.require (h : p.InStep connection stem) (hstem : Loadable stem)
    (hfits : p.Fits connection patience (.require src)) :
    (p.call connection patience (.require src)).1.InStep connection stem ∧
      RelUpTo Failure.SameSort Eq (p.call connection patience (.require src)).2.1
        (p.call connection patience (.require src)).2.2 := by
  obtain ⟨hup, hlists, hsmall, hsmall'⟩ := hfits
  rw [call_require] at hup ⊢
  rw [compiled_require] at hlists
  rw [loads_require] at hsmall
  have htold := h.told_require hstem.1 hup
  have hgenerated := (Session.require_generated (s := p.evaluator.session.switchTo p.evaluator.ns)
    h.cache modulePrefix src).2
  have hload := sameLoad_require (Evaluator.renaming_restem hstem) h.engine htold.result
    (by
      intro q hq
      have hmade := hgenerated q hq
      rw [hq] at hlists hsmall
      rw [h.ns]
      refine ⟨fun m hm => ?_, hsmall⟩
      obtain ⟨hart, n, i, hname⟩ := hmade m hm
      exact ⟨hname ▸ Evaluator.renames_requiredName loadable_modulePrefix hstem n i, hart,
        hlists m hm⟩)
    (by
      intro r hr
      unfold Caller.loads at hsmall'
      unfold asked at hr
      dsimp only at hsmall'
      rw [hr] at hsmall'
      exact hsmall')
  rw [h.ns] at hload
  exact ⟨InStep.loaded htold h.stemmed h.evals hload, hload.result⟩

/-- A call keeps both sides in step, and they agree on it. -/
theorem InStep.call {c : Call} (h : p.InStep connection stem) (hstem : Loadable stem)
    (hfits : p.Fits connection patience c) :
    (p.call connection patience c).1.InStep connection stem ∧ p.Agrees connection patience c := by
  have hboth : (p.call connection patience c).1.InStep connection stem ∧
      RelUpTo Failure.SameSort Eq (p.call connection patience c).2.1
        (p.call connection patience c).2.2 := by
    cases c with
    | eval src => exact h.eval hstem hfits
    | require src => exact h.require hstem hfits
  obtain ⟨hnext, hresult⟩ := hboth
  exact ⟨hnext, hresult, hnext.ns, congrArg Surroundings.printed hnext.engine.around,
    hnext.engine.global? (Evaluator.renaming_restem hstem)⟩

/-- Calls one after the other. -/
theorem InStep.along {calls : List Call} (h : p.InStep connection stem) (hstem : Loadable stem)
    (hfits : Along connection patience (Fits connection patience) p calls) :
    Along connection patience (Agrees connection patience) p calls := by
  induction calls generalizing p with
  | nil => trivial
  | cons c calls ih =>
    obtain ⟨hfirst, hrest⟩ := hfits
    obtain ⟨hnext, hagrees⟩ := h.call hstem hfirst
    exact ⟨hagrees, ih hnext hrest⟩

/-! ## The start -/

/-- An evaluator over a Lisp, and a caller over an engine like that of the Lisp with a connection to the
server of a number. -/
def start (evaluator : Evaluator) (lisp : Lisp) (stem : String) (server : Server) : Sides :=
  { evaluator, lisp, server, caller := { runner := .new lisp.engine stem } }

/-- An engine that has loaded nothing is what any renaming makes of it. -/
theorem renamed_fresh (f : String → String) (registry : Registry) (catalog : Option Catalog)
    (around : Surroundings) :
    Engine.Renamed f { registry, catalog, around } { registry, catalog, around } where
  registry := rfl
  catalog := rfl
  env := rfl
  around := rfl
  materialized := rfl
  generation := rfl
  closed := rfl
  store := ⟨rfl, rfl, Array.map_empty.symm⟩
  funcs _ := rfl
  globals _ := rfl
  symbols _ := rfl
  outcomes _ := .none

theorem inStep_start {s : Lisp} {v : Evaluator} {registry : Registry} {catalog : Option Catalog}
    {around : Surroundings} (hcache : s.compiler.cache = none)
    (hengine : s.engine = { registry, catalog, around }) (hv : Evaluator.new s .host = .ok v)
    (stem peer : String) (now : Instant) :
    let accepted := Server.accept { compiler := s.compiler, preamble := s.preamble, target := .host }
      peer now
    (start v s stem accepted.1).InStep accepted.2 (if stem = "" then "repl" else stem) := by
  have henv : Env.initial.ensure Env.defaultNs = .initial := rfl
  obtain ⟨session, hsession, rfl⟩ : ∃ session, Session.new (some s.preamble) .host = .ok session ∧
      v = { session, ns := Env.defaultNs } := by
    have hlocal : Target.host.isLocal = true := by rw [Target.isLocal, Target.normalize_host]; rfl
    unfold Evaluator.new at hv
    rw [hlocal] at hv
    obtain ⟨session, hsession, hend⟩ := Except.bind_eq_ok hv
    cases hend
    exact ⟨session, hsession, rfl⟩
  have htarget : session.target = .host := by
    obtain ⟨env, -, rfl⟩ := Session.new_eq_ok hsession
    exact Target.normalize_host
  have hrunner : (Runner.new s.engine stem).engine = s.engine := by
    rw [hengine]
    exact congrArg (fun env => ({ registry, catalog, around, env } : Engine)) henv
  unfold Server.accept
  dsimp only
  rw [hsession]
  exact {
    cache := hcache
    target := htarget
    attached := ⟨rfl, _, rfl, rfl, rfl⟩
    idle := ⟨⟨rfl, rfl⟩, rfl, rfl⟩
    ns := rfl
    evals := rfl
    stemmed := rfl
    engine := by
      show s.engine.Renamed _ (Runner.new s.engine stem).engine
      rw [hrunner, hengine]
      exact renamed_fresh _ _ _ _ }

end Sides

/-- A caller of the service gets what an evaluator gives: call by call the same value or a failure of the
same phase and kind, the same namespace, the same printed text and the same values of data symbols. -/
theorem remote_agrees {s : Lisp} {v : Evaluator} {registry : Registry} {catalog : Option Catalog}
    {around : Surroundings} (hcache : s.compiler.cache = none)
    (hengine : s.engine = { registry, catalog, around }) (hv : Evaluator.new s .host = .ok v)
    {stem peer : String} (hstem : '#' ∉ stem.toList) {now : Instant} {server : Server}
    {connection : Nat} (hserver : Server.accept
      { compiler := s.compiler, preamble := s.preamble, target := .host } peer now = (server, connection))
    {patience : Duration} {calls : List Call}
    (hfits : Sides.Along connection patience (Sides.Fits connection patience)
      (.start v s stem server) calls) :
    Sides.Along connection patience (Sides.Agrees connection patience) (.start v s stem server)
      calls := by
  have hloadable : Loadable (if stem = "" then "repl" else stem) := by
    split
    · unfold Loadable
      decide
    · exact ⟨‹_›, hstem⟩
  have hstart := Sides.inStep_start hcache hengine hv stem peer now
  rw [hserver] at hstart
  exact hstart.along hloadable hfits

/-- A service for the Lisp with the small preamble, with a connection. -/
def smallServer : Server × Nat :=
  Server.accept
    { compiler := Evaluator.smallLisp.compiler, preamble := Evaluator.smallLisp.preamble
      target := .host } "" ⟨0⟩

/-- The Lisp with the small preamble, here and behind the service. -/
def smallSides (stem : String) : Sides :=
  .start Evaluator.smallEvaluator Evaluator.smallLisp stem smallServer.1

/-- A definition and its use. -/
def smallCalls : List Call := [.require "(def x 1)", .eval "x"]

theorem remote_agrees_def_use :
    Sides.Along smallServer.2 Client.defaultTimeout (Sides.Fits smallServer.2 Client.defaultTimeout)
        (smallSides "a") smallCalls ∧
      Sides.Along smallServer.2 Client.defaultTimeout
        (Sides.Agrees smallServer.2 Client.defaultTimeout) (smallSides "a") smallCalls := by
  have hfits : Sides.Along smallServer.2 Client.defaultTimeout
      (Sides.Fits smallServer.2 Client.defaultTimeout) (smallSides "a") smallCalls := by
    refine ⟨?_, ?_, trivial⟩ <;> decide +kernel
  have hnew : Evaluator.new Evaluator.smallLisp .host = .ok Evaluator.smallEvaluator :=
    Evaluator.new_smallEvaluator
  have hserver : Server.accept
      { compiler := Evaluator.smallLisp.compiler, preamble := Evaluator.smallLisp.preamble
        target := .host } "" ⟨0⟩ = (smallServer.1, smallServer.2) := rfl
  exact ⟨hfits, remote_agrees rfl rfl hnew (by decide) hserver hfits⟩

/-- A caller whose modules have a name of the kind that the engine keeps for itself gets no value. -/
theorem not_agrees_of_reserved_name :
    (smallSides "a#b").Fits smallServer.2 Client.defaultTimeout (.eval "1") ∧
      ((smallSides "a#b").call smallServer.2 Client.defaultTimeout (.eval "1")).2.1 =
        .ok (.value 1) ∧
      ¬ (smallSides "a#b").Agrees smallServer.2 Client.defaultTimeout (.eval "1") := by
  -- One evaluation of the call decides all three.
  obtain ⟨hfits, hhere, hthere⟩ : (smallSides "a#b").Fits smallServer.2 Client.defaultTimeout (.eval "1") ∧
      ((smallSides "a#b").call smallServer.2 Client.defaultTimeout (.eval "1")).2.1.toOption =
        some (.value 1) ∧
      ((smallSides "a#b").call smallServer.2 Client.defaultTimeout (.eval "1")).2.2.toOption = none := by
    decide +kernel
  have hvalue := Except.eq_ok_of_toOption hhere
  refine ⟨hfits, hvalue, fun hagrees => ?_⟩
  have hresult := hagrees.result
  rw [hvalue] at hresult
  generalize ((smallSides "a#b").call smallServer.2 Client.defaultTimeout (.eval "1")).2.2 = there
    at hthere hresult
  cases there with
  | error e => exact hresult.elim
  | ok value => cases hthere

end Service

end WasmLisp
