import WasmLisp.Lisp
import WasmLisp.Repl

/-!
Interactive sessions over a running Lisp. What a key asks for is evaluated at once, and its result is
kept until it is delivered.
-/

namespace WasmLisp

/-- Evaluates a source, and gives what was printed while it ran. -/
def Evaluator.evalPrinting (v : Evaluator) (s : Lisp) (source : String) :
    Evaluator × Lisp × String × Result Int64 :=
  let (v, s, r) := v.eval s source
  let (engine, printed) := s.engine.takeOutput
  (v, { s with engine }, printed, r)

/-- An interactive session over a Lisp. -/
structure LiveRepl where
  repl : Repl
  evaluator : Evaluator
  lisp : Lisp
  /-- A result that is not delivered yet. -/
  held : Option ReplEntry := none
  /-- Whether the session is to end. -/
  quit : Bool := false
  deriving Inhabited

namespace LiveRepl

/-- A session of a new user. -/
def new (title : String) (s : Lisp) : Result LiveRepl := do
  let v ← Evaluator.new s .host
  return { repl := .new title v.ns, evaluator := v, lisp := s }

/-- Takes a key by its name. -/
def press (s : LiveRepl) (key : String) : LiveRepl :=
  let (repl, request) := s.repl.press key
  let s := { s with repl, quit := request = .quit }
  match request with
  | .eval source =>
    let ns := s.evaluator.ns
    let (evaluator, lisp, _, outcome) := s.evaluator.evalPrinting s.lisp source
    { s with evaluator, lisp, held := some { ns, source, outcome } }
  | _ => s

/-- Delivers the result that is held. -/
def deliver (s : LiveRepl) : LiveRepl :=
  match s.held with
  | some entry => { s with repl := s.repl.deliver entry s.evaluator.ns, held := none, quit := false }
  | none => { s with quit := false }

end LiveRepl

end WasmLisp
