import WasmLisp.Failure
import WasmLisp.Form
import WasmLisp.Text.Integer
import WasmLisp.Token

/-!
Reading forms from tokens. The reader goes through the tokens once and keeps the forms that are
still open on a stack: a list or vector with the items read so far, or a quote mark that waits for
its form.
-/

namespace WasmLisp

namespace Reader

/-- Why a source text is not a sequence of forms. -/
inductive Fault where
  | stringLiteral (e : Token.StringLiteral)
  | unexpectedEnd (line : Nat)
  | unclosed (line : Nat) (closer : Token.Kind)
  | unexpected (line : Nat) (kind : Token.Kind)
  | badInteger (line : Nat) (text : String)
  | emptyKeyword (line : Nat)
  | badSymbol (line : Nat) (text : String)
  deriving DecidableEq, Repr

/-- The wording of a fault. -/
def Fault.message : Fault → String
  | .stringLiteral e => e.message
  | .unexpectedEnd line => s!"line {line}: unexpected end of input"
  | .unclosed line closer => s!"line {line}: unclosed form, expected {closer.name}"
  | .unexpected line kind => s!"line {line}: unexpected {kind.name}"
  | .badInteger line text => s!"line {line}: invalid integer {Text.quoted text}"
  | .emptyKeyword line => s!"line {line}: empty keyword"
  | .badSymbol line text => s!"line {line}: invalid symbol {Text.quoted text}"

/-- The form an atom stands for. -/
def atom (text : String) (line : Nat) : Except Fault Form :=
  if Text.looksNumeric text then
    match Text.int64? text with
    | some value => .ok (.int value line)
    | none => .error (.badInteger line text)
  else match text.toList with
    | [':'] => .error (.emptyKeyword line)
    | ':' :: name => .ok (.keyword (String.ofList name) line)
    | cs =>
      if cs.getLast? = some '/' && text ≠ "/" then .error (.badSymbol line text)
      else .ok (.sym (Symbol.ofText text) line)

/-- A form that is still open: its items so far in reverse order, and the line it began on. -/
inductive Opened where
  | list (items : List Form) (line : Nat)
  | vector (items : List Form) (line : Nat)
  | quote (line : Nat)
  deriving Repr

/-- The open forms, innermost first, and the finished top-level forms in reverse order. -/
structure State where
  opened : List Opened := []
  finished : List Form := []

/-- The form `(quote x)` that a quote mark on the given line makes of `x`. -/
def quoteForm (line : Nat) (x : Form) : Form :=
  .list [.sym { name := "quote" } line, x] line

/-- Adds a complete form to the innermost open one. A waiting quote mark is thereby complete too. -/
def place (finished : List Form) : List Opened → Form → State
  | [], f => { opened := [], finished := f :: finished }
  | .list items line :: outer, f => { opened := .list (f :: items) line :: outer, finished }
  | .vector items line :: outer, f => { opened := .vector (f :: items) line :: outer, finished }
  | .quote line :: outer, f => place finished outer (quoteForm line f)

/-- Takes one token into account. -/
def step (s : State) (t : Token) : Except Fault State :=
  match t.kind, s.opened with
  | .openParen, opened => .ok { s with opened := .list [] t.line :: opened }
  | .openBracket, opened => .ok { s with opened := .vector [] t.line :: opened }
  | .quote, opened => .ok { s with opened := .quote t.line :: opened }
  | .closeParen, .list items line :: outer =>
    .ok (place s.finished outer (.list items.reverse line))
  | .closeBracket, .vector items line :: outer =>
    .ok (place s.finished outer (.vector items.reverse line))
  | .closeParen, _ => .error (.unexpected t.line .closeParen)
  | .closeBracket, _ => .error (.unexpected t.line .closeBracket)
  | .atom, opened => (place s.finished opened ·) <$> atom t.text t.line

/-- Reads tokens from a state on; `last` is the line of the last token before them. -/
def run (last : Nat) (s : State) : List Token → Except Fault (List Form)
  | [] =>
    match s.opened with
    | [] => .ok s.finished.reverse
    | .list _ line :: _ => .error (.unclosed line .closeParen)
    | .vector _ line :: _ => .error (.unclosed line .closeBracket)
    | .quote _ :: _ => .error (.unexpectedEnd last)
  | t :: rest => do run t.line (← step s t) rest

/-- The forms that a sequence of tokens writes. -/
def forms (tokens : List Token) : Except Fault (List Form) := run 1 {} tokens

/-- The forms of a source text, or why it has none. -/
def read (src : String) : Except Fault (List Form) :=
  match Token.scan src with
  | .error e => .error (.stringLiteral e)
  | .ok tokens => forms tokens

end Reader

/-- The forms of a source text. -/
def Form.readAll (src : String) : Result (List Form) :=
  (Reader.read src).mapError fun e => Failure.unreadable e.message

/-- The forms of a source that is given by its bytes. -/
def Form.readBytes (src : List UInt8) : Result (List Form) := Form.readAll (Text.ofBytes src)

end WasmLisp
