/-!
Forms: the data that source text is read as. Every form knows the line of its first token.
-/

namespace WasmLisp

/-- A name with an optional namespace; an empty namespace means that the name is unqualified. -/
structure Symbol where
  ns : String := ""
  name : String
  deriving DecidableEq, Repr, Inhabited

namespace Symbol

/-- Cuts characters at the first slash. -/
def cutSlash : List Char → Option (List Char × List Char)
  | [] => none
  | c :: cs =>
    if c = '/' then some ([], cs)
    else (cutSlash cs).map fun (before, after) => (c :: before, after)

/-- The parts of a text before and after its first slash. -/
def cut? (text : String) : Option (String × String) :=
  (cutSlash text.toList).map fun (before, after) => (String.ofList before, String.ofList after)

/-- Reads a symbol: the text is split at its first slash if there is something on both sides. -/
def ofText (text : String) : Symbol :=
  match cut? text with
  | some (ns, name) => if ns = "" || name = "" then { name := text } else { ns, name }
  | none => { name := text }

/-- Joins a namespace and a name. -/
def qualify (ns name : String) : String := ns ++ "/" ++ name

/-- The symbol as it is written. -/
def text (s : Symbol) : String := if s.ns = "" then s.name else qualify s.ns s.name

end Symbol

/-- A value of the reader. -/
inductive Form where
  | int (value : Int64) (line : Nat)
  | sym (symbol : Symbol) (line : Nat)
  | keyword (name : String) (line : Nat)
  | list (items : List Form) (line : Nat)
  | vector (items : List Form) (line : Nat)
  deriving Repr, Inhabited

namespace Form

/-- The line of the form's first token. -/
def line : Form → Nat
  | .int _ n => n
  | .sym _ n => n
  | .keyword _ n => n
  | .list _ n => n
  | .vector _ n => n

/-- The symbol that a list starts with. -/
def head? : Form → Option Symbol
  | .list (.sym s _ :: _) _ => some s
  | _ => none

/-- Strips every enclosing `(quote _)`. -/
def unquote : Form → Form
  | .list [.sym s l, x] n =>
    if s.ns = "" && s.name = "quote" then unquote x else .list [.sym s l, x] n
  | f => f

mutual

/-- The form as source text, with single spaces between the items of lists and vectors. -/
def render : Form → String
  | .int v _ => toString v.toInt
  | .sym s _ => s.text
  | .keyword name _ => ":" ++ name
  | .list items _ => "(" ++ renderItems items ++ ")"
  | .vector items _ => "[" ++ renderItems items ++ "]"

/-- Forms as source text, separated by single spaces. -/
def renderItems : List Form → String
  | [] => ""
  | [f] => f.render
  | f :: rest => f.render ++ " " ++ renderItems rest

end

end Form

end WasmLisp
