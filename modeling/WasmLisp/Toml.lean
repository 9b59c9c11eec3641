/-!
TOML documents: statements as they are written, and the tables that they make.
-/

namespace WasmLisp.Toml

/-- A key: the names on the way to a value. -/
abbrev Key := List String

/-- A value as it is written. Numbers with a fraction, dates and times are only known to be such. -/
inductive Literal where
  | text (s : String)
  | int (n : Int)
  | bool (b : Bool)
  | other
  | array (items : List Literal)
  | inline (pairs : List (Key × Literal))
  deriving Repr, Inhabited

/-- A line of a document. -/
inductive Statement where
  /-- The header of a table. -/
  | table (key : Key)
  /-- The header of one more table of an array. -/
  | element (key : Key)
  | pair (key : Key) (value : Literal)
  deriving Repr, Inhabited

/-- A value of a document. -/
inductive Value where
  | text (s : String)
  | int (n : Int)
  | bool (b : Bool)
  | other
  | array (items : List Value)
  | table (entries : List (String × Value))
  /-- Tables that headers made one by one. -/
  | tables (items : List (List (String × Value)))
  deriving Repr, Inhabited

/-- Named values. -/
abbrev Entries := List (String × Value)

/-- Whether a character may stand in a name without quotes. -/
def isBare (c : Char) : Bool := c.isAlphanum || c = '_' || c = '-'

/-- A character of a name in quotes. -/
def escapedChar (c : Char) : String :=
  match c with
  | '"' => "\\\""
  | '\\' => "\\\\"
  | '\x08' => "\\b"
  | '\t' => "\\t"
  | '\n' => "\\n"
  | '\x0c' => "\\f"
  | '\r' => "\\r"
  | c => String.singleton c

/-- A name as messages show it: in quotes unless it is bare. -/
def shownName (s : String) : String :=
  if s ≠ "" && s.toList.all isBare then s
  else "\"" ++ String.join (s.toList.map escapedChar) ++ "\""

/-- A key as messages show it. -/
def shown (k : Key) : String := ".".intercalate (k.map shownName)

end WasmLisp.Toml
