import WasmLisp.Text.Hex

/-!
JSON values and their text without blanks.
-/

namespace WasmLisp

/-- A JSON value; numbers are whole. -/
inductive JsonValue where
  | null
  | text (s : String)
  | number (n : Int)
  | bool (b : Bool)
  | array (items : List JsonValue)
  | object (fields : List (String × JsonValue))
  deriving Repr, Inhabited

namespace JsonValue

/-- A character inside quotes. The characters that mean something to markup are escaped too. -/
def escaped (c : Char) : String :=
  if c = '"' || c = '\\' then "\\" ++ String.singleton c
  else if c = '\n' then "\\n"
  else if c = '\r' then "\\r"
  else if c = '\t' then "\\t"
  else if c = Char.ofNat 8 then "\\b"
  else if c = Char.ofNat 12 then "\\f"
  else if c.toNat < 0x20 || c = '<' || c = '>' || c = '&' || c.toNat = 0x2028 || c.toNat = 0x2029 then
    "\\u" ++ Text.hexPadded 4 c.toNat
  else String.singleton c

/-- A text between quotes. -/
def quoted (s : String) : String :=
  (s.foldl (fun acc c => if c.isAlphanum then acc.push c else acc ++ escaped c) "\"").push '"'

mutual

/-- The text of a value. -/
def render : JsonValue → String
  | .null => "null"
  | .text s => quoted s
  | .number n => toString n
  | .bool b => if b then "true" else "false"
  | .array items => "[" ++ ",".intercalate (renderItems items) ++ "]"
  | .object fields => "\x7b" ++ ",".intercalate (renderFields fields) ++ "\x7d"

def renderItems : List JsonValue → List String
  | [] => []
  | v :: rest => render v :: renderItems rest

def renderFields : List (String × JsonValue) → List String
  | [] => []
  | (k, v) :: rest => (quoted k ++ ":" ++ render v) :: renderFields rest

end

end JsonValue

end WasmLisp
