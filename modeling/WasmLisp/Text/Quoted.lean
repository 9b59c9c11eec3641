import WasmLisp.Text.Graphic
import WasmLisp.Text.Hex

/-!
Quoted text as messages show it: between double quotes, with escapes for the quote, the backslash
and every character that is not graphic.
-/

namespace WasmLisp.Text

/-- The one-letter escape of a control character, if it has one. -/
def shortEscape? (c : Char) : Option Char :=
  match c.toNat with
  | 7 => some 'a'
  | 8 => some 'b'
  | 9 => some 't'
  | 10 => some 'n'
  | 11 => some 'v'
  | 12 => some 'f'
  | 13 => some 'r'
  | _ => none

/-- One character inside a quoted text. Other control characters take two hexadecimal digits,
further characters that are not graphic four or eight. -/
def quoteChar (c : Char) : List Char :=
  if c = '"' || c = '\\' then ['\\', c]
  else if isGraphic c then [c]
  else match shortEscape? c with
    | some letter => ['\\', letter]
    | none =>
      let n := c.toNat
      if n < 0x20 || n = 0x7f then '\\' :: 'x' :: hexFixed 2 n
      else if n < 0x10000 then '\\' :: 'u' :: hexFixed 4 n
      else '\\' :: 'U' :: hexFixed 8 n

/-- A text between double quotes, escaped so that every character of it shows. -/
def quoted (s : String) : String :=
  String.ofList ('"' :: s.toList.flatMap quoteChar ++ ['"'])

end WasmLisp.Text
