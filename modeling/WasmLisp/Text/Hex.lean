/-!
Hexadecimal text: lower-case digits of a number padded to a width, bytes as two digits each, and
the reader of the latter.
-/

namespace WasmLisp.Text

/-- The lower-case digit of a value below 16. -/
def hexDigit (n : Nat) : Char :=
  if n < 10 then Char.ofNat (n + 48) else Char.ofNat (n + 87)

/-- The last `width` hexadecimal digits of `n`, leading zeros included. -/
def hexFixed (width n : Nat) : List Char :=
  match width with
  | 0 => []
  | w + 1 => hexFixed w (n / 16) ++ [hexDigit (n % 16)]

/-- How many hexadecimal digits `n` needs; zero needs one. -/
def hexWidth (n : Nat) : Nat :=
  if n < 16 then 1 else hexWidth (n / 16) + 1

/-- `n` in hexadecimal with at least `width` digits. -/
def hexPadded (width n : Nat) : String :=
  String.ofList (hexFixed (max width (hexWidth n)) n)

/-- Bytes as lower-case hexadecimal text, two digits for each. -/
def hexOfBytes (bytes : List UInt8) : String :=
  String.ofList (bytes.flatMap fun b => [hexDigit (b.toNat / 16), hexDigit (b.toNat % 16)])

/-- The value of a hexadecimal digit of either case. -/
def hexValue? (c : Char) : Option Nat :=
  let n := c.toNat
  if 48 ≤ n && n ≤ 57 then some (n - 48)
  else if 97 ≤ n && n ≤ 102 then some (n - 87)
  else if 65 ≤ n && n ≤ 70 then some (n - 55)
  else none

/-- Reads pairs of hexadecimal digits; `none` for an odd count or another character. -/
def bytesOfHexChars? : List Char → Option (List UInt8)
  | [] => some []
  | [_] => none
  | a :: b :: rest => do
    let hi ← hexValue? a
    let lo ← hexValue? b
    let tail ← bytesOfHexChars? rest
    return UInt8.ofNat (hi * 16 + lo) :: tail

/-- Reads text written as pairs of hexadecimal digits. -/
def bytesOfHex? (s : String) : Option (List UInt8) := bytesOfHexChars? s.toList

end WasmLisp.Text
