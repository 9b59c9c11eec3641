/-!
Integer literals in several bases: an optional sign, then decimal digits, or digits of base two,
eight or sixteen after `0b`, `0o` or `0x`, or of base eight after a leading zero. Underscores are
dropped before reading.
-/

namespace WasmLisp.Text

/-- The value of an ASCII digit or letter, the letters counting from ten in either case. -/
def digitValue? (c : Char) : Option Nat :=
  let n := c.toNat
  if 48 ≤ n && n ≤ 57 then some (n - 48)
  else if 97 ≤ n && n ≤ 122 then some (n - 87)
  else if 65 ≤ n && n ≤ 90 then some (n - 55)
  else none

/-- The number that digits of a base write after the digits of `acc`. -/
def digitsFrom? (base acc : Nat) : List Char → Option Nat
  | [] => some acc
  | c :: cs => do
    let d ← digitValue? c
    if d < base then digitsFrom? base (acc * base + d) cs else none

/-- Splits a literal without sign into its base and its digits. A base mark needs a digit after
it; without one the leading zero alone makes the base eight. -/
def splitBase : List Char → Nat × List Char
  | '0' :: mark :: d :: rest =>
    if mark = 'b' || mark = 'B' then (2, d :: rest)
    else if mark = 'o' || mark = 'O' then (8, d :: rest)
    else if mark = 'x' || mark = 'X' then (16, d :: rest)
    else (8, mark :: d :: rest)
  | '0' :: rest => (8, rest)
  | cs => (10, cs)

/-- A literal without sign. -/
def magnitude? (cs : List Char) : Option Nat :=
  if cs.isEmpty then none else
    let (base, digits) := splitBase cs
    digitsFrom? base 0 digits

/-- Splits off a sign; true stands for minus. -/
def splitSign : List Char → Bool × List Char
  | '-' :: cs => (true, cs)
  | '+' :: cs => (false, cs)
  | cs => (false, cs)

/-- Reads an integer literal that fits into 64 bits with sign. -/
def int64? (text : String) : Option Int64 := do
  let (negative, digits) := splitSign (text.toList.filter (· ≠ '_'))
  let n ← magnitude? digits
  let value : Int := if negative then - Int.ofNat n else Int.ofNat n
  if Int64.minValue.toInt ≤ value && value ≤ Int64.maxValue.toInt then some (Int64.ofInt value)
  else none

/-- Whether a text can only be meant as an integer: a digit, possibly after a sign. -/
def looksNumeric (text : String) : Bool :=
  match text.toList with
  | c :: d :: _ => if c = '-' || c = '+' then d.isDigit else c.isDigit
  | [c] => c.isDigit
  | [] => false

end WasmLisp.Text
