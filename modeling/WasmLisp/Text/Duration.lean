import WasmLisp.Text.Hex

/-!
Durations and their text: numbers with units one after the other, as in `1h15m30.5s`.
-/

namespace WasmLisp

/-- A span of time in nanoseconds. -/
structure Duration where
  ns : Int
  deriving DecidableEq, Repr, Inhabited

namespace Duration

def ofMilliseconds (ms : Nat) : Duration := ⟨ms * 1000000⟩

def ofSeconds (s : Nat) : Duration := ⟨s * 1000000000⟩

/-! ## Writing -/

/-- A number of a unit that has `places` decimal places, without zeros at the end. -/
def decimal (places n : Nat) : String :=
  let digits := toString (n % Nat.pow 10 places)
  let all := ("".pushn '0' (places - digits.length) ++ digits).toList
  let kept := (all.reverse.dropWhile (· == '0')).reverse
  let fraction := if n % Nat.pow 10 places = 0 then "" else "." ++ String.ofList kept
  toString (n / Nat.pow 10 places) ++ fraction

/-- The text of a number of nanoseconds: below a second in the largest unit that leaves a whole
part, and else in hours, minutes and seconds. -/
def textOfNat (n : Nat) : String :=
  if n = 0 then "0s"
  else if n < 1000 then s!"{n}ns"
  else if n < 1000000 then decimal 3 n ++ "µs"
  else if n < 1000000000 then decimal 6 n ++ "ms"
  else
    let minute := 60000000000
    let seconds := decimal 9 (n % minute) ++ "s"
    let minutes := n / minute
    if minutes = 0 then seconds
    else if minutes < 60 then s!"{minutes}m" ++ seconds
    else s!"{minutes / 60}h{minutes % 60}m" ++ seconds

def text (d : Duration) : String :=
  if d.ns < 0 then "-" ++ textOfNat d.ns.natAbs else textOfNat d.ns.toNat

/-! ## Reading -/

/-- A text between double quotes. What is not a printable ASCII character is written byte by byte. -/
def quoted (s : String) : String :=
  let shown (c : Char) : String :=
    if c.toNat < 0x20 || 0x80 ≤ c.toNat then
      String.join ((String.singleton c).toUTF8.toList.map fun b => "\\x" ++ Text.hexPadded 2 b.toNat)
    else if c = '"' || c = '\\' then "\\" ++ String.singleton c
    else String.singleton c
  "\"" ++ String.join (s.toList.map shown) ++ "\""

/-- Why a text is no duration. -/
inductive Fault where
  | invalid
  | noUnit
  | unknownUnit (unit : String)
  deriving DecidableEq, Repr

/-- The message of a fault in a text. -/
def Fault.message (whole : String) : Fault → String
  | .invalid => "time: invalid duration " ++ quoted whole
  | .noUnit => "time: missing unit in duration " ++ quoted whole
  | .unknownUnit unit => s!"time: unknown unit {quoted unit} in duration " ++ quoted whole

/-- The nanoseconds of a unit; both micro signs are known. -/
def unit? : String → Option Nat
  | "ns" => some 1
  | "us" => some 1000
  | "µs" => some 1000
  | "μs" => some 1000
  | "ms" => some 1000000
  | "s" => some 1000000000
  | "m" => some 60000000000
  | "h" => some 3600000000000
  | _ => none

def valueOf (digits : List Char) : Nat :=
  digits.foldl (fun n c => n * 10 + (c.toNat - '0'.toNat)) 0

/-- Adds up numbers with units; at most as many as the fuel says. -/
def sumOfParts : (fuel : Nat) → List Char → Except Fault Nat
  | 0, _ => .error .invalid
  | fuel + 1, cs => do
    let whole := cs.takeWhile Char.isDigit
    let afterWhole := cs.dropWhile Char.isDigit
    let (fraction, rest) := match afterWhole with
      | '.' :: more => (more.takeWhile Char.isDigit, more.dropWhile Char.isDigit)
      | _ => ([], afterWhole)
    if whole.isEmpty && fraction.isEmpty then throw .invalid
    if 0x8000000000000000 < valueOf whole then throw .invalid
    let isUnit (c : Char) := !(c.isDigit || c = '.')
    let name := String.ofList (rest.takeWhile isUnit)
    if name = "" then throw .noUnit
    let some unit := unit? name | throw (.unknownUnit name)
    let part := valueOf whole * unit + valueOf fraction * unit / Nat.pow 10 fraction.length
    if 0x8000000000000000 < part then throw .invalid
    let rest := rest.dropWhile isUnit
    let total := part + (← if rest.isEmpty then pure 0 else sumOfParts fuel rest)
    if 0x8000000000000000 < total then throw .invalid
    return total

/-- Reads a duration: a sign if any, and then `0` alone or numbers with units. -/
def parse (s : String) : Except Fault Duration := do
  let (negative, cs) := match s.toList with
    | '-' :: rest => (true, rest)
    | '+' :: rest => (false, rest)
    | cs => (false, cs)
  if cs = ['0'] then return ⟨0⟩
  let n ← sumOfParts (cs.length + 1) cs
  if negative then return ⟨-n⟩
  if 0x8000000000000000 ≤ n then throw .invalid
  return ⟨n⟩

end Duration

end WasmLisp
