/-!
Instants: points in time in milliseconds since the start of 1970, as dates and times of day that
text writes as `2026-03-01T12:00:00.5Z`.
-/

namespace WasmLisp

/-- Milliseconds since the start of 1970. -/
structure Instant where
  ms : Int
  deriving DecidableEq, Repr, Inhabited

namespace Instant

/-- The date of a day, counted from the start of 1970. Years are taken to begin in March, so that
the leap day is the last of a year; eras of 400 years all have the same days. -/
def dateOfDay (day : Int) : Int × Nat × Nat :=
  let z := day + 719468
  let era := Int.fdiv z 146097
  let doe := (z - era * 146097).toNat
  let yoe := (doe - doe / 1460 + doe / 36524 - doe / 146096) / 365
  let doy := doe - (365 * yoe + yoe / 4 - yoe / 100)
  let mp := (5 * doy + 2) / 153
  let d := doy - (153 * mp + 2) / 5 + 1
  let m := if mp < 10 then mp + 3 else mp - 9
  let y := (yoe : Int) + era * 400
  (if m ≤ 2 then y + 1 else y, m, d)

/-- The day of a date, counted from the start of 1970. -/
def dayOfDate (year : Int) (month day : Nat) : Int :=
  let y := if month ≤ 2 then year - 1 else year
  let era := Int.fdiv y 400
  let yoe := (y - era * 400).toNat
  let mp := if month > 2 then month - 3 else month + 9
  let doy := (153 * mp + 2) / 5 + day - 1
  let doe := yoe * 365 + yoe / 4 - yoe / 100 + doy
  era * 146097 + doe - 719468

def isLeap (year : Nat) : Bool := year % 4 == 0 && (year % 100 != 0 || year % 400 == 0)

def daysIn (year month : Nat) : Nat :=
  if month = 2 then (if isLeap year then 29 else 28)
  else if month = 4 || month = 6 || month = 9 || month = 11 then 30 else 31

/-- A number with leading zeros up to a width. -/
def padded (width n : Nat) : String :=
  let s := toString n
  "".pushn '0' (width - s.length) ++ s

/-- Date, time of day and milliseconds. -/
def parts (t : Instant) : (Int × Nat × Nat) × (Nat × Nat × Nat) × Nat :=
  let day := Int.fdiv t.ms 86400000
  let rest := (t.ms - day * 86400000).toNat
  (dateOfDay day, (rest / 3600000, rest / 60000 % 60, rest / 1000 % 60), rest % 1000)

def yearText (y : Int) : String :=
  if y < 0 then "-" ++ padded 4 y.natAbs else padded 4 y.toNat

/-- Date and time of day without a fraction. -/
def seconds (t : Instant) : String :=
  let ((y, mo, d), (h, mi, s), _) := t.parts
  yearText y ++ "-" ++ padded 2 mo ++ "-" ++ padded 2 d ++ "T" ++ padded 2 h ++ ":" ++ padded 2 mi
    ++ ":" ++ padded 2 s

/-- The instant with a fraction only where it is not zero, and without zeros at its end. -/
def text (t : Instant) : String :=
  let ms := t.parts.2.2
  let digits := ((padded 3 ms).toList.reverse.dropWhile (· = '0')).reverse
  t.seconds ++ (if ms = 0 then "" else "." ++ String.ofList digits) ++ "Z"

/-- The instant with three digits of fraction. -/
def fixedText (t : Instant) : String := t.seconds ++ "." ++ padded 3 t.parts.2.2 ++ "Z"

/-- The instant before all that count: the start of the year one. -/
def zero : Instant := ⟨dayOfDate 1 1 1 * 86400000⟩

/-! ## Reading -/

/-- A number of at least `least` and at most `most` digits, and what follows. -/
def number? (least most : Nat) (cs : List Char) : Option (Nat × List Char) :=
  let ds := (cs.take most).takeWhile Char.isDigit
  if ds.length < least then none
  else some (ds.foldl (fun n c => n * 10 + (c.toNat - 48)) 0, cs.drop ds.length)

def expect? (c : Char) : List Char → Option (List Char)
  | d :: rest => if c = d then some rest else none
  | [] => none

/-- A fraction of a second in milliseconds, the rest of it dropped. -/
def fraction : List Char → Nat × List Char
  | p :: d :: rest =>
    if (p = '.' || p = ',') && d.isDigit then
      let ds := (d :: rest).takeWhile Char.isDigit
      let ms := ((ds ++ ['0', '0', '0']).take 3).foldl (fun n c => n * 10 + (c.toNat - 48)) 0
      (ms, (d :: rest).drop ds.length)
    else (0, p :: d :: rest)
  | cs => (0, cs)

/-- An offset from universal time in minutes. -/
def zone? : List Char → Option (Int × List Char)
  | 'Z' :: rest => some (0, rest)
  | sign :: rest => do
    let (h, rest) ← number? 2 2 rest
    let (m, rest) ← number? 2 2 (← expect? ':' rest)
    if 24 < h || 60 ≤ m then none
    else if sign = '+' then some ((h * 60 + m : Nat), rest)
    else if sign = '-' then some (-(h * 60 + m : Nat), rest)
    else none
  | [] => none

/-- A date with four digits of the year. -/
def date? (cs : List Char) : Option ((Nat × Nat × Nat) × List Char) := do
  let (y, cs) ← number? 4 4 cs
  let (m, cs) ← number? 1 2 (← expect? '-' cs)
  let (d, cs) ← number? 1 2 (← expect? '-' cs)
  if m = 0 || 12 < m || d = 0 || daysIn y m < d then none else some ((y, m, d), cs)

/-- A time of day in milliseconds. -/
def time? (cs : List Char) : Option (Nat × List Char) := do
  let (h, cs) ← number? 1 2 cs
  let (m, cs) ← number? 1 2 (← expect? ':' cs)
  let (s, cs) ← number? 1 2 (← expect? ':' cs)
  let (ms, cs) := fraction cs
  if 24 ≤ h || 60 ≤ m || 60 ≤ s then none
  else some (((h * 60 + m) * 60 + s) * 1000 + ms, cs)

/-- Reads a date alone, a date and a time with a zone after a letter, or without one after a
blank. -/
def read? (text : String) : Option Instant := do
  let ((y, m, d), rest) ← date? text.toList
  let midnight := dayOfDate y m d * 86400000
  match rest with
  | [] => some ⟨midnight⟩
  | mark :: rest =>
    let (ms, rest) ← time? rest
    if mark = 'T' || mark = 't' then
      let (offset, rest) ← zone? rest
      if rest.isEmpty then some ⟨midnight + ms - offset * 60000⟩ else none
    else if mark = ' ' && rest.isEmpty then some ⟨midnight + ms⟩
    else none

end Instant

end WasmLisp
