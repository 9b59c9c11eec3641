import WasmLisp.Text.Hex
import WasmLisp.Text.Instant
import WasmLisp.Text.Integer

/-!
Scalars of a sidecar: texts as a block mapping writes and reads them. A text is written plain
where that reads back as the same text, else in single or double quotes; a text of several lines
is written as an indented block.
-/

namespace WasmLisp.Scalar

/-! ## What plain text stands for -/

/-- What a plain scalar is taken for. -/
inductive Meaning where
  | text
  | null
  | bool
  | int (value : Int)
  /-- A number with a fraction or an exponent, by its integer part. -/
  | float (whole : Int)
  | instant (at_ : Instant)
  deriving DecidableEq, Repr, Inhabited

/-- Decimal digits as a number. -/
def digits (cs : List Char) : Nat := cs.foldl (fun n c => n * 10 + (c.toNat - 48)) 0

/-- The parts of a decimal number with an optional fraction and exponent: its digits as one number,
the power of ten they are taken by. -/
def decimal? (cs : List Char) : Option (Nat × Int) :=
  let whole := cs.takeWhile Char.isDigit
  let rest := cs.drop whole.length
  let (frac, rest) :=
    match rest with
    | '.' :: more => (more.takeWhile Char.isDigit, some (more.dropWhile Char.isDigit))
    | _ => ([], none)
  let after := rest.getD (cs.drop whole.length)
  let hasPoint := rest.isSome
  -- A point alone is no number, and a number that starts with one goes on with a digit.
  if whole.isEmpty && (!hasPoint || frac.isEmpty) then none
  else
    let mantissa := digits (whole ++ frac)
    let scale : Int := -(frac.length : Int)
    match after with
    | [] => some (mantissa, scale)
    | e :: more =>
      if e ≠ 'e' && e ≠ 'E' then none
      else
        let (negative, ds) := Text.splitSign more
        if ds.isEmpty || !ds.all Char.isDigit then none
        else some (mantissa, scale + (if negative then -(digits ds : Int) else digits ds))

/-- The least number too large for a floating-point number of 64 bits. -/
def floatLimit : Nat := Nat.pow 2 1024 - Nat.pow 2 970

/-- Whether a number fits into 64 bits of floating point. -/
def floatFits (mantissa : Nat) (scale : Int) : Bool :=
  if mantissa = 0 || scale < 0 then mantissa < floatLimit * Nat.pow 10 (min scale.natAbs 400)
  else scale < 400 && mantissa * Nat.pow 10 scale.toNat < floatLimit

/-- A decimal number that a plain scalar writes, by its integer part. -/
def float? (cs : List Char) : Option Int := do
  let (negative, rest) := Text.splitSign cs
  let (mantissa, scale) ← decimal? rest
  if !floatFits mantissa scale then none
  else
    let whole := if scale < 0 then mantissa / Nat.pow 10 (min scale.natAbs 400)
      else mantissa * Nat.pow 10 scale.toNat
    some (if negative then -(whole : Int) else whole)

/-- An integer of 64 bits with sign, or without sign and without one. -/
def int? (cs : List Char) : Option Int := do
  let (negative, rest) := Text.splitSign cs
  let n ← Text.magnitude? rest
  let v : Int := if negative then -(n : Int) else n
  if -0x8000000000000000 ≤ v && v < 0x8000000000000000 then some v
  else if cs.head? ≠ some '+' && !negative && v < 0x10000000000000000 then some v
  else none

/-- What a plain text stands for. -/
def meaning (s : String) : Meaning :=
  if ["", "~", "null", "Null", "NULL"].contains s then .null
  else if ["true", "True", "TRUE", "false", "False", "FALSE"].contains s then .bool
  else if [".nan", ".NaN", ".NAN", ".inf", ".Inf", ".INF", "+.inf", "+.Inf", "+.INF", "-.inf", "-.Inf",
      "-.INF"].contains s then .float 0
  else match s.toList with
    | [] => .null
    | '.' :: rest =>
      match float? ('.' :: rest) with
      | some w => .float w
      | none => .text
    | c :: rest =>
      if !c.isDigit && c ≠ '+' && c ≠ '-' then .text
      else match Instant.read? s with
        | some t => .instant t
        | none =>
          let plain := (c :: rest).filter (· ≠ '_')
          match int? plain with
          | some v => .int v
          | none =>
            match float? plain with
            | some w => .float w
            | none => .text

/-! ## Writing -/

/-- Spellings of truth values that other readers know. -/
def isOldBool (s : String) : Bool :=
  ["y", "Y", "yes", "Yes", "YES", "on", "On", "ON", "n", "N", "no", "No", "NO", "off", "Off",
   "OFF"].contains s

/-- Groups of one or two digits below sixty, each after a colon, then an optional fraction. -/
def sixties (fuel : Nat) (cs : List Char) : Bool :=
  match fuel, cs with
  | 0, _ => false
  | _, [] => true
  | _, '.' :: rest => rest.all fun c => c.isDigit || c = '_'
  | fuel + 1, ':' :: a :: b :: rest =>
    if a.isDigit && b.isDigit then a.toNat < 54 && sixties fuel rest
    else a.isDigit && sixties fuel (b :: rest)
  | _, [':', a] => a.isDigit
  | _, _ => false

/-- Whether other readers could take a text for a number in base sixty. -/
def isSexagesimal (s : String) : Bool :=
  match (Text.splitSign s.toList).2 with
  | d :: rest =>
    let tail := rest.dropWhile fun c => c.isDigit || c = '_'
    d.isDigit && tail.head? = some ':' && sixties s.length tail
  | [] => false

def isBreak (c : Char) : Bool :=
  [0x0a, 0x0d, 0x85, 0x2028, 0x2029].contains c.toNat

def isBlankChar (c : Char) : Bool := c = ' ' || c = '\t'

/-- Whether a character may stand as it is. -/
def isShown (c : Char) : Bool :=
  let n := c.toNat
  n = 0x0a || (0x20 ≤ n && n ≤ 0x7e) || (0xa0 ≤ n && n ≤ 0xd7ff)
    || (0xe000 ≤ n && n ≤ 0xfffd && n ≠ 0xfeff)

/-- What is known of a text before it is written. -/
structure Traits where
  /-- It could be taken for something else where it stands. -/
  indicators : Bool := false
  breaks : Bool := false
  special : Bool := false
  tabs : Bool := false
  edgeSpace : Bool := false
  trailingSpace : Bool := false
  edgeBreak : Bool := false
  breakSpace : Bool := false
  spaceBreak : Bool := false
  deriving DecidableEq, Repr

/-- Whether the character at a place could be taken for something else there. -/
def indicates (first : Bool) (prev : Option Char) (c : Char) (next : Option Char) : Bool :=
  let spaceNext := match next with
    | none => true
    | some d => isBlankChar d
  if first then
    ("#,[]\x7b\x7d&*!|>'\"%@\x60".toList.contains c)
      || ((c = '?' || c = ':' || c = '-') && spaceNext)
  else
    (c = ':' && spaceNext)
      || (c = '#' && match prev with
          | some p => isBlankChar p || isBreak p
          | none => true)

/-- Goes through a text character by character. -/
def traitsFrom (first : Bool) (prev : Option Char) (t : Traits) : List Char → Traits
  | [] => t
  | c :: rest =>
    let last := rest.isEmpty
    let space := c = ' '
    let brk := isBreak c
    let t : Traits :=
      { indicators := t.indicators || indicates first prev c rest.head?
        breaks := t.breaks || brk
        tabs := t.tabs || c = '\t'
        special := t.special || (c ≠ '\t' && !isShown c)
        edgeSpace := t.edgeSpace || (space && (first || last))
        trailingSpace := t.trailingSpace || (space && last)
        edgeBreak := t.edgeBreak || (brk && (first || last))
        breakSpace := t.breakSpace || (space && (prev.map isBreak).getD false)
        spaceBreak := t.spaceBreak || (brk && prev = some ' ') }
    traitsFrom false (some c) t rest

def traits (s : String) : Traits :=
  let start : Traits := { indicators := s.startsWith "---" || s.startsWith "..." }
  traitsFrom true none start s.toList

/-- A character between double quotes. -/
def escaped (c : Char) : List Char :=
  let n := c.toNat
  let upper (w : Nat) : List Char := (Text.hexFixed w n).map Char.toUpper
  if c = '"' || c = '\\' then ['\\', c]
  else if isShown c && !isBreak c then [c]
  else match n with
    | 0 => ['\\', '0']
    | 7 => ['\\', 'a']
    | 8 => ['\\', 'b']
    | 9 => ['\\', 't']
    | 10 => ['\\', 'n']
    | 11 => ['\\', 'v']
    | 12 => ['\\', 'f']
    | 13 => ['\\', 'r']
    | 0x1b => ['\\', 'e']
    | 0x85 => ['\\', 'N']
    | 0x2028 => ['\\', 'L']
    | 0x2029 => ['\\', 'P']
    | _ =>
      if n ≤ 0xff then '\\' :: 'x' :: upper 2
      else if n ≤ 0xffff then '\\' :: 'u' :: upper 4
      else '\\' :: 'U' :: upper 8

def doubleQuoted (s : String) : String :=
  String.ofList ('"' :: s.toList.flatMap escaped ++ ['"'])

def singleQuoted (s : String) : String :=
  String.ofList ('\'' :: s.toList.flatMap (fun c => if c = '\'' then ['\'', '\''] else [c]) ++ ['\''])

/-- A text of several lines below its key: a mark that says how it begins and ends, then the lines
with four blanks before each that is not empty. A break at the very beginning is the end of the
line of the mark. -/
def indented (s : String) : String :=
  let cs := s.toList
  let lead := match cs.head? with
    | some c => if c = ' ' || isBreak c then "4" else ""
    | none => ""
  let tail := match cs.reverse with
    | c :: d :: _ => if !isBreak c then "-" else if isBreak d then "+" else ""
    | [c] => if isBreak c then "+" else "-"
    | [] => "-"
  let lines := s.splitOn "\n"
  let lines := if s.endsWith "\n" then lines.dropLast else lines
  let lines := if s.startsWith "\n" then lines.drop 1 else lines
  "|" ++ lead ++ tail ++
    String.join (lines.map fun l => "\n" ++ if l = "" then "" else "    " ++ l)

/-- A text as the value of a key. -/
def write (s : String) : String :=
  let t := traits s
  let single := !(t.breakSpace || t.spaceBreak || t.tabs || t.special)
  if s.toList.contains '\n' then
    if t.trailingSpace || t.spaceBreak || t.special then doubleQuoted s else indented s
  else if meaning s ≠ .text || isSexagesimal s || isOldBool s then doubleQuoted s
  else if t.edgeSpace || t.edgeBreak || t.breaks || t.indicators || !single then
    if single then singleQuoted s else doubleQuoted s
  else s

/-! ## Reading -/

/-- A scalar as it was read. -/
structure Value where
  text : String
  plain : Bool
  deriving DecidableEq, Repr, Inhabited

/-- The character that a letter after a backslash stands for. -/
def unescape? (c : Char) : Option Char :=
  match c with
  | '0' => some '\x00'
  | 'a' => some '\x07'
  | 'b' => some '\x08'
  | 't' => some '\t'
  | 'n' => some '\n'
  | 'v' => some '\x0b'
  | 'f' => some '\x0c'
  | 'r' => some '\r'
  | 'e' => some '\x1b'
  | ' ' => some ' '
  | '"' => some '"'
  | '/' => some '/'
  | '\\' => some '\\'
  | '\'' => some '\''
  | 'N' => some '\u0085'
  | '_' => some '\u00a0'
  | 'L' => some '\u2028'
  | 'P' => some '\u2029'
  | _ => none

/-- The character of a code in hexadecimal digits. -/
def coded? (cs : List Char) : Option Char := do
  let n ← Text.digitsFrom? 16 0 cs
  if n.isValidChar then some (Char.ofNat n) else none

/-- The text up to the closing double quote, and what follows. -/
def readDouble? (acc : List Char) : List Char → Option (String × List Char)
  | [] => none
  | '"' :: rest => some (String.ofList acc.reverse, rest)
  | '\\' :: 'x' :: a :: b :: rest => do readDouble? ((← coded? [a, b]) :: acc) rest
  | '\\' :: 'u' :: a :: b :: c :: d :: rest => do readDouble? ((← coded? [a, b, c, d]) :: acc) rest
  | '\\' :: 'U' :: a :: b :: c :: d :: e :: f :: g :: h :: rest => do
    readDouble? ((← coded? [a, b, c, d, e, f, g, h]) :: acc) rest
  | '\\' :: c :: rest => do readDouble? ((← unescape? c) :: acc) rest
  | c :: rest => readDouble? (c :: acc) rest

/-- The text up to the closing single quote, and what follows. -/
def readSingle? (acc : List Char) : List Char → Option (String × List Char)
  | [] => none
  | '\'' :: '\'' :: rest => readSingle? ('\'' :: acc) rest
  | '\'' :: rest => some (String.ofList acc.reverse, rest)
  | c :: rest => readSingle? (c :: acc) rest

/-- Plain text up to a comment, a colon that ends a key, or the end of the line. -/
def readPlain (acc : List Char) : List Char → List Char × List Char
  | [] => (acc.reverse, [])
  | c :: rest =>
    let spaceNext := match rest with
      | [] => true
      | d :: _ => isBlankChar d
    let afterSpace := match acc with
      | [] => true
      | d :: _ => isBlankChar d
    if (c = ':' && spaceNext) || (c = '#' && afterSpace) then (acc.reverse, c :: rest)
    else readPlain (c :: acc) rest

/-- Drops blanks at the end. -/
def trimEnd (cs : List Char) : List Char := (cs.reverse.dropWhile isBlankChar).reverse

/-- A scalar at the start of what is left of a line, and what follows it. -/
def read? (cs : List Char) : Option (Value × List Char) :=
  match cs with
  | '"' :: rest => do
    let (s, rest) ← readDouble? [] rest
    return ({ text := s, plain := false }, rest)
  | '\'' :: rest => do
    let (s, rest) ← readSingle? [] rest
    return ({ text := s, plain := false }, rest)
  | _ =>
    if indicates true none (cs.headD ' ') (cs.drop 1).head? then none
    else
      let (s, rest) := readPlain [] cs
      some ({ text := String.ofList (trimEnd s), plain := true }, rest)

/-- Whether nothing but blanks and a comment is left of a line. -/
def lineEnds (cs : List Char) : Bool :=
  match cs.dropWhile isBlankChar with
  | [] => true
  | '#' :: _ => cs.head?.any isBlankChar
  | _ => false

/-- The lines of an indented block below its key, without the blanks before them, and the lines
after it. -/
def blockLines (indent : Nat) : List (List Char) → List String × List (List Char)
  | [] => ([], [])
  | l :: rest =>
    let content := l.dropWhile (· = ' ')
    if content.isEmpty || indent ≤ l.length - content.length then
      let (ls, after) := blockLines indent rest
      (String.ofList (l.drop indent) :: ls, after)
    else ([], l :: rest)

/-- The text of an indented block with a mark for its beginning and end. -/
def block? (mark : List Char) (lines : List (List Char)) : Option (String × List (List Char)) := do
  let hint := (mark.find? Char.isDigit).map fun c => c.toNat - 48
  let first ← lines.find? fun l => !(l.all (· = ' '))
  let indent := hint.getD (first.length - (first.dropWhile (· = ' ')).length)
  if indent = 0 then none
  let (ls, after) := blockLines indent lines
  let body := (ls.reverse.dropWhile (· = "")).reverse
  let blanks := ls.length - body.length
  let text := "\n".intercalate body
  let final := if body.isEmpty then 0 else 1
  if mark.contains '-' then some (text, after)
  else if mark.contains '+' then some (text ++ "".pushn '\n' (blanks + final), after)
  else some (text ++ "".pushn '\n' final, after)

/-- The entries of a block mapping, one key on each line at the same indentation. -/
def mapping? : (fuel : Nat) → (indent : Option Nat) → List (List Char) → Option (List (String × Value))
  | _, _, [] => some []
  | 0, _, _ => none
  | fuel + 1, indent, line :: lines => do
    let content := line.dropWhile (· = ' ')
    let depth := line.length - content.length
    if content.isEmpty || content.head? = some '#' then mapping? fuel indent lines
    else if indent.isNone && line = ['-', '-', '-'] then mapping? fuel indent lines
    else if line = ['.', '.', '.'] || line = ['-', '-', '-'] then some []
    else if (indent.getD depth) ≠ depth then none
    else
      let (key, rest) ← read? content
      match rest.dropWhile (fun c => !key.plain && isBlankChar c) with
      | ':' :: after =>
        if !(after.isEmpty || after.head?.any isBlankChar) then none
        else
          let value := after.dropWhile isBlankChar
          match value with
          | '|' :: mark =>
            let (text, lines) ← block? mark lines
            let more ← mapping? fuel (some depth) lines
            some ((key.text, { text, plain := false }) :: more)
          | _ =>
            let (v, rest) ← if lineEnds after then some ({ text := "", plain := true }, [])
              else read? value
            if !(lineEnds rest || (v.plain && rest.head? = some '#')) then none
            else
              let more ← mapping? fuel (some depth) lines
              some ((key.text, v) :: more)
      | _ => none

/-- Reads a document that is a block mapping. A key that occurs twice is refused. -/
def readMapping? (bytes : List UInt8) : Option (List (String × Value)) := do
  let text ← String.fromUTF8? ⟨bytes.toArray⟩
  if !(text.toList.all fun c => isShown c || c = '\t' || c = '\r') then none
  let lines := text.toList.splitOn '\n'
  let entries ← mapping? (lines.length + 1) none lines
  if (entries.map (·.1)).Nodup then some entries else none

end WasmLisp.Scalar
