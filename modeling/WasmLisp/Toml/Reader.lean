import WasmLisp.Cache.Scalar
import WasmLisp.Text.Utf8
import WasmLisp.Toml

/-!
Reading the statements of a document. A reader takes characters from the front and returns what is
left; `none` says that the document is not well formed.
-/

namespace WasmLisp.Toml

/-- A reader of characters. -/
abbrev Reader (α : Type) := List Char → Option (α × List Char)

def isSpace (c : Char) : Bool := c = ' ' || c = '\t'

def skipSpace (cs : List Char) : List Char := cs.dropWhile isSpace

/-- Whether a character may not stand in a document at all. -/
def isForbidden (c : Char) : Bool :=
  c ≠ '\t' && c ≠ '\n' && c ≠ '\r' && (c.toNat < 0x20 || c.toNat = 0x7f)

/-- Skips blanks, line ends and comments. -/
def skipLines : List Char → List Char
  | [] => []
  | c :: cs =>
    if isSpace c || c = '\n' || c = '\r' then skipLines cs
    else if c = '#' then afterComment cs
    else c :: cs
where
  afterComment : List Char → List Char
    | [] => []
    | '\n' :: cs => skipLines cs
    | _ :: cs => afterComment cs

/-- The end of a statement: a comment at most, then a line end or the end of the document. -/
def endOfLine (cs : List Char) : Option (List Char) :=
  match skipSpace cs with
  | [] => some []
  | '\n' :: rest => some rest
  | '\r' :: '\n' :: rest => some rest
  | '#' :: rest => some ((rest.dropWhile (· ≠ '\n')).drop 1)
  | _ => none

/-! ## Strings -/

/-- The character that a code of hexadecimal digits stands for. -/
def coded? (cs : List Char) : Option Char := do
  if !cs.all fun c => (Text.hexValue? c).isSome then none
  let n ← Text.digitsFrom? 16 0 cs
  if n.isValidChar then some (Char.ofNat n) else none

/-- The character that a letter after a backslash stands for. -/
def escape? (c : Char) : Option Char :=
  match c with
  | 'b' => some '\x08'
  | 't' => some '\t'
  | 'n' => some '\n'
  | 'f' => some '\x0c'
  | 'r' => some '\r'
  | '"' => some '"'
  | '\\' => some '\\'
  | _ => none

/-- The text up to the closing double quote on the same line. -/
def basic (acc : List Char) : Reader String
  | [] => none
  | '"' :: rest => some (String.ofList acc.reverse, rest)
  | '\n' :: _ => none
  | '\r' :: _ => none
  | '\\' :: 'u' :: a :: b :: c :: d :: rest => do basic ((← coded? [a, b, c, d]) :: acc) rest
  | '\\' :: 'U' :: a :: b :: c :: d :: e :: f :: g :: h :: rest => do
    basic ((← coded? [a, b, c, d, e, f, g, h]) :: acc) rest
  | '\\' :: c :: rest => do basic ((← escape? c) :: acc) rest
  | c :: rest => basic (c :: acc) rest

/-- The text up to the closing single quote on the same line. -/
def verbatim (acc : List Char) : Reader String
  | [] => none
  | '\'' :: rest => some (String.ofList acc.reverse, rest)
  | '\n' :: _ => none
  | '\r' :: _ => none
  | c :: rest => verbatim (c :: acc) rest

/-- What follows a backslash at the end of a line: all blanks and line ends are dropped. -/
def afterContinuation (cs : List Char) : Option (List Char) :=
  match skipSpace cs with
  | '\n' :: rest => some (rest.dropWhile fun c => isSpace c || c = '\n' || c = '\r')
  | '\r' :: '\n' :: rest => some (rest.dropWhile fun c => isSpace c || c = '\n' || c = '\r')
  | _ => none

/-- Quotes that close a text of several lines: three of them, up to two more belong to the text. -/
def closing (q : Char) (cs : List Char) : Option (List Char × List Char) :=
  let n := (cs.takeWhile (· = q)).length
  if n < 3 then none
  else
    let extra := min (n - 3) 2
    some (List.replicate extra q, cs.drop (3 + extra))

/-- A text of several lines with escapes. -/
def basicLines : (fuel : Nat) → (acc : List Char) → Reader String
  | 0, _, _ => none
  | _, _, [] => none
  | fuel + 1, acc, '\\' :: rest =>
    match afterContinuation rest with
    | some rest => basicLines fuel acc rest
    | none =>
      match rest with
      | 'u' :: a :: b :: c :: d :: rest => do basicLines fuel ((← coded? [a, b, c, d]) :: acc) rest
      | 'U' :: a :: b :: c :: d :: e :: f :: g :: h :: rest => do
        basicLines fuel ((← coded? [a, b, c, d, e, f, g, h]) :: acc) rest
      | c :: rest => do basicLines fuel ((← escape? c) :: acc) rest
      | [] => none
  | fuel + 1, acc, c :: rest =>
    match closing '"' (c :: rest) with
    | some (extra, rest) => some (String.ofList (acc.reverse ++ extra), rest)
    | none => basicLines fuel (c :: acc) rest

/-- A text of several lines as it stands. -/
def verbatimLines (acc : List Char) : Reader String
  | [] => none
  | c :: rest =>
    match closing '\'' (c :: rest) with
    | some (extra, rest) => some (String.ofList (acc.reverse ++ extra), rest)
    | none => verbatimLines (c :: acc) rest

/-- Drops a line end at the front. -/
def dropFirstBreak : List Char → List Char
  | '\n' :: rest => rest
  | '\r' :: '\n' :: rest => rest
  | cs => cs

/-! ## Keys -/

/-- One name of a key. -/
def name : Reader String
  | '"' :: rest => basic [] rest
  | '\'' :: rest => verbatim [] rest
  | cs =>
    let bare := cs.takeWhile isBare
    if bare.isEmpty then none else some (String.ofList bare, cs.drop bare.length)

/-- Names with points between them. -/
def key : (fuel : Nat) → Reader Key
  | 0, _ => none
  | fuel + 1, cs => do
    let (first, rest) ← name (skipSpace cs)
    match skipSpace rest with
    | '.' :: rest =>
      let (more, rest) ← key fuel rest
      return (first :: more, rest)
    | rest => return ([first], rest)

/-! ## Numbers and dates -/

/-- Whether underscores stand between digits only. -/
def underscoresFit (cs : List Char) : Bool :=
  let (fits, last) := cs.foldl (fun (fits, digit) c =>
    (fits && (c ≠ '_' || digit), (Text.hexValue? c).isSome)) (true, false)
  fits && last

/-- Whether a decimal number starts with a zero that it must not start with. -/
def hasLeadingZero (cs : List Char) : Bool :=
  match cs with
  | '0' :: c :: _ => c ≠ 'b' && c ≠ 'o' && c ≠ 'x'
  | s :: '0' :: _ :: _ => s = '-' || s = '+'
  | _ => false

/-- An integer of 64 bits. -/
def integer? (cs : List Char) : Option Literal := do
  if !underscoresFit cs || hasLeadingZero cs then none
  let (negative, digits) := Text.splitSign (cs.filter (· ≠ '_'))
  let n ← if digits = ['0'] then some 0 else Text.magnitude? digits
  let v : Int := if negative then -(n : Int) else n
  if -0x8000000000000000 ≤ v && v < 0x8000000000000000 then some (.int v) else none

/-- Whether every point has a digit after it. -/
def pointsFit : List Char → Bool
  | [] => true
  | '.' :: rest =>
    match rest with
    | d :: _ => d.isDigit && pointsFit rest
    | [] => false
  | _ :: rest => pointsFit rest

/-- The parts of a number between points and exponent marks. -/
def parts (cs : List Char) : List (List Char) :=
  (cs.splitBy fun a b =>
    !(a = '.' || a = 'e' || a = 'E') && !(b = '.' || b = 'e' || b = 'E')).filter fun p =>
      p ≠ ['.'] && p ≠ ['e'] && p ≠ ['E']

/-- A number with a fraction or an exponent. -/
def float? (cs : List Char) : Option Literal :=
  let ps := parts cs
  if ps.all underscoresFit && !hasLeadingZero (ps.headD []) && pointsFit cs
      && (Scalar.float? (cs.filter (· ≠ '_'))).isSome then some .other
  else none

/-- A time of day with two digits in each part. -/
def timeOfDay? (cs : List Char) : Option (List Char) := do
  let two (cs : List Char) : Option (List Char) := (Instant.number? 2 2 cs).map (·.2)
  let _ ← two (← Instant.expect? ':' (← two (← Instant.expect? ':' (← two cs))))
  let (_, rest) ← Instant.time? cs
  return rest

/-- A date with two digits for month and day. -/
def date? (cs : List Char) : Option (List Char) := do
  let ((_, _, _), rest) ← Instant.date? cs
  if cs.length - rest.length = 10 then some rest else none

/-- A date, a time, or both, with a zone or without. -/
def moment? (cs : List Char) : Option Literal :=
  let cs := cs.map fun c => if c = 't' || c = ' ' then 'T' else if c = 'z' then 'Z' else c
  let whole : Option (List Char) := do
    match ← date? cs with
    | [] => some []
    | 'T' :: rest =>
      match ← timeOfDay? rest with
      | [] => some []
      | rest =>
        let (_, rest) ← Instant.zone? rest
        some rest
    | _ => none
  if whole = some [] || timeOfDay? cs = some [] then some .other else none

/-- The characters that a number or a date goes on with, and what they make. -/
def number (cs : List Char) : Option (Literal × List Char) :=
  let span (ok : Char → Bool) (make : List Char → Option Literal) : Option (Literal × List Char) :=
    let taken := cs.takeWhile ok
    (make taken).map (·, cs.drop taken.length)
  let plain := cs.takeWhile Char.isDigit
  let signed := (Text.splitSign cs).2.length < cs.length
  match cs, cs.drop plain.length with
  | '0' :: 'x' :: rest, _ =>
    let ds := rest.takeWhile fun c => (Text.hexValue? c).isSome || c = '_'
    (integer? ('0' :: 'x' :: ds)).map (·, rest.drop ds.length)
  | '0' :: 'o' :: rest, _ =>
    let ds := rest.takeWhile fun c => (c.isDigit && c < '8') || c = '_'
    (integer? ('0' :: 'o' :: ds)).map (·, rest.drop ds.length)
  | '0' :: 'b' :: rest, _ =>
    let ds := rest.takeWhile fun c => c = '0' || c = '1' || c = '_'
    (integer? ('0' :: 'b' :: ds)).map (·, rest.drop ds.length)
  | _, c :: _ =>
    if !signed && (c = '-' || c = ':') then
      let ok (c : Char) : Bool :=
        c.isDigit || ['-', ':', 'T', 't', ' ', '.', 'Z', 'z', '+'].contains c
      let taken := cs.takeWhile ok
      let trimmed := (taken.reverse.dropWhile (· = ' ')).reverse
      (moment? trimmed).map (·, cs.drop taken.length)
    else
      let start := (Text.splitSign cs).2
      let ds := start.takeWhile fun c => c.isDigit || c = '_'
      match start.drop ds.length with
      | c :: _ =>
        if ds.isEmpty then none
        else if c = '.' || c = 'e' || c = 'E' then
          span (fun c => c.isDigit || ['_', '.', '-', '+', 'e', 'E'].contains c) float?
        else (integer? (cs.take (cs.length - start.length + ds.length))).map
          (·, start.drop ds.length)
      | [] => if ds.isEmpty then none else (integer? cs).map (·, [])
  | _, [] => (integer? cs).map (·, [])

/-! ## Values -/

/-- A word: one of the truth values, or a number that is none or endless. -/
def word (cs : List Char) : Option (Literal × List Char) :=
  let letters := (Text.splitSign cs).2.takeWhile Char.isAlpha
  let signed := (Text.splitSign cs).2.length < cs.length
  let rest := (Text.splitSign cs).2.drop letters.length
  let start := (Text.splitSign cs).2
  match start with
  | 'i' :: 'n' :: 'f' :: rest => some (.other, rest)
  | 'n' :: 'a' :: 'n' :: rest => some (.other, rest)
  | _ =>
    if signed then none
    else if letters = "true".toList then some (.bool true, rest)
    else if letters = "false".toList then some (.bool false, rest)
    else none

mutual

/-- A value, after blanks. -/
def value : (fuel : Nat) → Reader Literal
  | 0, _ => none
  | fuel + 1, cs =>
    match skipSpace cs with
    | [] => none
    | '"' :: '"' :: '"' :: rest => do
      let (s, rest) ← basicLines (rest.length + 1) [] (dropFirstBreak rest)
      return (.text s, rest)
    | '"' :: rest => do
      let (s, rest) ← basic [] rest
      return (.text s, rest)
    | '\'' :: '\'' :: '\'' :: rest => do
      let (s, rest) ← verbatimLines [] (dropFirstBreak rest)
      return (.text s, rest)
    | '\'' :: rest => do
      let (s, rest) ← verbatim [] rest
      return (.text s, rest)
    | '[' :: rest => do
      let (items, rest) ← items fuel rest
      return (.array items, rest)
    | '\x7b' :: rest =>
      match skipSpace rest with
      | '\x7d' :: rest => some (.inline [], rest)
      | rest => do
        let (pairs, rest) ← pairs fuel rest
        return (.inline pairs, rest)
    | c :: rest =>
      let first := (Text.splitSign (c :: rest)).2.headD ' '
      if first.isDigit then number (c :: rest) else word (c :: rest)

/-- The items of an array up to its closing bracket. -/
def items : (fuel : Nat) → Reader (List Literal)
  | 0, _ => none
  | fuel + 1, cs =>
    match skipLines cs with
    | ']' :: rest => some ([], rest)
    | cs => do
      let (v, rest) ← value fuel cs
      match skipLines rest with
      | ']' :: rest => return ([v], rest)
      | ',' :: rest =>
        let (vs, rest) ← items fuel rest
        return (v :: vs, rest)
      | _ => none

/-- The pairs of an inline table up to its closing brace, at least one. -/
def pairs : (fuel : Nat) → Reader (List (Key × Literal))
  | 0, _ => none
  | fuel + 1, cs => do
    let (k, rest) ← key (fuel + 1) cs
    match skipSpace rest with
    | '=' :: rest =>
      let (v, rest) ← value fuel rest
      match skipSpace rest with
      | '\x7d' :: rest => return ([(k, v)], rest)
      | ',' :: rest =>
        let (more, rest) ← pairs fuel rest
        return ((k, v) :: more, rest)
      | _ => none
    | _ => none

end

/-! ## Statements -/

/-- One statement with the end of its line. -/
def statement (fuel : Nat) (cs : List Char) : Option (Statement × List Char) :=
  match cs with
  | '[' :: '[' :: rest => do
    let (k, rest) ← key fuel rest
    match rest with
    | ']' :: ']' :: rest => return (.element k, ← endOfLine rest)
    | _ => none
  | '[' :: rest => do
    let (k, rest) ← key fuel rest
    match rest with
    | ']' :: rest => return (.table k, ← endOfLine rest)
    | _ => none
  | cs => do
    let (k, rest) ← key fuel cs
    match skipSpace rest with
    | '=' :: rest =>
      let (v, rest) ← value fuel rest
      return (.pair k v, ← endOfLine rest)
    | _ => none

/-- All statements. Each takes at least a character. -/
def statements : (fuel : Nat) → List Char → Option (List Statement)
  | 0, _ => none
  | fuel + 1, cs =>
    match skipLines cs with
    | [] => some []
    | cs => do
      let (s, rest) ← statement fuel cs
      return s :: (← statements fuel rest)

/-- Whether every carriage return has a line feed after it. -/
def breaksFit : List Char → Bool
  | [] => true
  | '\r' :: '\n' :: rest => breaksFit rest
  | '\r' :: _ => false
  | _ :: rest => breaksFit rest

/-- Reads the statements of a document. -/
def read? (text : String) : Option (List Statement) :=
  let cs := match text.toList with
    | '\ufeff' :: rest => rest
    | cs => cs
  if cs.any isForbidden || !breaksFit cs then none else statements (cs.length + 1) cs

end WasmLisp.Toml
