import WasmLisp.Text.Blank
import WasmLisp.Text.Utf8

/-!
Tokens: the lexical units of source text. Blanks, commas and comments (from a semicolon to the end
of its line) separate them; parentheses, brackets and the quote mark stand for themselves; every
other maximal run of characters is an atom. A double quote outside a comment is refused, because
the language has no string literals.
-/

namespace WasmLisp

namespace Token

/-- What a token is. -/
inductive Kind where
  | openParen
  | closeParen
  | openBracket
  | closeBracket
  | quote
  | atom
  deriving DecidableEq, Repr, Inhabited

/-- The kind's name in messages. -/
def Kind.name : Kind → String
  | .openParen => "'('"
  | .closeParen => "')'"
  | .openBracket => "'['"
  | .closeBracket => "']'"
  | .quote => "quote"
  | .atom => "atom"

/-- The kinds in the order of their numeric codes. -/
def Kind.all : List Kind :=
  [.openParen, .closeParen, .openBracket, .closeBracket, .quote, .atom]

/-- The name of the kind with a numeric code; codes past the last have no kind. -/
def Kind.nameOfCode (code : Nat) : String :=
  match Kind.all[code]? with
  | some kind => kind.name
  | none => "unknown"

end Token

/-- A lexeme: its kind, its text and the line it starts on. -/
structure Token where
  kind : Token.Kind
  text : String
  line : Nat
  deriving DecidableEq, Repr, Inhabited

namespace Token

/-- The kind of a character that is a token of its own. -/
def punctuation? : Char → Option Kind
  | '(' => some .openParen
  | ')' => some .closeParen
  | '[' => some .openBracket
  | ']' => some .closeBracket
  | '\'' => some .quote
  | _ => none

/-- Whether a character separates tokens without being one. -/
def isSeparator (c : Char) : Bool := Text.isBlank c || c == ','

/-- Whether a character ends an atom. -/
def isDelimiter (c : Char) : Bool :=
  (punctuation? c).isSome || c == ';' || c == '"' || isSeparator c

/-- A double quote outside a comment, on this line. -/
structure StringLiteral where
  line : Nat
  deriving DecidableEq, Repr

/-- Why the text was refused. -/
def StringLiteral.message (e : StringLiteral) : String :=
  s!"line {e.line}: strings are not supported"

/-- The tokens of characters that start on line `line`. -/
def scanFrom (line : Nat) : List Char → Except StringLiteral (List Token)
  | [] => .ok []
  | c :: cs =>
    if c = '\n' then scanFrom (line + 1) cs
    else if isSeparator c then scanFrom line cs
    else if c = ';' then scanFrom line (cs.dropWhile (· ≠ '\n'))
    else if c = '"' then .error ⟨line⟩
    else match punctuation? c with
      | some kind => (⟨kind, String.ofList [c], line⟩ :: ·) <$> scanFrom line cs
      | none =>
        let word := cs.takeWhile (!isDelimiter ·)
        (⟨.atom, String.ofList (c :: word), line⟩ :: ·) <$>
          scanFrom line (cs.dropWhile (!isDelimiter ·))
termination_by cs => cs.length
decreasing_by
  all_goals simp only [List.length_cons]
  · exact Nat.lt_succ_self _
  · exact Nat.lt_succ_self _
  · exact Nat.lt_succ_of_le (List.dropWhile_suffix _).length_le
  · exact Nat.lt_succ_self _
  · exact Nat.lt_succ_of_le (List.dropWhile_suffix _).length_le

/-- The tokens of a source text, in order. -/
def scan (src : String) : Except StringLiteral (List Token) := scanFrom 1 src.toList

/-- The tokens of a source that is given by its bytes. -/
def scanBytes (src : List UInt8) : Except StringLiteral (List Token) := scan (Text.ofBytes src)

end Token

end WasmLisp
