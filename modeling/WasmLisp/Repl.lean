import WasmLisp.Failure
import WasmLisp.Text.Blank

/-!
The interactive session: an input line, the sources typed so far, and the last results. Keys edit
the line, recall earlier sources or start an evaluation, whose result is delivered later.
-/

namespace WasmLisp

/-- A source that was evaluated, the namespace it was evaluated in, and what became of it. -/
structure ReplEntry where
  ns : String
  source : String
  outcome : Result Int64
  deriving Inhabited

/-- An interactive session. -/
structure Repl where
  title : String
  prompt : String
  entries : List ReplEntry := []
  /-- The sources typed so far. -/
  sources : List String := []
  /-- The text of the input line. -/
  input : String := ""
  /-- Which of the sources is recalled; their number if none is. -/
  recalled : Nat := 0
  /-- Whether an evaluation is going on. -/
  busy : Bool := false
  deriving Inhabited

namespace Repl

/-- How many results stay on the screen. -/
def scrollback : Nat := 20

def promptFor (ns : String) : String := ns ++ "=> "

/-- A session that starts in a namespace. -/
def new (title ns : String) : Repl := { title, prompt := promptFor ns }

/-- What a key asks for beside its change of the session. -/
inductive Request where
  | nothing
  | quit
  | eval (source : String)
  deriving DecidableEq, Repr, Inhabited

/-- What the input line takes of a text: blanks in place of tabs and line ends, and no other
control characters. -/
def typed (text : String) : String :=
  String.ofList (text.toList.filterMap fun c =>
    if c = '\t' || c = '\n' || c = '\r' then some ' '
    else if c.toNat < 0x20 || (0x7f ≤ c.toNat && c.toNat ≤ 0x9f) || c.toNat = 0xfffd then none
    else some c)

def trimmed (s : String) : String :=
  let front := s.toList.dropWhile Text.isBlank
  String.ofList (front.reverse.dropWhile Text.isBlank).reverse

/-- Starts the evaluation of the input line, unless it is blank or one is going on. -/
def enter (r : Repl) : Repl × Request :=
  let source := trimmed r.input
  if source = "" || r.busy then (r, .nothing)
  else
    let sources := r.sources ++ [source]
    ({ r with busy := true, sources, recalled := sources.length, input := "" }, .eval source)

/-- Recalls the source before the one recalled. -/
def up (r : Repl) : Repl :=
  if r.recalled = 0 then r
  else { r with recalled := r.recalled - 1, input := (r.sources[r.recalled - 1]?).getD "" }

/-- Recalls the source after the one recalled, or none after the last. -/
def down (r : Repl) : Repl :=
  match r.sources[r.recalled + 1]? with
  | some source => { r with recalled := r.recalled + 1, input := source }
  | none => { r with recalled := r.sources.length, input := "" }

/-- Takes a key by its name. A name that is not one of a key is text for the input line. -/
def press (r : Repl) (key : String) : Repl × Request :=
  match key with
  | "ctrl+c" => (r, .quit)
  | "ctrl+d" => (r, .quit)
  | "enter" => r.enter
  | "up" => (r.up, .nothing)
  | "down" => (r.down, .nothing)
  | "backspace" => ({ r with input := String.ofList r.input.toList.dropLast }, .nothing)
  | text => ({ r with input := r.input ++ typed text }, .nothing)

/-- Takes the result of an evaluation, after which the session is in a namespace. -/
def deliver (r : Repl) (entry : ReplEntry) (ns : String) : Repl :=
  let entries := r.entries ++ [entry]
  { r with busy := false, entries := entries.drop (entries.length - scrollback), prompt := promptFor ns }

/-! ## The screen -/

/-- A text as a block: blanks in place of tabs, and lines of one length. -/
def block (text : String) : String :=
  let lines := ((text.replace "\t" "    ").replace "\r\n" "\n").splitOn "\n"
  let width := (lines.map String.length).foldl max 0
  "\n".intercalate (lines.map fun l => l ++ "".pushn ' ' (width - l.length))

def ReplEntry.shown (e : ReplEntry) : String :=
  let outcome := match e.outcome with
    | .ok v => toString v.toInt
    | .error failure => failure.message
  block e.ns ++ "=> " ++ block e.source ++ "\n" ++ block outcome ++ "\n"

/-- The screen, with the input line as it is shown. -/
def screen (r : Repl) (line : String) : String :=
  " jitlink  " ++ r.title ++ "\n\n" ++ String.join (r.entries.map ReplEntry.shown) ++ line
    ++ (if r.busy then "  compiling..." else "") ++ "\n\nenter eval • ↑/↓ history • ctrl+d quit"

end Repl

/-! ## Sessions by lines -/

namespace LineRepl

/-- A line has fewer bytes than this. -/
def lineLimit : Nat := 65536

/-- The lines of a text; a line end at the end starts no further line. -/
def linesOf (text : String) : List String :=
  let lines := text.splitOn "\n"
  let lines := if lines.getLast? = some "" then lines.dropLast else lines
  lines.map fun l => if l.endsWith "\r" then String.ofList l.toList.dropLast else l

/-- What is printed for the outcome of a source. -/
def answer (ns : String) : Result Int64 → String
  | .ok v => s!"{ns}=> {v.toInt}\n"
  | .error e => s!"{ns}=> error: {e.message}\n"

/-- Evaluates the lines of a text one by one, blank ones apart. `eval` gives the outcome of a
source, the namespace after it and what was printed. A line that is too long ends the session. -/
def run {σ : Type} (eval : σ → String → σ × String × String × Result Int64) (s : σ) :
    List String → σ × String × Option String
  | [] => (s, "", none)
  | line :: rest =>
    if lineLimit ≤ line.utf8ByteSize then (s, "", some "bufio.Scanner: token too long")
    else
      let source := Repl.trimmed line
      if source = "" then run eval s rest
      else
        let (s, ns, printed, r) := eval s source
        let (s, more, fault) := run eval s rest
        (s, printed ++ answer ns r ++ more, fault)

end LineRepl

end WasmLisp
