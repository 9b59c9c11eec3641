import WasmLisp.Cli.Flag

/-!
Commands of a command line: a tree of commands by their paths, the command that arguments name, and
the help that each command has.
-/

namespace WasmLisp.Cli

/-- How many arguments a command takes. -/
inductive Arity where
  | none
  | exactly (n : Nat)
  | atLeast (n : Nat)
  deriving DecidableEq, Repr, Inhabited

/-- A command. -/
structure Command where
  /-- The names that lead to it from the program's own name. -/
  path : List String
  /-- What follows the path in its usage. -/
  arguments : String := ""
  short : String
  long : String := ""
  /-- Whether it does something itself. -/
  runs : Bool := true
  /-- How many arguments it takes; any number if nothing is said. -/
  arity : Option Arity := .none
  flags : List Flag := []
  deriving Repr, Inhabited

/-- A program: its commands in the order in which they were added. -/
structure Program where
  name : String
  short : String
  /-- The flags that every command has. -/
  common : List Flag := []
  commands : List Command := []
  deriving Repr, Inhabited

def Command.name (program : Program) (c : Command) : String := c.path.getLast?.getD program.name

namespace Program

/-- The program as a command that does nothing itself. -/
def self (p : Program) : Command := { path := [], short := p.short, runs := false }

/-- The path of a command as messages show it. -/
def pathText (p : Program) (c : Command) : String := " ".intercalate (p.name :: c.path)

/-- The commands right below a command. -/
def below (p : Program) (c : Command) : List Command :=
  p.commands.filter fun d => d.path.length = c.path.length + 1 && c.path.isPrefixOf d.path

/-- The flag that asks for help. -/
def helpFlag (p : Program) (c : Command) : Flag :=
  { name := "help", letter := some 'h', type := .switch, usage := "help for " ++ c.name p }

/-! ## Finding the command -/

/-- Whether an argument is a flag whose value is the next argument. -/
def takesNext (flags : List Flag) (arg : String) : Bool :=
  let alone (f : Option Flag) : Bool := (f.map (·.standsAlone)).getD false
  let cs := arg.toList
  if cs.contains '=' then false
  else if arg.startsWith "--" then
    !alone (flags.find? (·.name == String.ofList (cs.drop 2)))
  else match cs with
    | ['-', l] => l.toNat < 128 && !alone (flags.find? (·.letter == some l))
    | _ => false

/-- The arguments that are neither flags nor values of flags. A flag before the last argument
leaves that argument aside. -/
def bareArgs (flags : List Flag) : List String → List String
  | [] => []
  | arg :: rest =>
    if arg = "--" then []
    else if takesNext flags arg then
      match rest with
      | _ :: next :: more => bareArgs flags (next :: more)
      | _ => []
    else if arg ≠ "" && !arg.startsWith "-" then arg :: bareArgs flags rest
    else bareArgs flags rest

/-- The arguments without the first that is a given bare one. -/
def without (flags : List Flag) (x : String) : List String → List String
  | [] => []
  | arg :: rest =>
    if arg = "--" then arg :: rest
    else if takesNext flags arg then
      match rest with
      | v :: more => arg :: v :: without flags x more
      | [] => [arg]
    else if arg = x && !arg.startsWith "-" then rest
    else arg :: without flags x rest

/-- Goes down from a command as far as the bare arguments name commands below it. -/
def descend (p : Program) : (fuel : Nat) → Command → List String → Command × List String
  | 0, c, args => (c, args)
  | fuel + 1, c, args =>
    let flags := c.flags ++ p.common
    match bareArgs flags args with
    | [] => (c, args)
    | first :: _ =>
      match (p.below c).find? fun d => d.name p == first with
      | some d => p.descend fuel d (without flags first args)
      | none => (c, args)

/-- One row of the table of edit distances: those of the texts that end at each letter of `t`. -/
def nextRow (c : UInt8) (t : List UInt8) (row : List Nat) : List Nat :=
  match row with
  | [] => []
  | first :: rest => (first + 1) :: go (first + 1) first t rest
where
  go (left corner : Nat) : List UInt8 → List Nat → List Nat
    | d :: ds, above :: row =>
      let here := if c = d then corner else min (min above left) corner + 1
      here :: go here above ds row
    | _, _ => []

/-- How many letters have to be put in, taken out or changed to turn one text into another. -/
def editDistance (s t : String) : Nat :=
  let t := t.toUTF8.toList
  let last := s.toUTF8.toList.foldl (fun row c => nextRow c t row) (List.range (t.length + 1))
  last.getLast?.getD 0

/-- The commands that a word may have been meant for. -/
def suggestions (p : Program) (word : String) : List String :=
  let lower (s : String) : String := String.ofList (s.toList.map Char.toLower)
  (((p.below p.self).map (·.name p)).filter (· ≠ "help")).filter fun name =>
    editDistance (lower word) name ≤ 2 || name.startsWith (lower word)

/-- The message about a word that is no command of the program. -/
def unknownCommand (p : Program) (word : String) : String :=
  let hint := match p.suggestions word with
    | [] => ""
    | names => "\n\nDid you mean this?\n" ++ String.join (names.map fun n => "\t" ++ n ++ "\n")
  s!"unknown command {Text.quoted word} for {Text.quoted p.name}" ++ hint

/-- The command that arguments name, and the arguments left for it. Words that the program itself
is left with are an error. -/
def find (p : Program) (args : List String) : Except String (Command × List String) :=
  let (c, rest) := p.descend (p.commands.length + 1) p.self args
  match c.path, bareArgs p.common rest with
  | [], word :: _ => .error (p.unknownCommand word)
  | _, _ => .ok (c, rest)

/-- Why a command does not take its arguments. -/
def arityFault? (p : Program) (c : Command) (args : List String) : Option String :=
  match c.arity, args with
  | some .none, word :: _ => some s!"unknown command {Text.quoted word} for {Text.quoted (p.pathText c)}"
  | some (.exactly n), _ =>
    if args.length = n then none else some s!"accepts {n} arg(s), received {args.length}"
  | some (.atLeast n), _ =>
    if n ≤ args.length then none
    else some s!"requires at least {n} arg(s), only received {args.length}"
  | _, _ => none

/-! ## Help -/

/-- The least width of the column of command names. -/
def nameWidth : Nat := 11

/-- How a command is used, and its commands and flags. The flag that asks for help is listed where
help was asked for. -/
def usage (p : Program) (c : Command) (asked : Bool) : String :=
  let path := p.pathText c
  let arguments := if c.arguments = "" then "" else " " ++ c.arguments
  let subs := (p.below c).mergeSort fun a b => !(b.name p < a.name p)
  let width := max nameWidth ((subs.map fun d => (d.name p).length).foldl max 0)
  let entry (d : Command) : String :=
    let name := d.name p
    "  " ++ name ++ "".pushn ' ' (width - name.length) ++ " " ++ d.short
  let own := c.flags ++ (if asked then [p.helpFlag c] else [])
    ++ (if c.path.isEmpty then p.common else [])
  let shared := if c.path.isEmpty then [] else p.common
  let block (title : String) (lines : List String) : List String :=
    if lines.isEmpty then [] else ["", title] ++ lines
  let last := s!"Use \"{path} [command] --help\" for more information about a command."
  let lines := ["Usage:"]
    ++ (if c.runs then ["  " ++ path ++ arguments ++ " [flags]"] else [])
    ++ (if subs.isEmpty then [] else ["  " ++ path ++ " [command]"])
    ++ block "Available Commands:" (subs.map entry)
    ++ block "Flags:" (flagLines own)
    ++ block "Global Flags:" (flagLines shared)
    ++ (if subs.isEmpty then [] else ["", last])
  String.join (lines.map (· ++ "\n"))

/-- What a command does and how it is used. -/
def help (p : Program) (c : Command) : String :=
  (if c.long = "" then c.short else c.long) ++ "\n\n" ++ p.usage c true

end Program

end WasmLisp.Cli
