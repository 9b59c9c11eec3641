import WasmLisp.Text.Duration
import WasmLisp.Text.Quoted

/-!
Flags of a command line. A flag is given as `--name value` or `--name=value`, or by its letter as
`-l value`, `-lvalue` or `-l=value`; letters of flags without a value can stand together. Flags and
arguments can be mixed, and after `--` everything is an argument.
-/

namespace WasmLisp.Cli

/-- What the value of a flag is. -/
inductive FlagType where
  | text
  | duration
  /-- A truth value; naming the flag alone makes it true. -/
  | switch
  deriving DecidableEq, Repr, Inhabited

/-- A flag of a command. -/
structure Flag where
  name : String
  letter : Option Char := none
  type : FlagType := .text
  usage : String
  /-- The value of the flag if it is not given. -/
  initial : String := ""
  deriving DecidableEq, Repr, Inhabited

/-- Whether the flag can be named without a value. -/
def Flag.standsAlone (f : Flag) : Bool := f.type == .switch

/-- Flags with their values, and the arguments between them. -/
structure Given where
  values : List (String × String) := []
  args : List String := []
  deriving DecidableEq, Repr, Inhabited

/-- Why flags cannot be read. -/
inductive FlagFault where
  | unknown (name : String)
  | unknownLetter (letter : Char) (cluster : String)
  | noValue (shown : String)
  | malformed (arg : String)
  | badValue (value shown why : String)
  deriving DecidableEq, Repr, Inhabited

/-- A letter between single quotes. -/
def quotedLetter (c : Char) : String :=
  let inner := if c = '\'' then "\\'" else if c = '"' then "\""
    else String.ofList ((Text.quoted (String.singleton c)).toList.drop 1).dropLast
  "'" ++ inner ++ "'"

def FlagFault.message : FlagFault → String
  | .unknown name => "unknown flag: --" ++ name
  | .unknownLetter letter cluster => s!"unknown shorthand flag: {quotedLetter letter} in -{cluster}"
  | .noValue shown => "flag needs an argument: " ++ shown
  | .malformed arg => "bad flag syntax: " ++ arg
  | .badValue value shown why =>
    s!"invalid argument {Text.quoted value} for {Text.quoted shown} flag: {why}"

namespace Flag

/-- The flag as messages about its value show it. -/
def shown (f : Flag) : String :=
  match f.letter with
  | some l => s!"-{l}, --{f.name}"
  | none => "--" ++ f.name

/-- The truth value that a text writes. -/
def truth? (s : String) : Option Bool :=
  if ["1", "t", "T", "true", "TRUE", "True"].contains s then some true
  else if ["0", "f", "F", "false", "FALSE", "False"].contains s then some false
  else none

/-- Why a value is not one of a type. -/
def valueFault? (type : FlagType) (value : String) : Option String :=
  match type with
  | .text => none
  | .duration =>
    match Duration.parse value with
    | .ok _ => none
    | .error fault => some (fault.message value)
  | .switch =>
    if (truth? value).isSome then none
    else some s!"strconv.ParseBool: parsing {Text.quoted value}: invalid syntax"

/-- Gives a flag a value. -/
def set (f : Flag) (value : String) : Except FlagFault (String × String) :=
  match valueFault? f.type value with
  | some why => .error (.badValue value f.shown why)
  | none => .ok (f.name, value)

/-- Reads a cluster of letters. The second result says whether the next argument is the value of
the last of them. -/
def readLetters (flags : List Flag) (next : Option String) :
    List Char → Except FlagFault (List (String × String) × Bool)
  | [] => .ok ([], false)
  | c :: rest =>
    let cluster := String.ofList (c :: rest)
    let first := Char.ofNat (((String.singleton c).toUTF8.toList.head?.map UInt8.toNat).getD 0)
    match flags.find? (·.letter == some c) with
    | none => .error (.unknownLetter first cluster)
    | some f =>
      let alone (v : String) (used : Bool) : Except FlagFault (List (String × String) × Bool) := do
        return ([← f.set v], used)
      match rest with
      -- an equals sign with nothing after it separates nothing
      | '=' :: value@(_ :: _) => alone (String.ofList value) false
      | _ =>
        if f.standsAlone then do
          let v ← f.set "true"
          let (more, used) ← readLetters flags next rest
          return (v :: more, used)
        else if !rest.isEmpty then alone (String.ofList rest) false
        else match next with
          | some v => alone v true
          | none => .error (.noValue s!"{quotedLetter first} in -{cluster}")

/-- Reads a flag by its name, written after two dashes. The second result says whether the next
argument is its value. -/
def readLong (flags : List Flag) (next : Option String) (arg : String) :
    Except FlagFault ((String × String) × Bool) := do
  let body := arg.toList.drop 2
  let name := String.ofList (body.takeWhile (· ≠ '='))
  if name = "" || name.startsWith "-" then throw (.malformed arg)
  let some f := flags.find? (·.name == name) | throw (.unknown name)
  match body.dropWhile (· ≠ '=') with
  | _ :: value => return (← f.set (String.ofList value), false)
  | [] =>
    if f.standsAlone then return (← f.set "true", false)
    else match next with
      | some v => return (← f.set v, true)
      | none => throw (.noValue arg)

/-- Reads the arguments of a command. -/
def readAll (flags : List Flag) : List String → Except FlagFault Given
  | [] => .ok {}
  | arg :: rest => do
    let cs := arg.toList
    if cs.head? ≠ some '-' || cs.length = 1 then
      let g ← readAll flags rest
      return { g with args := arg :: g.args }
    else if arg = "--" then return { args := rest }
    else
      let (values, used) ←
        if arg.startsWith "--" then do
          let (v, used) ← readLong flags rest.head? arg
          pure ([v], used)
        else readLetters flags rest.head? (cs.drop 1)
      let g ← match rest, used with
        | _ :: rest, true => readAll flags rest
        | rest, _ => readAll flags rest
      return { g with values := values ++ g.values }

end Flag

namespace Given

/-- The value of a flag: the last that was given, or else the one it starts with. -/
def value (g : Given) (f : Flag) : String := (g.values.reverse.lookup f.name).getD f.initial

/-- Whether a truth value was given as true. -/
def isTrue (g : Given) (name : String) : Bool :=
  ((g.values.reverse.lookup name).bind Flag.truth?).getD false

end Given

/-! ## Help -/

/-- The flag without its explanation. -/
def Flag.synopsis (f : Flag) : String :=
  let start := match f.letter with
    | some l => s!"  -{l}, --{f.name}"
    | none => "      --" ++ f.name
  match f.type with
  | .text => start ++ " string"
  | .duration => start ++ " duration"
  | .switch => start

/-- The explanation of a flag, with its first value where that says something. -/
def Flag.explanation (f : Flag) : String :=
  if f.initial = "" || f.type == .switch then f.usage
  else match f.type with
    | .text => s!"{f.usage} (default {Text.quoted f.initial})"
    | _ => s!"{f.usage} (default {f.initial})"

/-- Flags by name, one a line, with their explanations in one column. -/
def flagLines (flags : List Flag) : List String :=
  let flags := flags.mergeSort fun a b => !(b.name < a.name)
  let width := (flags.map (·.synopsis.length)).foldl max 0
  flags.map fun f => f.synopsis ++ "".pushn ' ' (width - f.synopsis.length + 3) ++ f.explanation

end WasmLisp.Cli
