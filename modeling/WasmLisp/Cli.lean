import WasmLisp.Cli.Command
import WasmLisp.Repl.Live
import WasmLisp.Service.Runner

/-!
The command line: what the arguments of the program ask for, and what doing it gives.
-/

namespace WasmLisp.Cli

/-! ## The commands -/

def configFlag : Flag :=
  { name := "config", letter := some 'c', usage := "Path to jitlink.toml" }

def targetFlag (usage : String) : Flag := { name := "target", letter := some 't', usage }

def outputFlag : Flag :=
  { name := "output", letter := some 'o', usage := "Write the artifact to this file" }

def moduleFlag : Flag :=
  { name := "module", letter := some 'm', usage := "Module name", initial := "main" }

def timeoutFlag : Flag :=
  { name := "timeout", type := .duration, usage := "Per request timeout"
    initial := Service.Client.defaultTimeout.text }

/-- Completion scripts for a shell, which are not part of this program. -/
def completionFor (shell : String) : Command :=
  { path := ["completion", shell], short := "Generate the autocompletion script for " ++ shell
    arity := some .none
    flags := [{ name := "no-descriptions", type := .switch
                usage := "disable completion descriptions" }] }

/-- The program with its commands. -/
def program : Program where
  name := "jitlink"
  short := "Compile, cache and link code units at runtime"
  common := [configFlag]
  commands :=
    [{ path := ["eval"], arguments := "<expr>...", arity := some (.atLeast 1)
       short := "Evaluate expressions in one session and print each value" },
     { path := ["run"], arguments := "<file>", arity := some (.exactly 1)
       short := "Load a source file form by form" },
     { path := ["compile"], arguments := "<file>", arity := some (.exactly 1)
       short := "Compile a source file into an artifact without running it"
       flags := [targetFlag "Configured target name (default host)", outputFlag, moduleFlag] },
     { path := ["repl"], arity := some .none, short := "Start an interactive local session" },
     { path := ["serve"], arity := some .none, short := "Run the remote compilation service"
       flags := [targetFlag "Configured target sessions compile for (default host)"] },
     { path := ["remote"], arguments := "<addr> [expr...]", arity := some (.atLeast 1)
       short := "Compile on a remote service and run locally"
       long := "Connects to a compilation service. Each expression is compiled remotely and\n"
         ++ "loaded into the local engine. Without expressions an interactive session starts."
       flags := [timeoutFlag] },
     { path := ["cache"], runs := false, short := "Inspect or clear the object cache" },
     { path := ["cache", "stats"], arity := some .none, short := "Show entries and size per target" },
     { path := ["cache", "clear"], arity := some .none, short := "Remove cached artifacts"
       flags := [targetFlag "Only clear this configured target"] },
     { path := ["help"], arguments := "[command]", short := "Help about any command"
       long := "Help provides help for any command in the application.\n"
         ++ "Simply type jitlink help [path to command] for full details." },
     { path := ["completion"], runs := false, arity := some .none
       short := "Generate the autocompletion script for the specified shell"
       long := "Generate the autocompletion script for jitlink for the specified shell.\n"
         ++ "See each sub-command's help for details on how to use the generated script." },
     completionFor "bash", completionFor "zsh", completionFor "fish", completionFor "powershell"]

/-- What is to be done. -/
inductive Action where
  | eval (sources : List String)
  | runFile (file : String)
  | compile (file target output module : String)
  | repl
  | serve (target : String)
  | remote (address : String) (timeout : Duration) (sources : List String)
  | cacheStats
  | cacheClear (target : String)
  | print (text : String)
  deriving Repr, Inhabited

/-- What the arguments ask for: texts that need no settings, or an action with the path of the
settings. -/
inductive Plan where
  | show (text : String)
  | act (config : String) (action : Action)
  deriving Repr, Inhabited

/-- A list of words that name no help topic, each between back quotes where it can be. -/
def topicText (words : List String) : String :=
  let plain (c : Char) := c ≠ Char.ofNat 0x60 && c.toNat ≠ 0x7f && c.toNat ≠ 0xfeff
    && (c = '\t' || 0x20 ≤ c.toNat)
  let tick := String.singleton (Char.ofNat 0x60)
  let shown (w : String) : String := if w.toList.all plain then tick ++ w ++ tick else Text.quoted w
  "[" ++ " ".intercalate (words.map shown) ++ "]"

/-- The help that words ask for. -/
def helpFor (words : List String) : String :=
  match program.find words with
  | .ok (c, _) => program.help c
  | .error _ => s!"Unknown help topic {topicText words}\n" ++ program.usage program.self false

/-- The action of a command that was given flags and arguments. -/
def actionOf (c : Command) (g : Given) : Action :=
  let value (name : String) : String :=
    ((c.flags.find? (·.name == name)).map g.value).getD ""
  let first := g.args.headD ""
  match c.path with
  | ["eval"] => .eval g.args
  | ["run"] => .runFile first
  | ["compile"] => .compile first (value "target") (value "output") (value "module")
  | ["repl"] => .repl
  | ["serve"] => .serve (value "target")
  | ["remote"] =>
    let timeout := (Duration.parse (value "timeout")).toOption.getD Service.Client.defaultTimeout
    .remote first timeout g.args.tail
  | ["cache", "stats"] => .cacheStats
  | ["cache", "clear"] => .cacheClear (value "target")
  | ["help"] => .print (helpFor g.args)
  | _ => .print ""

/-- What arguments ask for. Flags are read before anything else, then help is given where it is
asked for or nothing else can be done, and then the arguments are counted. -/
def plan (args : List String) : Except String Plan := do
  let (c, rest) ← program.find args
  let flags := c.flags ++ [program.helpFlag c] ++ program.common
  let g ← (Flag.readAll flags rest).mapError FlagFault.message
  if g.isTrue "help" || !c.runs then return .show (program.help c)
  if let some fault := program.arityFault? c g.args then throw fault
  return .act (g.value configFlag) (actionOf c g)

/-! ## Doing it -/

/-- What the program runs in: files, environment variables, what can be read from standard input,
the time, the directory of the cache unless the settings name one, and the compile services that
can be reached. -/
structure Shell where
  files : FileTree
  vars : List (String × String) := []
  stdin : String := ""
  now : Instant := ⟨0⟩
  cacheDir : String := ""
  services : List (String × Service.Server) := []
  deriving Inhabited

/-- What a run gives: the files after it, what it printed, and why it failed if it did. -/
structure Outcome where
  files : FileTree
  stdout : String := ""
  failure : Option String := none
  deriving Inhabited

namespace Outcome

/-- The exit code. -/
def code (o : Outcome) : Nat := if o.failure.isSome then 1 else 0

def stderr (o : Outcome) : String := (o.failure.map fun e => "Error: " ++ e ++ "\n").getD ""

end Outcome

/-- The text of a file. -/
def readFile (files : FileTree) (path : String) : Except String String :=
  match files.read (Path.join [path]) with
  | .ok bytes => .ok (Text.ofBytes bytes)
  | .error _ => .error (files.readMessage path)

/-- A Lisp for the settings. -/
def lispFor (sh : Shell) (config : Config) : Except String Lisp :=
  (Lisp.new config sh.files sh.now).mapError Failure.message

/-- The end of a run of a Lisp. -/
def ended (s : Lisp) (stdout : String) (failure : Option Failure) : Outcome :=
  { files := s.cache.files, stdout, failure := failure.map Failure.message }

/-- Evaluates sources up to the first that fails, and prints their values. -/
def evalAll (v : Evaluator) (s : Lisp) (stdout : String) : List String → Outcome
  | [] => ended s stdout none
  | source :: rest =>
    match v.evalPrinting s source with
    | (_, s, printed, .error e) => ended s (stdout ++ printed) (some e)
    | (v, s, printed, .ok x) => evalAll v s (stdout ++ printed ++ s!"{x.toInt}\n") rest

/-- Compiles a file, writes the artifact if it is to be written, and says what it is. -/
def compileFile (s : Lisp) (source target output module : String) : Outcome :=
  match s.target target with
  | .error e => ended s "" (some e)
  | .ok spec =>
    match Session.new (some s.preamble) spec with
    | .error e => ended s "" (some e)
    | .ok session =>
      let (_, compiler, r) := session.compile s.compiler module source
      let s := { s with compiler }
      match r with
      | .error e => ended s "" (some e)
      | .ok m =>
        let art := m.artifact
        let line := s!"{art.hash} {art.entrySymbol} {spec.describe} cached={art.fromCache}\n"
        if output = "" then ended s line none
        else
          match s.cache.files.write? (Path.join [output]) art.bytes with
          | some files => { files, stdout := line }
          | none => ended s "" (some (.plain (s.cache.files.writeMessage output)))

/-- Evaluates the lines of standard input. -/
def lineSession (sh : Shell) (v : Evaluator) (s : Lisp) : Outcome :=
  let eval (state : Evaluator × Lisp) (source : String) :=
    let (v, s, printed, r) := state.1.evalPrinting state.2 source
    ((v, s), v.ns, printed, r)
  let ((_, s), stdout, fault) := LineRepl.run eval (v, s) (LineRepl.linesOf sh.stdin)
  ended s stdout (fault.map .plain)

/-! ### The cache -/

/-- A number of bytes with a unit, to two digits. -/
def sizeText (n : Nat) : String :=
  let rec unitOf (units : List String) (base : Nat) : Nat × String :=
    match units with
    | [] => (base, "EB")
    | [u] => (base, u)
    | u :: rest => if n < base * 1000 then (base, u) else unitOf rest (base * 1000)
  let (base, unit) := unitOf ["B", "kB", "MB", "GB", "TB", "PB", "EB"] 1
  let tenths := (20 * n + base) / (2 * base)
  if n < 10 then s!"{n} B"
  else if tenths < 100 then s!"{tenths / 10}.{tenths % 10} {unit}"
  else
    let half := tenths % 10 = 5
    let whole := tenths / 10
    let rounded := if half then whole + whole % 2 else (tenths + 5) / 10
    s!"{rounded} {unit}"

/-- Rows of three cells; the first two columns are as wide as their widest cell and two blanks. -/
def columns (rows : List (String × String × String)) : String :=
  let width (cell : (String × String × String) → String) : Nat :=
    (rows.map fun r => (cell r).length).foldl max 0 + 2
  let w1 := width (·.1)
  let w2 := width (·.2.1)
  let pad (w : Nat) (s : String) : String := s ++ "".pushn ' ' (w - s.length)
  String.join (rows.map fun (a, b, c) => pad w1 a ++ pad w2 b ++ c ++ "\n")

/-- The sizes of all targets and their sum. -/
def statsTable (ts : List Cache.TargetStats) : String :=
  columns ([("TARGET", "ENTRIES", "SIZE")]
    ++ ts.map (fun t => (t.target, toString t.entries, sizeText t.bytes))
    ++ [("total", "", sizeText ((ts.map (·.bytes)).foldl (· + ·) 0))])

/-- Clears the cache, or only what it holds for a target. -/
def clearCache (config : Config) (c : Cache) (target : String) : Cache × Option Failure :=
  if target = "" then c.clearAll
  else match config.target? target with
    | none => (c, some (.plain s!"unknown target {Text.quoted target}"))
    | some t => c.clear t.spec

/-! ### Remote services -/

open Service (Caller Server)

/-- Evaluates a source, and gives what was printed while it ran. -/
def remoteEval (x : Caller) (server : Server) (connection : Nat) (timeout : Duration)
    (source : String) : Caller × Server × String × Result Int64 :=
  let (x, server, r) := x.eval (Server.peer connection) server (.timeout timeout) source
  let (x, printed) := x.takeOutput
  (x, server, printed, r)

/-- Evaluates sources up to the first that fails, and prints their values. -/
def remoteEvalAll (x : Caller) (server : Server) (connection : Nat) (timeout : Duration)
    (stdout : String) : List String → String × Option Failure
  | [] => (stdout, none)
  | source :: rest =>
    match remoteEval x server connection timeout source with
    | (_, _, printed, .error e) => (stdout ++ printed, some e)
    | (x, server, printed, .ok v) =>
      remoteEvalAll x server connection timeout (stdout ++ printed ++ s!"{v.toInt}\n") rest

/-- Compiles sources with the service at an address and runs them here. -/
def runRemote (sh : Shell) (s : Lisp) (address : String) (timeout : Duration)
    (sources : List String) : Outcome :=
  match sh.services.lookup address with
  | none =>
    let cause := Failure.plain s!"dial tcp {address}: connect: connection refused"
    ended s "" (some (.transport .disconnected ("dial " ++ address) (some cause)))
  | some server =>
    let (server, connection) := server.accept address sh.now
    let x : Caller := { runner := .new s.engine "" }
    if sources.isEmpty then
      let eval (state : Caller × Server) (source : String) :=
        let (x, server, printed, r) := remoteEval state.1 state.2 connection timeout source
        ((x, server), x.runner.ns, printed, r)
      let (_, stdout, fault) := LineRepl.run eval (x, server) (LineRepl.linesOf sh.stdin)
      ended s stdout (fault.map .plain)
    else
      let (stdout, failure) := remoteEvalAll x server connection timeout "" sources
      ended s stdout failure

/-! ### Runs -/

/-- Does what was asked for, with the settings read. -/
def act (sh : Shell) (config : Config) : Action → Except String Outcome
  | .eval sources => do
    let s ← lispFor sh config
    let v ← (Evaluator.new s .host).mapError Failure.message
    return evalAll v s "" sources
  | .runFile file => do
    let source ← readFile sh.files file
    let s ← lispFor sh config
    let v ← (Evaluator.new s .host).mapError Failure.message
    let (_, s, r) := v.require s source
    let (engine, printed) := s.engine.takeOutput
    return ended { s with engine } printed (match r with
      | .ok _ => none
      | .error e => some e)
  | .compile file target output module => do
    let source ← readFile sh.files file
    let s ← lispFor sh config
    return compileFile s source target output module
  | .repl => do
    let s ← lispFor sh config
    let v ← (Evaluator.new s .host).mapError Failure.message
    return lineSession sh v s
  | .serve target => do
    let s ← lispFor sh config
    let _ ← (s.target target).mapError Failure.message
    return ended s "" none
  | .remote address timeout sources => do
    let s ← lispFor sh config
    return runRemote sh s address timeout sources
  | .cacheStats => do
    let c ← (Cache.openIn config.cacheDir sh.files sh.now).mapError Failure.message
    let ts ← c.stats.mapError Failure.message
    return { files := c.files, stdout := statsTable ts }
  | .cacheClear target => do
    let c ← (Cache.openIn config.cacheDir sh.files sh.now).mapError Failure.message
    let (c, failure) := clearCache config c target
    return { files := c.files, failure := failure.map Failure.message }
  | .print text => return { files := sh.files, stdout := text }

/-- The settings that a path and the environment give. -/
def settings (sh : Shell) (path : String) : Except String Config :=
  let file := if path = "" then none
    else some (path, (sh.files.read (Path.join [path])).toOption.map Text.ofBytes)
  (Config.load sh.cacheDir file sh.vars).mapError Config.Fault.message

/-- Runs the program with arguments. -/
def run (sh : Shell) (args : List String) : Outcome :=
  let out : Except String Outcome := do
    match ← plan args with
    | .show text => return { files := sh.files, stdout := text }
    | .act path action => act sh (← settings sh path) action
  match out with
  | .ok o => o
  | .error e => { files := sh.files, failure := some e }

end WasmLisp.Cli
