import Std.Async.TCP
import Std.Time.DateTime.Timestamp
import WasmLisp.Cli

/-!
The program itself. It reads the files that a run can look at into a file tree, lets the command line
do its work on the tree, and writes what changed back. Services are reached and offered over TCP.
-/

namespace WasmLisp.Main

open Std.Async Std.Net

/-! ## Time and files -/

/-- The time. -/
def now : IO Instant := do
  return ⟨(← Std.Time.Timestamp.now).toMillisecondsSinceUnixEpoch.val⟩


/-- Adds what there is on disk at a path, with as many levels of what is below it. -/
def readTree (t : FileTree) (path : String) : (levels : Nat) → IO FileTree
  | 0 => return t
  | levels + 1 => do
    let onDisk := (← IO.currentDir) / path
    if !(← onDisk.pathExists) then return t
    let p := Path.join [path]
    let t := (FileTree.lineage p.dropLast).foldl (·.put · .dir) t
    if ← onDisk.isDir then
      let mut t := t.put p .dir
      for e in ← onDisk.readDir do
        t ← readTree t s!"{path}/{e.fileName}" levels
      return t
    else return t.put p (.file (← IO.FS.readBinFile path).toList)

/-- Makes the disk what a tree says, where it differs from an earlier one. -/
def writeBack (before after : FileTree) : IO Unit := do
  for (p, e) in after.entries.reverse do
    if before.entry? p ≠ some e then
      match e with
      | .dir => IO.FS.createDirAll p.text
      | .file bytes =>
        IO.FS.createDirAll (Path.text p.dropLast)
        IO.FS.writeBinFile p.text ⟨bytes.toArray⟩
  for (p, e) in before.entries do
    if (after.entry? p).isNone && (← ((← IO.currentDir) / p.text).pathExists) then
      if e = .dir then IO.FS.removeDirAll p.text else IO.FS.removeFile p.text

/-- The paths that an action names. -/
def pathsOf : Cli.Action → List String
  | .runFile file => [file]
  | .compile file _ output _ => [file, Path.text (Path.join [output]).dropLast, output]
  | _ => []

/-- How deep the directory of the cache is. -/
def cacheLevels : Nat := 8

/-! ## Services -/

/-- The address that a text names, which has to be a numeric one. -/
def address? (text : String) : Option SocketAddress := do
  let [host, number] := text.splitOn ":" | none
  let ip ← IPv4Addr.ofString
    (if host = "" then "0.0.0.0" else if host = "localhost" then "127.0.0.1" else host)
  return .v4 ⟨ip, UInt16.ofNat (← number.toNat?)⟩

/-- How many bytes are taken from a connection at once. -/
def chunk : UInt64 := 65536

/-- Serves a connection until it ends. -/
def serveOne (state : IO.Ref Service.Server) (id : Nat) (socket : TCP.Socket.Client) : Async Unit := do
  repeat
    let some data ← socket.recv? chunk | break
    let responses ← state.modifyGet fun s =>
      let (s, responses) := s.receive id data.toList
      (responses, s)
    for r in responses do
      socket.send ⟨r.encode.toArray⟩
    if ((← state.get).connection? id).isNone then break
  state.modify (·.leave id)

/-- Offers the service at an address, until the process ends. -/
def serve (s : Lisp) (target : Target) (listen : String) : IO Unit := do
  let some address := address? listen | throw (IO.userError s!"listen {listen}: no such address")
  let state ← IO.mkRef
    ({ compiler := s.compiler, preamble := s.preamble, target := target.normalize } : Service.Server)
  let server ← TCP.Socket.Server.mk
  server.bind address
  server.listen 128
  Async.block do
    repeat
      let socket ← server.accept
      let started ← now
      let id ← state.modifyGet fun s =>
        let (s, id) := s.accept "tcp" started
        (id, s)
      background (serveOne state id socket)

/-- Sends a request to a service and waits for its response. -/
def ask (socket : TCP.Socket.Client) (c : Service.Client) (r : Service.Request) :
    Async (Service.Client × Result Service.Response) := do
  match c.send r with
  | (c, .error e) => return (c, .error e)
  | (c, .ok r) =>
    socket.send ⟨r.encode.toArray⟩
    let mut c := c
    repeat
      let (next, responses) ← do
        match ← socket.recv? chunk with
        | some data => pure (c.receive data.toList)
        | none => pure (c.disconnect, [])
      c := next
      if next.failure.isSome || responses.any (·.id == r.id) then
        return next.finish r responses .cancelled
    return (c, .error (.transport .disconnected "connection lost" none))

/-- Evaluates a source with a service, and prints what it prints. -/
def evalOver (socket : TCP.Socket.Client) (x : Service.Caller) (source : String) :
    Async (Service.Caller × Result Int64) := do
  let (asking, request) := x.runner.evalRequest source
  let (client, response) ← ask socket x.client request
  let (runner, r) := asking.finishEval response
  let (x, printed) := ({ client, runner } : Service.Caller).takeOutput
  IO.print printed
  return (x, r)

/-- Compiles sources with the service at an address and runs them here up to the first that fails.
Without sources the lines of standard input are evaluated. -/
def remote (s : Lisp) (address : String) (sources : List String) : Async (Option Failure) := do
  let refused (why : String) := Failure.transport .disconnected ("dial " ++ address) (some (.plain why))
  let some place := address? address | return some (refused "no such address")
  let socket ← TCP.Socket.Client.mk
  try socket.connect place catch e => return some (refused (toString e))
  let mut x : Service.Caller := { runner := .new s.engine "" }
  for source in sources do
    let (next, r) ← evalOver socket x source
    x := next
    match r with
    | .ok v => IO.println s!"{v.toInt}"
    | .error e => return some e
  if sources.isEmpty then
    for line in LineRepl.linesOf (← (← IO.getStdin).readToEnd) do
      let source := Repl.trimmed line
      if source ≠ "" then
        let (next, r) ← evalOver socket x source
        x := next
        IO.print (LineRepl.answer x.runner.ns r)
  return none

/-! ## Runs -/

/-- The environment settingNames that settings can come from. -/
def settingNames : List String :=
  ["JITLINK_CACHE_DIR", "JITLINK_LISTEN", "JITLINK_ADMIN", "JITLINK_LOG_LEVEL", "JITLINK_LIBRARIES"]

/-- What the process runs in, without the files of the settings and the action. -/
def surroundings : IO Cli.Shell := do
  let mut vars : List (String × String) := []
  for name in settingNames do
    if let some v ← IO.getEnv name then vars := (name, v) :: vars
  let home := (← IO.getEnv "HOME").getD "/tmp"
  let caches := (← IO.getEnv "XDG_CACHE_HOME").getD (home ++ "/.cache")
  return { files := {}, vars, cacheDir := caches ++ "/jitlink", now := ← now }

/-- Reports the end of a run. -/
def report (o : Cli.Outcome) : IO UInt32 := do
  IO.print o.stdout
  IO.eprint o.stderr
  return UInt32.ofNat o.code

/-- Carries out an action in surroundings that hold the files of the settings. -/
def carryOut (sh : Cli.Shell) (config : Config) (action : Cli.Action) : IO UInt32 := do
  let mut files := sh.files
  for path in (config.preamble :: pathsOf action).filter (· ≠ "") do
    files ← readTree files path 1
  files ← readTree files config.cacheDir cacheLevels
  let stdin ← match action with
    | .repl => (← IO.getStdin).readToEnd
    | _ => pure ""
  let sh := { sh with files, stdin }
  let finished (out : Except String Cli.Outcome) : Cli.Outcome :=
    match out with
    | .ok o => o
    | .error e => { files, failure := some e }
  match action, Cli.lispFor sh config with
  | .serve target, .ok s =>
    match s.target target with
    | .ok spec => serve s spec config.listen; return 0
    | .error e => report { files, failure := some e.message }
  | .remote address _ sources, .ok s =>
    let failure ← Async.block (remote s address sources)
    report { files, failure := failure.map Failure.message }
  | _, _ =>
    let o := finished (Cli.act sh config action)
    writeBack files o.files
    report o

end WasmLisp.Main

/-- Runs the program with arguments and gives its exit code. -/
def main (args : List String) : IO UInt32 := do
  let sh ← WasmLisp.Main.surroundings
  match WasmLisp.Cli.plan args with
  | .error e => WasmLisp.Main.report { files := {}, failure := some e }
  | .ok (.show text) => WasmLisp.Main.report { files := {}, stdout := text }
  | .ok (.act path action) =>
    let files ← if path = "" then pure {} else WasmLisp.Main.readTree {} path 1
    let sh := { sh with files }
    match WasmLisp.Cli.settings sh path with
    | .error e => WasmLisp.Main.report { files, failure := some e }
    | .ok config => WasmLisp.Main.carryOut sh config action
