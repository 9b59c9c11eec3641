import WasmLisp.Service.Message
import WasmLisp.Session

/-!
The compile service. Each connection has a session of its own. The requests of a connection are
answered one by one in the order of their arrival; bytes that are no request are answered once, and
end the connection.
-/

namespace WasmLisp.Service

/-! ## Connections -/

/-- Where the work on a connection stands. -/
inductive Stage where
  | idle
  | compiling
  | responding
  | failing
  | closed
  deriving DecidableEq, Repr, Inhabited

namespace Stage

def name : Stage → String
  | .idle => "idle"
  | .compiling => "compiling"
  | .responding => "responding"
  | .failing => "failing"
  | .closed => "closed"

def all : List Stage := [.idle, .compiling, .responding, .failing, .closed]

/-- The name of the stage with a code. -/
def nameOfCode (code : Nat) : String := ((all[code]?).map name).getD "unknown"

/-- The stages that can follow a stage. -/
def next : Stage → List Stage
  | .idle => [.compiling, .closed]
  | .compiling => [.responding, .failing, .closed]
  | .responding => [.idle, .closed]
  | .failing => [.idle, .closed]
  | .closed => []

end Stage

/-- The service's side of a connection. -/
structure Connection where
  id : Nat
  /-- The address of the client. -/
  peer : String
  started : Instant
  session : Session
  stage : Stage := .idle
  /-- How many requests were taken up. -/
  requests : Nat := 0
  /-- Whether the client is gone. -/
  disconnected : Bool := false
  /-- Bytes of a request that is not complete yet. -/
  unread : List UInt8 := []
  deriving Inhabited

/-- Goes to a stage if it can follow the present one. -/
def Connection.moveTo (c : Connection) (stage : Stage) : Connection :=
  if c.stage.next.contains stage then { c with stage } else c

/-! ## Requests -/

/-- A compile request, once the session is in the namespace asked for. -/
def compileFor (s : Session) (c : Compiler) (r : Request) : Session × Compiler × Result Response :=
  if r.module = "" then
    (s, c, .error (.invalidInput .compile "compile request has no module name"))
  else
    let (s, c, out) := s.compile c r.module r.source
    (s, c, out.map fun m =>
      let compiled : Module :=
        { name := m.module, entrySymbol := m.artifact.entrySymbol, hash := m.artifact.hash
          artifact := m.artifact.bytes }
      { op := "compiled", id := r.id, ns := s.ns, compiled })

/-- A require request, once the session is in the namespace asked for. Modules without a name of
their own are named for the namespace. -/
def requireFor (s : Session) (c : Compiler) (r : Request) : Session × Compiler × Result Response :=
  let (s, c, out) := s.require c (if r.module = "" then s.ns else r.module) r.source
  (s, c, out.map fun q =>
    let modules := q.modules.map fun (m : Compiled) =>
      ({ name := m.module, entrySymbol := m.artifact.entrySymbol, hash := m.artifact.hash
         artifact := m.artifact.bytes } : Module)
    { op := "required", id := r.id, ns := s.ns, modules, skipped := q.skipped })

/-- Why a session does not compile for the target that a request names. -/
def targetRefusal? (s : Session) (r : Request) : Option Failure :=
  match r.target with
  | none => none
  | some want =>
    if s.target.serves want then none
    else some (.invalidInput .compile
      s!"session compiles for {s.target.describe}, request asks for {want.describe}")

/-- Carries out a request in a session. -/
def dispatch (s : Session) (c : Compiler) (r : Request) : Session × Compiler × Result Response :=
  if r.op = "ping" then (s, c, .ok { op := "pong", id := r.id, ns := s.ns })
  else if r.op ≠ "compile" && r.op ≠ "require" then
    (s, c, .error (.transport .protocolViolation s!"unknown op {Text.quoted r.op}" none))
  else match targetRefusal? s r with
    | some e => (s, c, .error e)
    | none =>
      let s := s.switchTo r.ns
      if r.op = "compile" then compileFor s c r else requireFor s c r

/-! ## The service -/

/-- The service: a compiler that its connections share. -/
structure Server where
  compiler : Compiler
  preamble : Preamble
  target : Target
  /-- The connections that are open, in the order in which they were made. -/
  connections : List Connection := []
  /-- How many connections were made. -/
  accepted : Nat := 0
  metrics : Metrics := .start ["jitlink_remote_sessions"]
  deriving Inhabited

namespace Server

/-- The open connection of a number. -/
def connection? (s : Server) (id : Nat) : Option Connection := s.connections.find? (·.id == id)

/-- Sets the list of open connections and the count of them. -/
def withConnections (s : Server) (cs : List Connection) : Server :=
  { s with connections := cs
           metrics := s.metrics.set (seriesName "jitlink_remote_sessions" []) cs.length }

/-- Makes a connection and gives its number. It is closed at once if there can be no session. -/
def accept (s : Server) (peer : String) (now : Instant) : Server × Nat :=
  let id := s.accepted + 1
  let s := { s with accepted := id }
  match Session.new (some s.preamble) s.target with
  | .error _ => (s, id)
  | .ok session => (s.withConnections (s.connections ++ [{ id, peer, started := now, session }]), id)

/-- Closes a connection. -/
def hangUp (s : Server) (id : Nat) : Server :=
  s.withConnections (s.connections.filter (·.id != id))

/-- Counts a request by its operation and result. -/
def count (m : Metrics) (op result : String) : Metrics :=
  m.bump "jitlink_remote_requests_total" [("op", op), ("result", result)]

/-- Takes up a request and makes its response. The connection is then about to write it. -/
def process (s : Server) (k : Connection) (r : Request) : Server × Connection × Response :=
  let k := { k with requests := k.requests + 1 }.moveTo .compiling
  let (session, compiler, out) := dispatch k.session s.compiler r
  let k := { k with session }
  let (k, result, response) := match out with
    | .ok response => (k.moveTo .responding, "ok", response)
    | .error e => (k.moveTo .failing, "error", .ofFailure r.id e)
  let metrics := (count s.metrics r.op result).bump "jitlink_remote_request_duration_seconds"
    [("op", r.op)]
  ({ s with compiler, metrics }, k, response)

/-- Answers requests in order; after each the connection is idle again. -/
def processAll (s : Server) (k : Connection) : List Request → Server × Connection × List Response
  | [] => (s, k, [])
  | r :: rest =>
    let (s, k, response) := s.process k r
    let (s, k, responses) := processAll s (k.moveTo .idle) rest
    (s, k, response :: responses)

/-- The answer to bytes that are no request. -/
def malformedFrame : Response :=
  .ofFailure 0 (.transport .protocolViolation "malformed frame" (some (.plain "cbor")))

/-- Takes bytes from a connection: answers the requests they complete, and ends the connection at
bytes that are no request. -/
def receive (s : Server) (id : Nat) (input : List UInt8) : Server × List Response :=
  match s.connection? id with
  | none => (s, [])
  | some k =>
    let got := Service.receive Request.ofCbor (k.unread ++ input)
    let (s, k, responses) := s.processAll { k with unread := got.unread } got.messages
    -- what came before the malformed bytes is answered first
    if got.malformed then
      ({ s with metrics := count s.metrics "invalid" "error" }.hangUp id,
        responses ++ [malformedFrame])
    else
      ({ s with connections := s.connections.map fun c => if c.id == id then k else c }, responses)

/-- The client closes a connection. A request that it leaves incomplete counts as no request. -/
def leave (s : Server) (id : Nat) : Server :=
  match s.connection? id with
  | none => s
  | some k =>
    let s := if k.unread.isEmpty then s else { s with metrics := count s.metrics "invalid" "error" }
    s.hangUp id

/-- All counts. -/
def allMetrics (s : Server) : Metrics := s.metrics.union s.compiler.allMetrics

end Server

end WasmLisp.Service
