import WasmLisp.Engine
import WasmLisp.Service.Client
import WasmLisp.Service.Server

/-!
Running code that the compile service compiles: sources go to the service as requests, and the
modules of its responses are loaded into an engine of this process. A module is only loaded if its
bytes are what the response says they are.
-/

namespace WasmLisp.Service

/-- The running side of a connection to the service. -/
structure Runner where
  engine : Engine
  /-- The namespace of the frame that modules are loaded in. -/
  ns : String
  /-- What the names of modules start with. -/
  stem : String
  evals : Nat := 0
  deriving Inhabited

namespace Runner

/-- A runner over an engine. -/
def new (engine : Engine) (stem : String) : Runner :=
  { engine := { engine with env := engine.env.ensure Env.defaultNs }, ns := Env.defaultNs
    stem := if stem = "" then "repl" else stem }

/-- Loads a module of a response. -/
def load (x : Runner) (m : Module) : Runner × Result Int64 :=
  let violation (what : String) (cause : Option Failure) : Result Int64 :=
    .error (.transport .protocolViolation s!"module {m.name}: {what}" cause)
  match Artifact.open? m.artifact .host with
  | .error fault => (x, violation "unreadable artifact" (some (.plain fault.message)))
  | .ok art =>
    if art.hash ≠ m.hash || art.entrySymbol ≠ m.entrySymbol then
      (x, violation "artifact does not match response" none)
    else
      let (engine, ns, r) := x.engine.load x.ns (some art) m.name
      ({ x with engine, ns }, r.map (·.result))

/-- Loads modules in order up to the first that fails. -/
def loadAll (x : Runner) : List Module → Runner × Result Unit
  | [] => (x, .ok ())
  | m :: rest =>
    match x.load m with
    | (x, .error e) => (x, .error e)
    | (x, .ok _) => x.loadAll rest

/-- The request that evaluates a source as one module. -/
def evalRequest (x : Runner) (source : String) : Runner × Request :=
  let x := { x with evals := x.evals + 1 }
  let module := s!"{x.stem}${x.evals}"
  (x, { op := "compile", ns := x.ns, module, source, target := some .host })

/-- Loads what was compiled and gives its value. -/
def finishEval (x : Runner) : Result Response → Runner × Result Int64
  | .error e => (x, .error e)
  | .ok r => x.load r.compiled

/-- The request that compiles each form of a source as a module of its own. -/
def requireRequest (x : Runner) (source : String) : Request :=
  { op := "require", ns := x.ns, module := x.stem, source, target := some .host }

/-- Loads the modules and gives the names that were left out as current. -/
def finishRequire (x : Runner) : Result Response → Runner × Result (List String)
  | .error e => (x, .error e)
  | .ok r =>
    let (x, out) := x.loadAll r.modules
    (x, out.map fun _ => r.skipped)

end Runner

/-! ## Callers -/

/-- What comes over a connection to a client. -/
inductive Event where
  | bytes (data : List UInt8)
  /-- The other side ends the connection. -/
  | closed
  deriving DecidableEq, Repr, Inhabited

/-- The other side of a connection: what it does when a request arrives. -/
abbrev Peer (σ : Type) := σ → Request → σ × List Event

/-- The service as the other side of one of its connections. -/
def Server.peer (connection : Nat) : Peer Server := fun s r =>
  let (s, responses) := s.receive connection r.encode
  let gone := if (s.connection? connection).isNone then [Event.closed] else []
  (s, responses.map (fun response => .bytes response.encode) ++ gone)

/-- Takes what comes over the connection, and gives the responses that requests wait for. -/
def Client.hear (c : Client) : List Event → Client × List Response
  | [] => (c, [])
  | .closed :: rest => c.disconnect.hear rest
  | .bytes data :: rest =>
    let (c, responses) := c.receive data
    let (c, more) := c.hear rest
    (c, responses ++ more)

/-- Sends a request and waits for its response. A request that is cancelled is given up as soon as
it is sent, and one that times out when nothing more comes. -/
def Client.ask {σ : Type} (c : Client) (peer : Peer σ) (s : σ) (why : Impatience) (r : Request) :
    Client × σ × Result Response :=
  match c.send r with
  | (c, .error e) => (c, s, .error e)
  | (c, .ok r) =>
    let (s, events) := peer s r
    match why with
    | .cancelled =>
      let (c, e) := c.giveUp r why
      ((c.hear events).1, s, .error e)
    | .timeout _ =>
      let (c, responses) := c.hear events
      let (c, out) := c.finish r responses why
      (c, s, out)

/-- A client, and what runs the code that it gets. -/
structure Caller where
  client : Client := {}
  runner : Runner
  deriving Inhabited

namespace Caller

variable {σ : Type} (x : Caller) (peer : Peer σ) (s : σ) (why : Client.Impatience)

/-- Sends a request and waits for its response. -/
def ask (r : Request) : Caller × σ × Result Response :=
  let (client, s, out) := x.client.ask peer s why r
  ({ x with client }, s, out)

/-- Asks for the namespace of the session. -/
def ping : Caller × σ × Result String :=
  let (x, s, out) := x.ask peer s why { op := "ping" }
  (x, s, out >>= Client.pinged)

/-- Compiles a source as one module and runs it. -/
def eval (source : String) : Caller × σ × Result Int64 :=
  let (runner, r) := x.runner.evalRequest source
  let (x, s, out) := ask { x with runner } peer s why r
  let (runner, out) := x.runner.finishEval out
  ({ x with runner }, s, out)

/-- Compiles each form of a source as a module, except definitions that are current, and runs the
modules. Gives the names left out. -/
def require (source : String) : Caller × σ × Result (List String) :=
  let (x, s, out) := x.ask peer s why (x.runner.requireRequest source)
  let (runner, out) := x.runner.finishRequire out
  ({ x with runner }, s, out)

/-- Takes the text that was printed since the last time. -/
def takeOutput : Caller × String :=
  let (engine, printed) := x.runner.engine.takeOutput
  ({ x with runner := { x.runner with engine } }, printed)

end Caller

end WasmLisp.Service
