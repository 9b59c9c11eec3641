import WasmLisp.Service.Message
import WasmLisp.Text.Duration

/-!
Clients of the compile service. Requests get ascending numbers and responses are matched by them.
A request that is given up is remembered for a while, so that a late response to it is dropped; any
other response that nothing waits for ends the connection. Once it has ended every request fails
with the failure that ended it.
-/

namespace WasmLisp.Service

/-- The client's side of a connection. -/
structure Client where
  /-- The number of the last request. -/
  issued : Nat := 0
  /-- The requests that wait for a response. -/
  pending : List Nat := []
  /-- The requests that were given up and whose responses may still come. -/
  abandoned : List Nat := []
  /-- What ended the connection. -/
  failure : Option Failure := none
  /-- Bytes of a response that is not complete yet. -/
  unread : List UInt8 := []
  deriving Inhabited

namespace Client

/-- How many requests that were given up are remembered. -/
def maxAbandoned : Nat := 1024

/-- How long a request waits for its response unless something else is said. -/
def defaultTimeout : Duration := .ofSeconds 30

/-- Ends the connection. The first failure stays. -/
def fail (c : Client) (e : Failure) : Client :=
  match c.failure with
  | some _ => c
  | none => { c with failure := some e, pending := [], abandoned := [], unread := [] }

/-- Numbers a request and waits for its response, unless the connection has ended. -/
def send (c : Client) (r : Request) : Client × Result Request :=
  let id := c.issued + 1
  let c := { c with issued := id }
  match c.failure with
  | some e => (c, .error e)
  | none => ({ c with pending := id :: c.pending }, .ok { r with id })

/-- The connection did not take a request. -/
def writeFailed (c : Client) (cause : Failure) : Client :=
  c.fail (.transport .disconnected "write request" (some cause))

/-- Takes a response, and gives it back if a request waits for it. -/
def take (c : Client) (r : Response) : Client × Option Response :=
  if c.failure.isSome then (c, none)
  else if c.abandoned.contains r.id then
    ({ c with abandoned := c.abandoned.filter (· != r.id) }, none)
  else if c.pending.contains r.id then
    ({ c with pending := c.pending.filter (· != r.id) }, some r)
  else
    let stray := Failure.transport .protocolViolation s!"response for unknown request {r.id}" none
    -- no request has the number 0: with it the service says why it is about to hang up
    match r.failure? with
    | some e => (c.fail (if r.id = 0 then e else stray), none)
    | none => (c.fail stray, none)

/-- Takes responses in order. -/
def takeAll (c : Client) : List Response → Client × List Response
  | [] => (c, [])
  | r :: rest =>
    let (c, first) := c.take r
    let (c, others) := c.takeAll rest
    (c, first.toList ++ others)

/-- Takes bytes from the connection, and gives the responses that requests wait for. -/
def receive (c : Client) (input : List UInt8) : Client × List Response :=
  if c.failure.isSome then (c, [])
  else
    let got := Service.receive Response.ofCbor (c.unread ++ input)
    let (c, responses) := { c with unread := got.unread }.takeAll got.messages
    if got.malformed then
      (c.fail (.transport .protocolViolation "malformed response" (some (.plain "cbor"))), responses)
    else (c, responses)

/-- The other side ended the connection. -/
def disconnect (c : Client) : Client :=
  c.fail (.transport .disconnected "connection lost" (some (.plain "EOF")))

/-- The client itself ends the connection. -/
def close (c : Client) : Client := c.fail (.transport .disconnected "client closed" none)

/-- Gives a request up. Of too many that are remembered, the one with the least number is
forgotten. -/
def forget (c : Client) (id : Nat) : Client :=
  if !c.pending.contains id then c
  else
    let kept := if c.abandoned.length < maxAbandoned then c.abandoned
      else match c.abandoned.min? with
        | some least => c.abandoned.erase least
        | none => c.abandoned
    { c with pending := c.pending.filter (· != id), abandoned := id :: kept }

/-- Why a request is given up. -/
inductive Impatience where
  | timeout (after : Duration)
  | cancelled
  deriving Repr

/-- Gives a request up and says so. -/
def giveUp (c : Client) (r : Request) (why : Impatience) : Client × Failure :=
  (c.forget r.id, match why with
    | .timeout after =>
      .ofReport { phase := .transport, kind := .timeout, symbol := r.op
                  detail := s!"no response to request {r.id} after {after.text}" }
    | .cancelled =>
      .transport .timeout (r.op ++ " cancelled") (some (.plain "context canceled")))

/-- How a request ends: with its response, with the failure of the connection, or given up. -/
def finish (c : Client) (r : Request) (responses : List Response) (why : Impatience) :
    Client × Result Response :=
  -- a response that came before the connection failed still counts
  match responses.find? (·.id == r.id), c.failure with
  | some response, _ => (c, response.outcome)
  | none, some e => (c, .error e)
  | none, none => let (c, e) := c.giveUp r why; (c, .error e)

/-- The namespace that a response to a ping tells. -/
def pinged (r : Response) : Result String :=
  if r.op = "pong" then .ok r.ns
  else .error (.transport .protocolViolation ("unexpected reply " ++ r.op) none)

end Client

end WasmLisp.Service
