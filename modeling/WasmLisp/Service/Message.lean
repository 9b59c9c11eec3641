import WasmLisp.Failure
import WasmLisp.Target

/-!
Messages of the compile service. A client sends requests and the service answers each with one
response of the same number. A message is one CBOR data item, which says itself where it ends.
-/

namespace WasmLisp.Service

/-- What a client asks for. -/
structure Request where
  op : String := ""
  id : Nat := 0
  /-- The namespace to go to first; empty to stay. -/
  ns : String := ""
  source : String := ""
  module : String := ""
  target : Option Target := none
  deriving DecidableEq, Repr, Inhabited

/-- A compiled module in a response. -/
structure Module where
  name : String := ""
  entrySymbol : String := ""
  hash : String := ""
  artifact : List UInt8 := []
  deriving DecidableEq, Repr, Inhabited

/-- The answer to one request. -/
structure Response where
  op : String := ""
  id : Nat := 0
  ns : String := ""
  /-- The module that a compile request gave. -/
  compiled : Module := {}
  /-- The modules that a require request gave, and the definitions left out as current. -/
  modules : List Module := []
  skipped : List String := []
  phase : String := ""
  kind : String := ""
  symbol : String := ""
  message : String := ""
  deriving DecidableEq, Repr, Inhabited

/-- The operation of a response that reports a failure. -/
def errorOp : String := "error"

/-! ## Failures in responses -/

/-- What a response says of a failure: the detail and, after a colon, the cause. -/
def detailOf (r : Report) (cause : Option Failure) : String :=
  match cause with
  | none => r.detail
  | some c => if r.detail = "" then c.message else r.detail ++ ": " ++ c.message

/-- The response that reports a failure. One without a report counts as a failure of the backend. -/
def Response.ofFailure (id : Nat) (e : Failure) : Response :=
  match e.report? with
  | some (r, cause) =>
    { op := errorOp, id, phase := r.phase.name, kind := r.kind.name, symbol := r.symbol
      message := detailOf r cause }
  | none =>
    { op := errorOp, id, phase := Phase.compile.name, kind := FailureKind.backendFailure.name
      message := e.message }

/-- The failure that a response reports. -/
def Response.failure? (r : Response) : Option Failure :=
  if r.op = errorOp then
    some (.ofReport { phase := ⟨r.phase⟩, kind := ⟨r.kind⟩, symbol := r.symbol, detail := r.message })
  else none

/-- A response as the outcome of its request. -/
def Response.outcome (r : Response) : Result Response :=
  match r.failure? with
  | some e => .error e
  | none => .ok r

/-! ## Messages as data items -/

/-- The limits that messages are decoded with. -/
def limits : Cbor.Limits := { arrayItems := 65536, mapEntries := 1024 }

def Request.toCbor (r : Request) : Cbor :=
  Cbor.record
    ([("op", .text r.op), ("id", .int r.id)] ++ Cbor.textUnlessEmpty "ns" r.ns
      ++ Cbor.textUnlessEmpty "source" r.source ++ Cbor.textUnlessEmpty "module" r.module
      ++ r.target.toList.map fun t => ("target", t.toCbor))

/-- The number of a message. -/
def idOfCbor (c : Cbor) : Except Cbor.Fault Nat := Int.toNat <$> Cbor.asInt 0 0xffffffffffffffff c

/-- A target that may be missing. -/
def targetOfCbor (c : Cbor) : Except Cbor.Fault (Option Target) :=
  match c with
  | .null => .ok none
  | .undefined => .ok none
  | c => some <$> Target.ofCbor c

def Request.ofCbor (c : Cbor) : Except Cbor.Fault Request := do
  let r ← Cbor.asRecord ["target", "op", "ns", "source", "module", "id"] c
  return { op := ← Cbor.field r "op" Cbor.asText
           id := ← Cbor.field r "id" idOfCbor
           ns := ← Cbor.field r "ns" Cbor.asText
           source := ← Cbor.field r "source" Cbor.asText
           module := ← Cbor.field r "module" Cbor.asText
           target := ← Cbor.field r "target" targetOfCbor }

def Module.toCbor (m : Module) : Cbor :=
  Cbor.record
    [("name", .text m.name), ("entry_symbol", .text m.entrySymbol), ("hash", .text m.hash),
     ("artifact", .bytes m.artifact)]

def Module.ofCbor (c : Cbor) : Except Cbor.Fault Module := do
  let r ← Cbor.asRecord ["name", "entry_symbol", "hash", "artifact"] c
  return { name := ← Cbor.field r "name" Cbor.asText
           entrySymbol := ← Cbor.field r "entry_symbol" Cbor.asText
           hash := ← Cbor.field r "hash" Cbor.asText
           artifact := ← Cbor.field r "artifact" Cbor.asBytes }

def Response.toCbor (r : Response) : Cbor :=
  let m := r.compiled
  let artifact := if m.artifact.isEmpty then [] else [("artifact", Cbor.bytes m.artifact)]
  Cbor.record
    ([("op", .text r.op), ("id", .int r.id)] ++ Cbor.textUnlessEmpty "entry_symbol" m.entrySymbol
      ++ Cbor.textUnlessEmpty "hash" m.hash ++ Cbor.textUnlessEmpty "module" m.name
      ++ Cbor.textUnlessEmpty "ns" r.ns ++ Cbor.textUnlessEmpty "phase" r.phase
      ++ Cbor.textUnlessEmpty "kind" r.kind ++ Cbor.textUnlessEmpty "symbol" r.symbol
      ++ Cbor.textUnlessEmpty "message" r.message ++ artifact
      ++ Cbor.arrayUnlessEmpty "modules" (r.modules.map Module.toCbor)
      ++ Cbor.arrayUnlessEmpty "skipped" (r.skipped.map .text))

def Response.ofCbor (c : Cbor) : Except Cbor.Fault Response := do
  let r ← Cbor.asRecord
    ["op", "entry_symbol", "hash", "module", "ns", "phase", "kind", "symbol", "message",
     "artifact", "modules", "skipped", "id"] c
  let compiled : Module :=
    { name := ← Cbor.field r "module" Cbor.asText
      entrySymbol := ← Cbor.field r "entry_symbol" Cbor.asText
      hash := ← Cbor.field r "hash" Cbor.asText
      artifact := ← Cbor.field r "artifact" Cbor.asBytes }
  return { op := ← Cbor.field r "op" Cbor.asText
           id := ← Cbor.field r "id" idOfCbor
           ns := ← Cbor.field r "ns" Cbor.asText
           compiled
           modules := ← Cbor.field r "modules" (Cbor.asList Module.ofCbor)
           skipped := ← Cbor.field r "skipped" (Cbor.asList Cbor.asText)
           phase := ← Cbor.field r "phase" Cbor.asText
           kind := ← Cbor.field r "kind" Cbor.asText
           symbol := ← Cbor.field r "symbol" Cbor.asText
           message := ← Cbor.field r "message" Cbor.asText }

/-- The bytes of a request. -/
def Request.encode (r : Request) : List UInt8 := r.toCbor.encode

/-- The bytes of a response. -/
def Response.encode (r : Response) : List UInt8 := r.toCbor.encode

/-! ## Streams of messages -/

/-- The messages at the front of a stream, and what stopped the reading: bytes of a message that is
not complete yet, or bytes that are no message. -/
structure Received (α : Type) where
  messages : List α := []
  unread : List UInt8 := []
  malformed : Bool := false
  deriving Repr

/-- Reads messages from a stream, of which there are at most as many as the fuel says. -/
def receiveUpTo {α : Type} (read : Cbor → Except Cbor.Fault α) :
    (fuel : Nat) → List UInt8 → Received α
  | 0, input => { unread := input }
  | fuel + 1, input =>
    if input.isEmpty then {}
    else match Cbor.decodeFirst limits input with
      | .error .truncated => { unread := input }
      | .error _ => { malformed := true }
      | .ok (item, rest) =>
        match read item with
        | .error _ => { malformed := true }
        | .ok m =>
          let r := receiveUpTo read fuel rest
          { r with messages := m :: r.messages }

/-- Reads the messages of a stream. Every message takes a byte at the least. -/
def receive {α : Type} (read : Cbor → Except Cbor.Fault α) (input : List UInt8) : Received α :=
  receiveUpTo read input.length input

end WasmLisp.Service
