import WasmLisp.Engine.Link

/-!
The engine: it loads artifacts under module names, each name once, and calls what they define.
-/

namespace WasmLisp

namespace Engine

/-- The result of a load of a name that has ended, counted as used again. -/
def known? (e : Engine) (name : String) : Option (Engine × Result EntryPoint) := do
  let r ← e.modules.get? name
  let result ← r.outcome.result?
  return ({ e with metrics := e.metrics.bump "jitlink_engine_loads_total" [("result", "reused")] },
    result)

/-- The record of an artifact that is loaded under a name. -/
def recordOf (art : Artifact) (name : String) (outcome : Outcome) : LoadRecord :=
  { module := name, entrySymbol := art.entrySymbol, hash := art.hash, outcome }

/-- Records that an artifact is being loaded under a name. -/
def begin (e : Engine) (art : Artifact) (name : String) : Engine :=
  { e with modules := e.modules.insert name (recordOf art name .pending) }

/-- Records what loading an artifact under a name gave. A load that crashed is not counted. -/
def finish (e : Engine) (art : Artifact) (name : String) (result : Result EntryPoint) : Engine :=
  let outcome := Outcome.ofResult result
  let timed := e.metrics.bump "jitlink_engine_link_duration_seconds" []
  let metrics := match outcome with
    | .pending => e.metrics
    | .ok _ => (timed.bump "jitlink_engine_loads_total" [("result", "loaded")]).bump
        "jitlink_engine_modules" []
    | .error _ => timed.bump "jitlink_engine_loads_total" [("result", "failed")]
  { e with modules := e.modules.insert name (recordOf art name outcome), metrics }

/-- Links an artifact under a name of which no load has ended. -/
def loadNew (e : Engine) (ns : String) (art : Artifact) (name : String) :
    Engine × String × Result EntryPoint :=
  let (e, ns, result) := (e.begin art name).link ns art name
  (e.finish art name result, ns, result)

/-- Why nothing can be loaded under a name, whatever the artifact is. -/
def refusal? (e : Engine) (art : Option Artifact) (name : String) : Option Failure :=
  let refuse (detail : String) := some (Failure.invalidInput .load detail)
  if e.closed then refuse "engine is closed"
  else if name = "" || name.toList.contains '#' then
    refuse s!"invalid module name {Text.quoted name}"
  else if art.isNone then refuse s!"module {name}: no artifact"
  else none

/-- Loads an artifact under a name, in a frame of which the namespace is given and returned. A name
that was loaded before keeps its result, whatever the artifact is now. -/
def load (e : Engine) (ns : String) (art : Option Artifact) (name : String) :
    Engine × String × Result EntryPoint :=
  match e.refusal? art name, art with
  | some failure, _ => (e, ns, .error failure)
  | none, none => (e, ns, .error (.invalidInput .load s!"module {name}: no artifact"))
  | none, some art =>
    match e.known? name with
    | some (e, result) => (e, ns, result)
    | none => e.loadNew ns art name

/-- Where the loading of a name stands. -/
def stateOf (e : Engine) (name : String) : LoadState :=
  ((e.modules.get? name).map LoadRecord.state).getD .unloaded

/-- Calls the entry of a loaded module again. -/
def rerun (e : Engine) (p : EntryPoint) : Engine × Result Int64 :=
  let (e, r) := e.invokeForValue p.function []
  (e, r.mapError fun failure =>
    if failure.isCrash then failure
    else .initFailed p.module p.symbol (some failure))

/-- Registers a foreign symbol, unless a loaded module defines a global of its name. -/
def registerForeign (e : Engine) (s : Registry.Foreign) (origin : String) :
    Engine × Result Registry.Record :=
  match e.globals.get? s.name with
  | some owner => (e, .error (.duplicate owner s.name (moduleOrigin owner) origin))
  | none =>
    match e.registry.register s origin with
    | .ok (r, registry) => ({ e with registry }, .ok r)
    | .error failure => (e, .error failure)

/-- Calls a function that a loaded module defines. -/
def call (e : Engine) (qualified : String) (args : List Int64) : Engine × Result Int64 :=
  match e.funcs.get? qualified with
  | none =>
    (e, .error (.ofReport
      { phase := .load, kind := .notFound, symbol := qualified
        detail := "no loaded artifact defines it" }))
  | some provider =>
    if (args.length : Int) ≠ provider.arity then
      (e, .error (.invalidInput .load
        s!"{qualified} takes {provider.arity} arguments, got {args.length}"))
    else if (e.store.find? provider.module).isNone then
      (e, .error (.ofReport { phase := .load, kind := .notFound, module := provider.module }))
    else match e.exportedFunction? provider.module qualified with
      | none => (e, .error (.crash "no such function"))
      | some function =>
        let (e, r) := e.invokeForValue function args
        (e, r.mapError fun failure =>
          if failure.isCrash then failure else .labelled s!"call {qualified}" failure)

/-- The value of a data symbol, whether it is registered or defined by a loaded module. -/
def global? (e : Engine) (name : String) : Option Int64 := do
  let module ← (e.symbols.get? name).or (e.globals.get? name)
  match e.store.export? module name with
  | some (.global a) => some (e.store.globalValue a)
  | _ => none

/-- Closes the engine: its instances are gone, and it loads nothing any more. -/
def close (e : Engine) : Engine := { e with closed := true, store := e.store.closeAll }

/-- Lets time pass. -/
def advance (e : Engine) (ms : Int) : Engine :=
  { e with around := { e.around with now := e.around.now + ms } }

/-- Takes the text that was printed since the last time. -/
def takeOutput (e : Engine) : Engine × String :=
  ({ e with around := { e.around with printed := "" } }, e.around.printed)

end Engine

end WasmLisp
