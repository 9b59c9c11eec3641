import WasmLisp.Artifact
import WasmLisp.Env
import WasmLisp.Machine.Run
import WasmLisp.Metrics
import WasmLisp.Native

/-!
The state of the engine: the instances that run, the tables in which linking finds providers of
symbols, and the outcome of every load. Host functions give code access to foreign functions and
to vars.
-/

namespace WasmLisp

/-- A function that the engine provides to code. -/
inductive HostFn where
  | foreign (symbol : Registry.Foreign)
  /-- Reads the var of a qualified name. -/
  | readVar (qualified : String)
  /-- Binds the var of a qualified name. -/
  | bindVar (qualified : String)
  deriving Inhabited

/-- What host functions act on. -/
structure World where
  env : Env
  around : Surroundings
  deriving Inhabited

namespace HostFn

/-- A qualified name in its parts, cut at the first slash. -/
def partsOf (qualified : String) : String × String :=
  (Symbol.cut? qualified).getD (qualified, "")

/-- The value of a var, or why there is none. -/
def readVarIn (env : Env) (qualified : String) : Except String Int64 :=
  match (env.var? qualified).bind env.cell? with
  | none => .error s!"var {qualified} is not defined"
  | some v =>
    match v.value with
    | none => .error s!"var {qualified} is unbound"
    | some x => .ok x

/-- Binds a var, which is declared if need be. -/
def bindVarIn (env : Env) (qualified : String) (x : Int64) : Env :=
  let (ns, name) := partsOf qualified
  let (env, id) := env.intern ns name .value 0
  env.setValue id x

/-- The behaviour of host functions. -/
def call : Machine.HostCall HostFn World
  | .foreign s, args, w =>
    match s.fn with
    | none => (w, .error s!"foreign {s.name}: no implementation")
    | some f =>
      let (around, r) := f w.around args
      ({ w with around }, match r with
        | .ok v => .ok [v]
        | .error e => .error s!"foreign {s.name}: {e}")
  | .readVar q, _, w => (w, (readVarIn w.env q).map ([·]))
  | .bindVar q, args, w => ({ w with env := bindVarIn w.env q (args.headD 0) }, .ok [])

end HostFn

/-- Where the loading of a module stands. -/
inductive LoadState where
  | unloaded
  | loading
  | loaded
  | failed
  deriving DecidableEq, Repr, Inhabited

namespace LoadState

def name : LoadState → String
  | .unloaded => "unloaded"
  | .loading => "loading"
  | .loaded => "loaded"
  | .failed => "failed"

def all : List LoadState := [.unloaded, .loading, .loaded, .failed]

/-- The name of the state with a code. -/
def nameOfCode (code : Nat) : String := ((all[code]?).map name).getD "unknown"

end LoadState

/-- The entry function of a loaded module. -/
structure EntryPoint where
  module : String
  symbol : String
  /-- The value that the entry gave when the module was loaded. -/
  result : Int64
  /-- The addresses of the registered symbols that the module is linked to. -/
  bindings : Table Registry.Address
  /-- The function in the store. -/
  function : Nat
  deriving Inhabited

/-- What loading a module gave, once it has ended. -/
inductive Outcome where
  | pending
  | ok (entry : EntryPoint)
  | error (failure : Failure)
  deriving Inhabited

namespace Outcome

/-- The outcome of a load. One that crashed has none, as if it went on. -/
def ofResult : Result EntryPoint → Outcome
  | .ok entry => .ok entry
  | .error failure => if failure.isCrash then .pending else .error failure

/-- The result of a load that has ended. -/
def result? : Outcome → Option (Result EntryPoint)
  | .pending => none
  | .ok entry => some (.ok entry)
  | .error failure => some (.error failure)

def state : Outcome → LoadState
  | .pending => .loading
  | .ok _ => .loaded
  | .error _ => .failed

end Outcome

/-- What became of a module name. -/
structure LoadRecord where
  module : String
  entrySymbol : String
  hash : String
  outcome : Outcome
  deriving Inhabited

def LoadRecord.state (r : LoadRecord) : LoadState := r.outcome.state

/-- The module that defines a function, and the arity it declares. -/
structure Provider where
  module : String
  arity : Int
  deriving DecidableEq, Repr, Inhabited

/-- The engine. -/
structure Engine where
  registry : Registry := {}
  /-- Where symbols are looked up that nothing provides. -/
  catalog : Option Catalog := none
  /-- The environment of running code. -/
  env : Env := .initial
  store : Machine.Store HostFn := {}
  around : Surroundings := {}
  modules : Table LoadRecord := []
  /-- The modules that define functions, globals and registered symbols. -/
  funcs : Table Provider := []
  globals : Table String := []
  symbols : Table String := []
  /-- How many records of the registry have instances, and in how many generations. -/
  materialized : Nat := 0
  generation : Nat := 0
  closed : Bool := false
  metrics : Metrics := .start
    ["jitlink_engine_link_duration_seconds", "jitlink_engine_modules",
     "jitlink_engine_symbol_generations_total"]
  deriving Inhabited

namespace Engine

/-- The origin of symbols that a module defines. -/
def moduleOrigin (name : String) : String := "module " ++ name

/-- How a call of a function ended. -/
inductive CallEnd where
  | values (vs : List Int64)
  | failed (reason : Failure)
  deriving Inhabited

/-- Calls a function of the store. The number of arguments has to be the declared one. -/
def invoke (e : Engine) (function : Nat) (args : List Int64) : Engine × CallEnd :=
  let arity := ((e.store.funcs[function]?).map (·.type.params.length)).getD 0
  if arity ≠ args.length then
    (e, .failed (.plain s!"expected {arity} params, but passed {args.length}"))
  else
    let after (store : Machine.Store HostFn) (w : World) : Engine :=
      { e with store, env := w.env, around := w.around }
    match Machine.invoke HostFn.call e.store { env := e.env, around := e.around } function args with
    | .done vs store w => (after store w, .values vs)
    | .trap cause active store w =>
      (after store w, .failed (.plain (cause.message (store.trace active))))
    | .outOfFuel store w => (after store w, .failed (.plain "no end"))

/-- Calls a function for its first result. -/
def invokeForValue (e : Engine) (function : Nat) (args : List Int64) : Engine × Result Int64 :=
  match e.invoke function args with
  | (e, .failed reason) => (e, .error reason)
  | (e, .values (v :: _)) => (e, .ok v)
  | (e, .values []) => (e, .error (.crash "no result"))

/-- The function that a live module exports under a name. -/
def exportedFunction? (e : Engine) (module name : String) : Option Nat :=
  match e.store.export? module name with
  | some (.func a) => some a
  | _ => none

end Engine

end WasmLisp
