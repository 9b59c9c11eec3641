import WasmLisp.Binary.Redirect
import WasmLisp.Engine.Basic

/-!
Linking: every import of an artifact is bound to a provider, and the module names of the imports
are changed to those of the providers' instances. A symbol of `env` is looked for in the registry,
then among the definitions of loaded modules, then in the catalog of native libraries, from where it
enters the registry. Vars are bound through host functions made for the artifact.
-/

namespace WasmLisp

namespace Engine

open Artifact (envModule varModule varDefModule)

/-! ## Registered symbols -/

def i64s (n : Nat) : List UInt8 := List.replicate n Binary.i64

/-- Makes instances of the records that were registered since the last time: one of functions and
one of data. Once made they never change. -/
def materialize (e : Engine) : Engine :=
  match e.registry.since e.materialized with
  | [] => e
  | recs =>
    let generation := e.generation + 1
    let fnModule := s!"#foreign/{generation}"
    let dataModule := s!"#foreign.data/{generation}"
    let fns := recs.filter (·.symbol.kind == .function)
    let data := recs.filter (·.symbol.kind != .function)
    let store := if fns.isEmpty then e.store else
      e.store.addHost fnModule (fns.map fun r =>
        (r.symbol.name, .foreign r.symbol,
          { params := i64s r.symbol.arity.toNat, results := i64s 1 }))
    let store := if data.isEmpty then store else
      store.addGlobals dataModule (data.map fun r => (r.symbol.name, r.symbol.init))
    let provided (module : String) (t : Table String) (r : Registry.Record) : Table String :=
      t.insert r.symbol.name module
    { e with
      store, generation, materialized := e.registry.seq
      symbols := data.foldl (provided dataModule) (fns.foldl (provided fnModule) e.symbols)
      metrics := e.metrics.bump "jitlink_engine_symbol_generations_total" [] }

/-- Refuses globals that have a provider already. -/
def checkGlobals (e : Engine) (module : String) : List String → Result Unit
  | [] => .ok ()
  | g :: rest =>
    match e.registry.resolve? g, e.globals.get? g with
    | some r, _ => .error (.duplicate module g r.origin (moduleOrigin module))
    | none, some owner => .error (.duplicate module g (moduleOrigin owner) (moduleOrigin module))
    | none, none => e.checkGlobals module rest

/-! ## Resolution -/

/-- What resolving the imports of an artifact has found so far. -/
structure Plan where
  /-- The modules that provide imports, by module and name; a later entry counts. -/
  remap : List ((String × String) × String) := []
  bindings : Table Registry.Address := []
  reads : List String := []
  defs : List String := []
  deriving Inhabited

namespace Plan

/-- Has a module provide an import. -/
def provide (p : Plan) (i : Binary.Import) (module : String) : Plan :=
  { p with remap := ((i.module, i.name), module) :: p.remap }

/-- The module that an import comes from in the end. -/
def target (p : Plan) (module name : String) : String := (p.remap.lookup (module, name)).getD module

end Plan

/-- What an import of `env` wants: a kind of symbol, and an arity if that is a function. -/
structure Want where
  kind : Registry.SymbolKind
  arity : Nat
  deriving DecidableEq, Repr

/-- What an import wants; `none` if its signature is missing. -/
def want? (info : Binary.Info) (i : Binary.Import) : Option Want :=
  match i.desc with
  | .func _ => (info.importType? i).map fun t => { kind := .function, arity := t.params.length }
  | _ => some { kind := .data, arity := 0 }

/-- Looks for a registered symbol; `none` if the name is not registered. -/
def fromRegistry (e : Engine) (module : String) (i : Binary.Import) (w : Want) (p : Plan) :
    Option (Result Plan) := do
  let r ← e.registry.resolve? i.name
  let refuse (detail : String) : Result Plan := .error (.unresolved module i.name detail)
  return if r.symbol.kind ≠ w.kind then
      refuse s!"registered as {r.symbol.kind.name}, imported as {w.kind.name}"
    else if w.kind = .function && r.symbol.arity ≠ (w.arity : Int) then
      refuse s!"registered with arity {r.symbol.arity}, called with {w.arity}"
    else match e.symbols.get? i.name with
      | none => refuse "registered but not materialised"
      | some provider =>
        .ok { p.provide i provider with bindings := p.bindings.insert i.name r.address }

/-- Looks for a definition of a loaded module; `none` if there is none. -/
def fromModules (e : Engine) (module : String) (i : Binary.Import) (w : Want) (p : Plan) :
    Option (Result Plan) :=
  if w.kind = .data then (e.globals.get? i.name).map fun owner => .ok (p.provide i owner)
  else (e.funcs.get? i.name).map fun provider =>
    if provider.arity ≠ (w.arity : Int) then
      .error (.unresolved module i.name
        s!"{provider.module} defines it with arity {provider.arity}, called with {w.arity}")
    else .ok (p.provide i provider.module)

/-- Looks for a symbol in the catalog and registers it; `none` if the catalog has none. -/
def fromCatalog (e : Engine) (module : String) (i : Binary.Import) (w : Want) (p : Plan) :
    Option (Engine × Result Plan) := do
  let (symbol, lib) ← (← e.catalog).lookup? i.name
  match e.registry.register symbol (Registry.libraryOrigin lib) with
  | .error failure => some (e, .error failure)
  | .ok (_, registry) =>
    -- from here on the symbol is a registered one, and is held to the same checks
    let e := { e with registry }.materialize
    (e.fromRegistry module i w p).map (e, ·)

/-- Binds an import of `env`. -/
def resolveEnv (e : Engine) (module : String) (info : Binary.Info) (i : Binary.Import) (p : Plan) :
    Engine × Result Plan :=
  match want? info i with
  | none => (e, .error (.unresolved module i.name "import has no valid type"))
  | some w =>
    match (e.fromRegistry module i w p).or (e.fromModules module i w p) with
    | some r => (e, r)
    | none => (e.fromCatalog module i w p).getD
        (e, .error (.unresolved module i.name "no provider"))

/-- Binds an import. -/
def resolveImport (e : Engine) (module : String) (info : Binary.Info) (i : Binary.Import)
    (p : Plan) : Engine × Result Plan :=
  if i.module = envModule then e.resolveEnv module info i p
  else if i.module = varModule then
    (e, .ok { p.provide i (module ++ "#var") with reads := p.reads ++ [i.name] })
  else if i.module = varDefModule then
    (e, .ok { p.provide i (module ++ "#var.def") with defs := p.defs ++ [i.name] })
  else (e, .error (.unresolved module (i.module ++ "." ++ i.name) "unknown import module"))

/-- Binds imports in order up to the first that has no provider. -/
def resolveAll (e : Engine) (module : String) (info : Binary.Info) (p : Plan) :
    List Binary.Import → Engine × Result Plan
  | [] => (e, .ok p)
  | i :: rest =>
    match e.resolveImport module info i p with
    | (e, .error failure) => (e, .error failure)
    | (e, .ok p) => e.resolveAll module info p rest

/-! ## Instances -/

/-- Makes the host functions through which an artifact reads and binds vars. -/
def bindVars (e : Engine) (module : String) (p : Plan) : Engine :=
  let store := if p.reads.isEmpty then e.store else
    e.store.addHost (module ++ "#var") (p.reads.map fun q =>
      (q, .readVar q, { params := [], results := i64s 1 }))
  let store := if p.defs.isEmpty then store else
    store.addHost (module ++ "#var.def") (p.defs.map fun q =>
      (q, .bindVar q, { params := i64s 1, results := [] }))
  { e with store }

/-- What the runtime says if there is a live instance of a name already. -/
def alreadyInstantiated (name : String) : Failure :=
  .plain s!"module[{name}] has already been instantiated"

/-- Why the host functions cannot be made: a load that crashed has left some for the module. -/
def bindersTaken? (e : Engine) (module : String) (p : Plan) : Option Failure :=
  let taken (name : String) (names : List String) : Option Failure :=
    if !names.isEmpty && (e.store.find? name).isSome then some (alreadyInstantiated name) else none
  (taken (module ++ "#var") p.reads).or (taken (module ++ "#var.def") p.defs)

/-- Takes the instances that were made for a module out of reach again. -/
def discard (e : Engine) (known : Nat) : Engine :=
  let added := (List.range e.store.instances.size).drop known
  { e with store := added.foldl Machine.Store.close e.store }

/-- Calls the functions that run when an instance is made: the start function of the module, and
the export `_start`. -/
def runStart (e : Engine) (m : Machine.Module) (name : String) : Engine × Option Failure :=
  let inst := (e.store.find? name).bind fun i => e.store.instances[i]?
  let start := m.start.bind fun i => inst.bind fun x => x.funcs[i]?
  let run (s : Engine × Option Failure) (function : Nat) : Engine × Option Failure :=
    match s with
    | (e, some failure) => (e, some failure)
    | (e, none) =>
      match e.invoke function [] with
      | (e, .values _) => (e, none)
      | (e, .failed failure) => (e, some failure)
  (start.toList ++ (e.exportedFunction? name "_start").toList).foldl run (e, none)

/-- Adds an instance of a binary under a name, which no live instance has. -/
def instantiate (e : Engine) (bin : List UInt8) (name : String) : Engine × Option Failure :=
  match Machine.Module.load? bin with
  | none => (e, some (.plain "invalid module"))
  | some m =>
    match e.store.instantiate? m name with
    | none => (e, some (.plain "import cannot be linked"))
    | some store =>
      if (e.store.find? name).isSome then (e, some (alreadyInstantiated name))
      else { e with store }.runStart m name

/-! ## Initialisation -/

/-- Calls the entry of a new instance, and carries out the effects of its manifest in the frame. Gives
the entry and what it came back with. -/
def initialise (e : Engine) (ns name entry : String) (effects : List Effect) :
    Engine × String × Result (Nat × List Int64) :=
  match e.exportedFunction? name entry with
  | none =>
    (e, ns, .error (.initFailed name entry (some (.plain "entry symbol is not exported"))))
  | some function =>
    -- the entry runs in the namespace of the frame, which its effects may leave afterwards
    let e := { e with env := e.env.ensure ns }
    match e.invoke function [] with
    | (e, .failed failure) => (e, ns, .error (.initFailed name entry (some failure)))
    | (e, .values values) =>
      match ({ env := e.env, ns } : Frame).apply effects with
      | (frame, some fault) =>
        ({ e with env := frame.env }, frame.ns,
          .error (.initFailed name entry (some (.plain fault.message))))
      | (frame, none) => ({ e with env := frame.env }, frame.ns, .ok (function, values))

/-- Records what a loaded module defines. -/
def publish (e : Engine) (name : String) (functions : List (String × Int))
    (globals : List String) : Engine :=
  let funcs := functions.foldl
    (fun t (q, arity) => t.insert q { module := name, arity }) e.funcs
  let owned := globals.foldl (fun t g => t.insert g name) e.globals
  let declare (env : Env) (f : String × Int) : Env :=
    match Symbol.cut? f.1 with
    | some (ns, sym) => (env.intern ns sym .fn f.2).1
    | none => env
  { e with funcs, globals := owned, env := functions.foldl declare e.env }

/-- A failure of an artifact that cannot be used. -/
def corruptArtifact (name detail cause : String) : Failure :=
  .report { phase := .load, kind := .corrupt, module := name, detail } (some (.plain cause))

/-- The manifest of an artifact: the one it comes with, or else that in its bytes. -/
def manifestOf (art : Artifact) (info : Binary.Info) (name : String) : Result Manifest :=
  match art.manifest with
  | some m => .ok m
  | none =>
    match Artifact.ofInfo art.bytes info art.target with
    | .error fault => .error (corruptArtifact name "" fault.message)
    | .ok opened => .ok (opened.manifest.getD default)

/-- What is found out about an artifact before any of its imports is bound. -/
structure Prepared where
  info : Binary.Info
  manifest : Manifest
  entry : String
  deriving Inhabited

/-- Inspects an artifact. -/
def prepare (e : Engine) (art : Artifact) (name : String) : Result Prepared := do
  let info ← match Binary.Info.inspect art.bytes with
    | .ok info => pure info
    | .error fault => throw (corruptArtifact name "inspect artifact" fault.message)
  let manifest ← manifestOf art info name
  e.checkGlobals name info.exportedGlobals
  return { info, manifest, entry := if art.entrySymbol = "" then manifest.entry else art.entrySymbol }

/-- An instance that cannot be made. -/
def notInstantiated (name detail : String) (cause : Failure) : Failure :=
  .report { phase := .load, kind := .invalidInput, module := name, detail } (some cause)

/-- The entry point of a module whose entry came back with some values, of which the first is used. -/
def entryPoint (name : String) (a : Prepared) (p : Plan) (function : Nat) :
    List Int64 → Result EntryPoint
  | [] => .error (.crash "no result")
  | result :: _ => .ok { module := name, symbol := a.entry, result, bindings := p.bindings, function }

/-- Instantiates and initialises a binary whose imports are bound. The instances made for it are
discarded if that fails. An entry that comes back without a value is found out only when all is
published: this is a crash, and the instances stay. -/
def start (e : Engine) (ns name : String) (bin : List UInt8) (p : Plan) (a : Prepared) :
    Engine × String × Result EntryPoint :=
  let known := e.store.instances.size
  match e.bindersTaken? name p with
  | some cause => (e, ns, .error (notInstantiated name "bind vars" cause))
  | none =>
    match (e.bindVars name p).instantiate bin name with
    | (e, some cause) => (e.discard known, ns, .error (notInstantiated name "instantiate" cause))
    | (e, none) =>
      match e.initialise ns name a.entry a.manifest.effects with
      | (e, ns, .error failure) => (e.discard known, ns, .error failure)
      | (e, ns, .ok (function, values)) =>
        (e.publish name a.manifest.functions a.info.exportedGlobals, ns,
          entryPoint name a p function values)

/-- Links and initialises an artifact. The second component is the namespace of the frame after
it. -/
def link (e : Engine) (ns : String) (art : Artifact) (name : String) :
    Engine × String × Result EntryPoint :=
  match e.prepare art name with
  | .error failure => (e, ns, .error failure)
  | .ok a =>
    -- symbols that were registered since the last load get their instances first
    match e.materialize.resolveAll name a.info {} a.info.imports with
    | (e, .error failure) => (e, ns, .error failure)
    | (e, .ok p) =>
      match Binary.redirectImports p.target art.bytes with
      | .error fault => (e, ns, .error (corruptArtifact name "rewrite imports" fault.message))
      | .ok redirected => e.start ns name redirected.bytes p a

end Engine

end WasmLisp
