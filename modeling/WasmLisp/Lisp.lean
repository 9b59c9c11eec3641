import WasmLisp.Config
import WasmLisp.Engine
import WasmLisp.Session

/-!
A running Lisp: everything that a configuration asks for, put together. It compiles for the targets of
the configuration and for the running machine, and runs what is compiled for the latter.
-/

namespace WasmLisp

/-- A compiler with its cache, and an engine. -/
structure Lisp where
  config : Config
  preamble : Preamble
  compiler : Compiler
  engine : Engine
  deriving Inhabited

namespace Lisp

/-- Registers native libraries by name. -/
def registerLibraries (catalog : Catalog) (r : Registry) : List String → Result Registry
  | [] => .ok r
  | name :: rest =>
    match catalog.library? name with
    | none =>
      let known := " ".intercalate catalog.names
      .error (.plain s!"registry: unknown library {Text.quoted name} (have [{known}])")
    | some lib =>
      match r.registerLibrary lib with
      | (_, some failure) => .error failure
      | (r, none) => registerLibraries catalog r rest

/-- The preamble that a configuration asks for: the standard one, or a file. -/
def preambleOf (config : Config) (files : FileTree) : Result Preamble :=
  if config.preamble = "" then .ok .standard
  else match files.read (Path.join [config.preamble]) with
    | .ok bytes => .ok ⟨Text.ofBytes bytes⟩
    | .error .absent =>
      .error (.plain s!"preamble: open {config.preamble}: no such file or directory")
    | .error .unreadable => .error (.plain s!"preamble: read {config.preamble}: is a directory")

/-- Adds backends for targets, one for each. -/
def addBackends (preamble : Preamble) (depth : Int) (c : Compiler) :
    List NamedTarget → Result Compiler
  | [] =>
    .ok (if (c.backend? .host).isSome then c else c.addBackend (.host preamble depth))
  | t :: rest =>
    if (c.backend? t.spec).isSome then addBackends preamble depth c rest
    else match Backend.ofTarget t.spec preamble depth with
      | .ok b => addBackends preamble depth (c.addBackend b) rest
      | .error e => .error (.labelled s!"target {t.name}" e)

/-- Puts a Lisp together over files, at a time. -/
def new (config : Config) (files : FileTree) (now : Instant) : Result Lisp := do
  let config ← config.validate.mapError fun fault => .plain fault.message
  let catalog := Catalog.standard
  let registry ← registerLibraries catalog {} config.libraries
  let cache ← Cache.openIn config.cacheDir files now
  let preamble ← preambleOf config cache.files
  let _ ← preamble.load
  let compiler ← addBackends preamble config.maxDepth { cache := some cache } config.targets
  let engine : Engine := { registry, catalog := some catalog, around := { now := now.ms } }
  return { config, preamble, compiler, engine }

/-- The target of a name; without a name it is the running machine. -/
def target (s : Lisp) (name : String) : Result Target :=
  if name = "" then .ok .host
  else match s.config.target? name with
    | some t => .ok t.spec
    | none => .error (.plain s!"unknown target {Text.quoted name}")

/-- Changes the cache. -/
def withCache (s : Lisp) (change : Cache → Cache) : Lisp :=
  { s with compiler := { s.compiler with cache := s.compiler.cache.map change } }

/-- The cache, which there always is. -/
def cache (s : Lisp) : Cache := s.compiler.cache.getD default

/-- Lets time pass. -/
def advance (s : Lisp) (ms : Int) : Lisp :=
  { s.withCache fun c => { c with clock := ⟨c.clock.ms + ms⟩ } with engine := s.engine.advance ms }

/-- All counts. -/
def metrics (s : Lisp) : Metrics := s.compiler.allMetrics.union s.engine.metrics

/-- The Lisp closed and put together anew over its files. -/
def restart (s : Lisp) : Result Lisp := new s.config s.cache.files s.cache.clock

end Lisp

/-- One user of a Lisp: a session on the compile side, a frame on the other. -/
structure Evaluator where
  session : Session
  /-- The namespace of the frame. -/
  ns : String
  evals : Nat := 0
  deriving Inhabited

namespace Evaluator

/-- What the names of its modules start with. -/
def modulePrefix : String := "eval"

/-- A user for a target, which has to be the running machine. -/
def new (s : Lisp) (target : Target) : Result Evaluator := do
  if !target.isLocal then
    throw (.invalidInput .load s!"target {target.describe} cannot execute on this host")
  return { session := ← Session.new (some s.preamble) target, ns := Env.defaultNs }

/-- Loads modules in order up to the first that fails. -/
def loadAll (e : Engine) (ns : String) : List Compiled → Engine × String × Result Unit
  | [] => (e, ns, .ok ())
  | c :: rest =>
    match e.load ns (some c.artifact) c.module with
    | (e, ns, .error failure) => (e, ns, .error failure)
    | (e, ns, .ok _) => loadAll e ns rest

/-- Compiles a source as one module, runs it, and returns the value of its last form. -/
def eval (v : Evaluator) (s : Lisp) (src : String) : Evaluator × Lisp × Result Int64 :=
  let v := { v with evals := v.evals + 1, session := v.session.switchTo v.ns }
  let (session, compiler, r) := v.session.compile s.compiler s!"{modulePrefix}${v.evals}" src
  let v := { v with session }
  let s := { s with compiler }
  match r with
  | .error failure => (v, s, .error failure)
  | .ok c =>
    let (engine, ns, r) := s.engine.load v.ns (some c.artifact) c.module
    ({ v with ns }, { s with engine }, r.map (·.result))

/-- Compiles each form of a source as a module, except definitions that are current, and runs the
modules. Returns the names left out. -/
def require (v : Evaluator) (s : Lisp) (src : String) :
    Evaluator × Lisp × Result (List String) :=
  let v := { v with session := v.session.switchTo v.ns }
  let (session, compiler, r) := v.session.require s.compiler modulePrefix src
  let v := { v with session }
  let s := { s with compiler }
  match r with
  | .error failure => (v, s, .error failure)
  | .ok q =>
    let (engine, ns, r) := loadAll s.engine v.ns q.modules
    ({ v with ns }, { s with engine }, r.map fun _ => q.skipped)

end Evaluator

end WasmLisp
