import WasmLisp.Effect
import WasmLisp.Failure
import WasmLisp.Form
import WasmLisp.Table

/-!
The symbolic environment: namespaces, the vars interned in them, aliases and referred names. Vars
have an identity of their own, so that a name can be interned anew after its var was dropped; the
environment keeps them as numbered cells.

Compiling only declares vars, so that later forms resolve; executing also stores their values.
-/

namespace WasmLisp

/-- What a var holds. -/
inductive VarKind where
  | value
  | fn
  deriving DecidableEq, Repr, Inhabited

/-- A named binding. -/
structure Var where
  ns : String
  name : String
  kind : VarKind
  arity : Int := 0
  /-- The value, once there is one. -/
  value : Option Int64 := none
  deriving DecidableEq, Repr, Inhabited

/-- The name that tells the var from all others. -/
def Var.qualified (v : Var) : String := Symbol.qualify v.ns v.name

/-- Names of a namespace: vars by the numbers of their cells, aliases of namespaces, and bare names
that stand for a var of another namespace. -/
structure Namespace where
  vars : Table Nat := []
  aliases : Table String := []
  refers : Table String := []
  deriving DecidableEq, Repr, Inhabited

/-- Namespaces, and the cells of all vars that ever were. -/
structure Env where
  namespaces : Table Namespace := []
  cells : Array Var := #[]
  deriving DecidableEq, Repr, Inhabited

namespace Env

/-- The namespace whose vars are visible everywhere. -/
def coreNs : String := "core"

/-- The namespace that work starts in. -/
def defaultNs : String := "user"

/-- The namespace of a name. -/
def find? (e : Env) (name : String) : Option Namespace := e.namespaces.get? name

/-- Makes sure that a namespace exists. -/
def ensure (e : Env) (name : String) : Env :=
  if e.namespaces.contains name then e
  else { e with namespaces := e.namespaces.insert name {} }

/-- Changes a namespace, which is made if need be. -/
def update (e : Env) (name : String) (f : Namespace → Namespace) : Env :=
  { e with namespaces := e.namespaces.insert name (f ((e.find? name).getD {})) }

/-- The environment that everything starts from. -/
def initial : Env := (({} : Env).ensure coreNs).ensure defaultNs

/-- The names of the namespaces in order. -/
def names (e : Env) : List String := e.namespaces.keys

/-- The var in a cell. -/
def cell? (e : Env) (id : Nat) : Option Var := e.cells[id]?

/-- Changes the var in a cell. -/
def modifyCell (e : Env) (id : Nat) (f : Var → Var) : Env :=
  { e with cells := e.cells.modify id f }

/-- The cell of a name in a namespace. -/
def lookup? (e : Env) (ns name : String) : Option Nat := do
  (← e.find? ns).vars.get? name

/-- Declares a var and returns its cell. A var that exists keeps its value. -/
def intern (e : Env) (ns name : String) (kind : VarKind) (arity : Int) : Env × Nat :=
  match e.lookup? ns name with
  | some id => (e.modifyCell id fun v => { v with kind, arity }, id)
  | none =>
    let id := e.cells.size
    let e := e.update ns fun n => { n with vars := n.vars.insert name id }
    ({ e with cells := e.cells.push { ns, name, kind, arity } }, id)

/-- The cell of a qualified name, which is cut at its first slash. -/
def var? (e : Env) (qualified : String) : Option Nat := do
  let (ns, name) ← Symbol.cut? qualified
  e.lookup? ns name

/-- Stores a value in a cell. -/
def setValue (e : Env) (id : Nat) (value : Int64) : Env :=
  e.modifyCell id fun v => { v with value := some value }

/-- Looks up a bare name: in the namespace itself, among the names it refers to, in the core. -/
def resolveBare? (e : Env) (current : String) (n : Namespace) (name : String) : Option Nat :=
  let referred := do
    let source ← n.refers.get? name
    e.lookup? source name
  let core := if current = coreNs then none else e.lookup? coreNs name
  (n.vars.get? name).or (referred.or core)

/-- Looks up a symbol as a namespace sees it. A qualified one goes through the aliases first. -/
def resolve? (e : Env) (current : String) (text : String) : Option Nat := do
  let n ← e.find? current
  let sym := Symbol.ofText text
  if sym.ns = "" then e.resolveBare? current n text
  else e.lookup? ((n.aliases.get? sym.ns).getD sym.ns) sym.name

/-- Why an effect was refused. -/
inductive Fault where
  | aliasTaken (nickname existing ns : String)
  | unknownEffect (code : UInt8)
  deriving DecidableEq, Repr

def Fault.message : Fault → String
  | .aliasTaken nickname existing ns =>
    s!"alias {nickname} already refers to {existing} in namespace {ns}"
  | .unknownEffect code => s!"unknown effect kind {code.toNat}"

/-- Makes an alias of a namespace. An alias of another namespace is not given up. The second
component says whether it was refused. -/
def addAlias (e : Env) (ns nickname target : String) : Env × Option Fault :=
  match (e.find? ns).bind (·.aliases.get? nickname) with
  | some existing =>
    if existing = target then (e, none) else (e, some (.aliasTaken nickname existing ns))
  | none =>
    (e.update ns fun n => { n with aliases := n.aliases.insert nickname target }, none)

/-- Makes a name of another namespace resolvable as it is. -/
def addRefer (e : Env) (ns name source : String) : Env :=
  e.update ns fun n => { n with refers := n.refers.insert name source }

/-! ## Snapshots -/

/-- The declarations of an environment: everything but the values. -/
structure Snapshot where
  namespaces : Table Namespace
  declared : Array (VarKind × Int)
  deriving Repr, Inhabited

/-- The declarations as they are now. -/
def snapshot (e : Env) : Snapshot :=
  { namespaces := e.namespaces, declared := e.cells.map fun v => (v.kind, v.arity) }

/-- The cells that the namespaces of a snapshot use. -/
def Snapshot.used (s : Snapshot) : List Nat :=
  s.namespaces.flatMap fun (_, n) => n.vars.map (·.2)

/-- Takes the declarations back to a snapshot. Vars that were there keep their cells and values. -/
def restore (e : Env) (s : Snapshot) : Env :=
  let redeclare (e : Env) (id : Nat) : Env :=
    match s.declared[id]? with
    | some (kind, arity) => e.modifyCell id fun v => { v with kind, arity }
    | none => e
  s.used.foldl redeclare { e with namespaces := s.namespaces }

end Env

/-- An environment seen from its current namespace. -/
structure Frame where
  env : Env
  ns : String
  deriving Repr, Inhabited

namespace Frame

/-- Enters a namespace, which is made if need be. -/
def enter (e : Env) (ns : String) : Frame := { env := e.ensure ns, ns }

/-- What is reported where a frame is needed and there is none. -/
def notBound : String := "environment frame is not bound"

/-- Carries out one effect, unless it is refused. -/
def applyOne (f : Frame) (e : Effect) : Frame × Option Env.Fault :=
  if e.kind = .switchNs then (enter f.env e.ns, none)
  else if e.kind = .require then ({ f with env := f.env.ensure e.ns }, none)
  else if e.kind = .nickname then
    let (env, fault) := ((f.env.ensure e.target).ensure e.ns).addAlias e.ns e.name e.target
    ({ f with env }, fault)
  else if e.kind = .refer then ({ f with env := f.env.addRefer e.ns e.name e.target }, none)
  else (f, some (.unknownEffect e.kind.code))

/-- Carries out effects in order up to the first that is refused; those before it stay done. -/
def apply (f : Frame) : List Effect → Frame × Option Env.Fault
  | [] => (f, none)
  | e :: rest =>
    match f.applyOne e with
    | (f, none) => f.apply rest
    | (f, some fault) => (f, some fault)

end Frame

end WasmLisp
