import WasmLisp.Machine.Validate

/-!
The store of the abstract machine: functions and globals by address, and the instances of modules
that refer to them. Globals and functions are shared between instances by their addresses.
-/

namespace WasmLisp.Machine

/-- The signature of a function as a trace shows it. -/
def showSignature (t : Binary.FuncType) : String :=
  let name (v : UInt8) : String :=
    match v.toNat with
    | 0x7f => "i32"
    | 0x7e => "i64"
    | 0x7d => "f32"
    | 0x7c => "f64"
    | _ => "unknown"
  let params := "(" ++ ",".intercalate (t.params.map name) ++ ")"
  match t.results with
  | [] => params
  | [r] => params ++ " " ++ name r
  | rs => params ++ " (" ++ ",".intercalate (rs.map name) ++ ")"

/-- A function that can be called: code of an instance, or one of the host. -/
inductive Callee (η : Type) where
  | code (inst : Nat) (index : Nat) (type : Binary.FuncType) (locals : Nat) (body : List Instr)
  | host (handle : η) (label : String) (type : Binary.FuncType)
  deriving Inhabited

namespace Callee

variable {η : Type}

def type : Callee η → Binary.FuncType
  | .code _ _ t _ _ => t
  | .host _ _ t => t

/-- The function as a trace shows it. -/
def site : Callee η → String
  | .code _ index t _ _ => s!".${index}" ++ showSignature t
  | .host _ label t => label ++ showSignature t

end Callee

/-- A global's type and current value. -/
structure Cell where
  type : Binary.GlobalType
  value : Int64
  deriving DecidableEq, Repr, Inhabited

/-- Something that an instance exports, by its address. -/
inductive Extern where
  | func (address : Nat)
  | global (address : Nat)
  deriving DecidableEq, Repr, Inhabited

/-- The address of a function. -/
def Extern.func? : Extern → Option Nat
  | .func a => some a
  | .global _ => none

/-- The address of a global. -/
def Extern.global? : Extern → Option Nat
  | .global a => some a
  | .func _ => none

/-- An instance of a module: the addresses behind its indices, and its exports. -/
structure Instance where
  name : String
  types : List Binary.FuncType := []
  funcs : Array Nat := #[]
  globals : Array Nat := #[]
  exports : List (String × Extern) := []
  /-- Whether other modules can still be linked to it. -/
  live : Bool := true
  deriving Repr, Inhabited

/-- All functions, globals and instances. Addresses are places in the arrays. -/
structure Store (η : Type) where
  funcs : Array (Callee η) := #[]
  globals : Array Cell := #[]
  instances : Array Instance := #[]
  deriving Inhabited

namespace Store

variable {η : Type}

/-- The number of the live instance of a name. -/
def find? (s : Store η) (name : String) : Option Nat :=
  s.instances.findIdx? fun i => i.live && i.name == name

/-- What a live instance exports under a name. -/
def export? (s : Store η) (module name : String) : Option Extern := do
  let i ← s.find? module
  let inst ← s.instances[i]?
  inst.exports.lookup name

/-- Takes an instance out of reach of later modules. -/
def close (s : Store η) (i : Nat) : Store η :=
  { s with instances := s.instances.modify i fun inst => { inst with live := false } }

/-- Takes all instances out of reach. -/
def closeAll (s : Store η) : Store η :=
  { s with instances := s.instances.map fun inst => { inst with live := false } }

/-- Adds an instance of host functions. A later function of a name replaces an earlier one. -/
def addHost (s : Store η) (name : String) (fns : List (String × η × Binary.FuncType)) :
    Store η :=
  let first := s.funcs.size
  let callees := fns.map fun (field, handle, t) => Callee.host handle (name ++ "." ++ field) t
  let exports := fns.zipIdx.map fun ((field, _), i) => (field, Extern.func (first + i))
  { s with
    funcs := s.funcs ++ callees.toArray
    instances := s.instances.push { name, exports := exports.reverse } }

/-- Adds an instance of globals that can be written. -/
def addGlobals (s : Store η) (name : String) (data : List (String × Int64)) : Store η :=
  let first := s.globals.size
  let type : Binary.GlobalType := { valType := Binary.i64, mutable := true }
  { s with
    globals := s.globals ++ (data.map fun (_, v) => { type, value := v }).toArray
    instances := s.instances.push
      { name, exports := data.zipIdx.map fun ((field, _), i) => (field, .global (first + i)) } }

/-- What an import is linked to: something that exists, is of its kind and has its type. -/
def linkImport? (s : Store η) (m : Module) (i : Binary.Import) : Option Extern := do
  let ext ← s.export? i.module i.name
  match i.desc, ext with
  | .func t, .func a =>
    if (s.funcs[a]?).map Callee.type = m.types[t.toNat]? then some ext else none
  | .global t, .global a => if (s.globals[a]?).map Cell.type = some t then some ext else none
  | _, _ => none

/-- The value of an initializer, given the addresses of the imported globals. -/
def initValue (s : Store η) (imported : List Nat) : ConstExpr → Int64
  | .i32 v => v.toUInt64.toInt64
  | .i64 v => v
  | .float _ bits => bits.toInt64
  | .global i =>
    match imported[i]?.bind fun (a : Nat) => s.globals[a]? with
    | some c => c.value
    | none => 0

/-- Adds an instance of a valid module; `none` if an import cannot be linked. -/
def instantiate? (s : Store η) (m : Module) (name : String) : Option (Store η) := do
  let linked ← m.imports.mapM (s.linkImport? m)
  let inst := s.instances.size
  let importedFuncs := linked.filterMap Extern.func?
  let importedGlobals := linked.filterMap Extern.global?
  let callees := (m.funcTypes.zip m.code).zipIdx.map fun ((t, locals, body), i) =>
    Callee.code inst (importedFuncs.length + i)
      ((m.types[t]?).getD { params := [], results := [] }) locals.length body
  let funcs := importedFuncs ++ (List.range callees.length).map (s.funcs.size + ·)
  let cells := m.globals.map fun g => { type := g.type, value := s.initValue importedGlobals g.init }
  let globals := importedGlobals ++ (List.range cells.length).map (s.globals.size + ·)
  let exports := m.exports.filterMap fun e =>
    if e.kind = Binary.kindFunc then (funcs[e.index.toNat]?).map fun a => (e.name, .func a)
    else (globals[e.index.toNat]?).map fun a => (e.name, .global a)
  return { funcs := s.funcs ++ callees.toArray
           globals := s.globals ++ cells.toArray
           instances := s.instances.push
             { name, types := m.types, funcs := funcs.toArray, globals := globals.toArray
               exports } }

/-- The value of a global. -/
def globalValue (s : Store η) (a : Nat) : Int64 :=
  match s.globals[a]? with
  | some c => c.value
  | none => 0

/-- Writes a global. -/
def setGlobal (s : Store η) (a : Nat) (v : Int64) : Store η :=
  { s with globals := s.globals.modify a fun c => { c with value := v } }

end Store

end WasmLisp.Machine
