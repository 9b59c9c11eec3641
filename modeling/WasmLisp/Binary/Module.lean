import WasmLisp.Binary.Leb128

/-!
WebAssembly modules in memory, as far as the language needs them, and their binary encoding.
-/

namespace WasmLisp.Binary

/-- A function signature; value types are their codes in the binary format. -/
structure FuncType where
  params : List UInt8
  results : List UInt8
  deriving DecidableEq, Repr, Inhabited

/-- The code of the 64-bit integer type. -/
def i64 : UInt8 := 0x7e

/-- The code of the 32-bit integer type. -/
def i32 : UInt8 := 0x7f

/-- The signature from and to counts of 64-bit integers. -/
def FuncType.ofCounts (params results : Nat) : FuncType :=
  { params := List.replicate params i64, results := List.replicate results i64 }

/-- A global's value type and whether it can be written. -/
structure GlobalType where
  valType : UInt8 := 0
  mutable : Bool := false
  deriving DecidableEq, Repr, Inhabited

/-- What an import asks for. -/
inductive ImportDesc where
  | func (typeIdx : UInt32)
  | global (type : GlobalType)
  | other (kind : UInt8)
  deriving DecidableEq, Repr, Inhabited

/-- The code of a kind of import or export. -/
def kindFunc : UInt8 := 0

/-- The code of tables as imports or exports. -/
def kindTable : UInt8 := 1

/-- The code of memories as imports or exports. -/
def kindMemory : UInt8 := 2

/-- The code of globals as imports or exports. -/
def kindGlobal : UInt8 := 3

/-- The code of what an import asks for. -/
def ImportDesc.kind : ImportDesc → UInt8
  | .func _ => kindFunc
  | .global _ => kindGlobal
  | .other kind => kind

/-- The index of the signature that an import asks for. -/
def ImportDesc.func? : ImportDesc → Option Nat
  | .func typeIdx => some typeIdx.toNat
  | _ => none

/-- The type of the global that an import asks for. -/
def ImportDesc.global? : ImportDesc → Option GlobalType
  | .global type => some type
  | _ => none

structure Import where
  module : String
  name : String
  desc : ImportDesc
  deriving DecidableEq, Repr, Inhabited

def Import.isFunc (i : Import) : Bool := i.desc.kind == kindFunc

def Import.isGlobal (i : Import) : Bool := i.desc.kind == kindGlobal

/-- A name for a definition in one of the index spaces. -/
structure Export where
  name : String
  kind : UInt8
  index : UInt32
  deriving DecidableEq, Repr, Inhabited

/-- A defined global that starts as a 64-bit constant. -/
structure Global where
  type : GlobalType
  init : Int64
  deriving DecidableEq, Repr, Inhabited

/-- A defined function; its body lacks the final `end`. -/
structure Func where
  typeIdx : UInt32
  locals : List UInt8 := []
  body : List UInt8
  deriving DecidableEq, Repr, Inhabited

structure Custom where
  name : String
  data : List UInt8
  deriving DecidableEq, Repr, Inhabited

structure Module where
  types : List FuncType := []
  imports : List Import := []
  funcs : List Func := []
  globals : List Global := []
  exports : List Export := []
  customs : List Custom := []
  deriving DecidableEq, Repr, Inhabited

namespace Module

/-- The index of a signature, and the module that has it: an equal one is used again. -/
def addType (m : Module) (t : FuncType) : UInt32 × Module :=
  match m.types.findIdx? (· == t) with
  | some i => (UInt32.ofNat i, m)
  | none => (UInt32.ofNat m.types.length, { m with types := m.types ++ [t] })

/-- The count of imported functions, which come first among the functions. -/
def importedFuncs (m : Module) : Nat := m.imports.countP (·.isFunc)

/-- The count of imported globals, which come first among the globals. -/
def importedGlobals (m : Module) : Nat := m.imports.countP (·.isGlobal)

end Module

/-! ## Encoding -/

/-- A count as the binary format writes it, in 32 bits. -/
def encodeCount (n : Nat) : List UInt8 := uleb (UInt32.ofNat n).toNat

/-- An index. -/
def encodeIndex (n : UInt32) : List UInt8 := uleb n.toNat

/-- A 64-bit constant. -/
def encodeInt64 (v : Int64) : List UInt8 := sleb v.toInt

/-- Bytes after their count. -/
def encodeBlock (bytes : List UInt8) : List UInt8 := encodeCount bytes.length ++ bytes

/-- A name: the bytes of its text after their count. -/
def encodeName (s : String) : List UInt8 := encodeBlock s.toUTF8.toList

/-- Items after their count. -/
def encodeVec {α : Type} (item : α → List UInt8) (items : List α) : List UInt8 :=
  encodeCount items.length ++ items.flatMap item

/-- A section: its code, then its contents after their size. -/
def encodeSection (id : UInt8) (body : List UInt8) : List UInt8 := id :: encodeBlock body

/-- A section of items, which is left out when there are none. -/
def encodeItems {α : Type} (id : UInt8) (item : α → List UInt8) (items : List α) : List UInt8 :=
  if items.isEmpty then [] else encodeSection id (encodeVec item items)

/-- The magic number and the version that every binary starts with. -/
def header : List UInt8 := [0x00, 0x61, 0x73, 0x6d, 0x01, 0x00, 0x00, 0x00]

def opEnd : UInt8 := 0x0b

def opI64Const : UInt8 := 0x42

def FuncType.encode (t : FuncType) : List UInt8 :=
  0x60 :: (encodeBlock t.params ++ encodeBlock t.results)

def GlobalType.encode (t : GlobalType) : List UInt8 :=
  [t.valType, if t.mutable then 1 else 0]

def ImportDesc.encode : ImportDesc → List UInt8
  | .func typeIdx => kindFunc :: encodeIndex typeIdx
  | .global type => kindGlobal :: type.encode
  | .other kind => [kind]

def Import.encode (i : Import) : List UInt8 :=
  encodeName i.module ++ encodeName i.name ++ i.desc.encode

def Export.encode (e : Export) : List UInt8 :=
  encodeName e.name ++ e.kind :: encodeIndex e.index

def Global.encode (g : Global) : List UInt8 :=
  g.type.encode ++ opI64Const :: (encodeInt64 g.init ++ [opEnd])

/-- Equal neighbours as one run: how many, and of what. -/
def runs : List UInt8 → List (Nat × UInt8)
  | [] => []
  | t :: rest =>
    match runs rest with
    | (n, u) :: more => if t = u then (n + 1, u) :: more else (1, t) :: (n, u) :: more
    | [] => [(1, t)]

/-- The entry of a function in the code section. -/
def Func.encode (f : Func) : List UInt8 :=
  let locals := encodeVec (fun (n, t) => encodeCount n ++ [t]) (runs f.locals)
  encodeBlock (locals ++ f.body ++ [opEnd])

def Custom.encode (c : Custom) : List UInt8 :=
  encodeSection 0 (encodeName c.name ++ c.data)

/-- The binary of a module. -/
def Module.encode (m : Module) : List UInt8 :=
  header
    ++ encodeItems 1 FuncType.encode m.types
    ++ encodeItems 2 Import.encode m.imports
    ++ encodeItems 3 (fun f => encodeIndex f.typeIdx) m.funcs
    ++ encodeItems 6 Global.encode m.globals
    ++ encodeItems 7 Export.encode m.exports
    ++ encodeItems 10 Func.encode m.funcs
    ++ m.customs.flatMap Custom.encode

end WasmLisp.Binary
