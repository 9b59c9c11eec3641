import WasmLisp.Binary.Cursor
import WasmLisp.Binary.Module

/-!
What a linker needs to know of a binary: its signatures, imports, exports, custom sections and the
types of the globals that it defines. Other sections are skipped.
-/

namespace WasmLisp.Binary

/-- The view of a binary that linking works on. -/
structure Info where
  types : List FuncType := []
  imports : List Import := []
  exports : List Export := []
  customs : List Custom := []
  globals : List GlobalType := []
  deriving DecidableEq, Repr, Inhabited

namespace Decode

def funcType : Decode FuncType := do
  let form ← byte
  if form ≠ 0x60 then fail (.badTypeForm form)
  let params ← take (← u32).toNat
  let results ← take (← u32).toNat
  return { params, results }

def globalType : Decode GlobalType := do
  let valType ← byte
  let flag ← byte
  return { valType, mutable := flag = 1 }

def importDesc : Decode ImportDesc := do
  let kind ← byte
  if kind = kindFunc then return .func (← u32)
  else if kind = kindTable then
    let _ ← byte
    limits
    return .other kind
  else if kind = kindMemory then
    limits
    return .other kind
  else if kind = kindGlobal then return .global (← globalType)
  else fail (.badImportKind kind)

def import' : Decode Import := do
  let module ← name
  let name ← name
  return { module, name, desc := ← importDesc }

/-- Skips a constant initializer: instructions with an immediate up to `end`. -/
def initializer (fuel : Nat) : Decode Unit :=
  match fuel with
  | 0 => fail .truncated
  | fuel + 1 => do
    let op ← byte
    if op = opEnd then return
    else if op = opI64Const || op = 0x41 || op = 0x23 then skipLeb
    else if op = 0x43 then let _ ← take 4
    else if op = 0x44 then let _ ← take 8
    else fail (.badInitializer op)
    initializer fuel

/-- The type of a defined global. The initializer takes a byte an instruction at the least, so the
bytes at hand bound their number. -/
def globalEntry : Decode GlobalType := do
  let type ← globalType
  initializer ((← get).rest.length + 1)
  return type

def export' : Decode Export := do
  let name ← name
  let kind ← byte
  return { name, kind, index := ← u32 }

/-- A custom section: a name, and all bytes after it. -/
def custom : Decode Custom := do
  let name ← name
  return { name, data := (← get).rest }

end Decode

namespace Info

/-- Takes one section into account. A later section of the same kind replaces an earlier one;
custom sections are collected. -/
def addSection (info : Info) (s : RawSection) : Except Fault Info :=
  let within {α : Type} (d : Decode α) (use : α → Info) : Except Fault Info :=
    match d { rest := s.body } with
    | .ok (a, _) => .ok (use a)
    | .error e => .error (.inSection s.id e)
  match s.id.toNat with
  | 0 => within Decode.custom fun c => { info with customs := info.customs ++ [c] }
  | 1 => within (Decode.vec Decode.funcType) fun types => { info with types }
  | 2 => within (Decode.vec Decode.import') fun imports => { info with imports }
  | 6 => within (Decode.vec Decode.globalEntry) fun globals => { info with globals }
  | 7 => within (Decode.vec Decode.export') fun exports => { info with exports }
  | _ => .ok info

/-- Reads a binary. -/
def inspect (bin : List UInt8) : Except Fault Info := do
  let ((), c) ← checkHeader { rest := bin }
  foldSections addSection {} c.rest

/-- The contents of the first custom section of a name. -/
def custom? (info : Info) (name : String) : Option (List UInt8) :=
  (info.customs.find? (·.name == name)).map (·.data)

/-- The signature of a function import. -/
def importType? (info : Info) (i : Import) : Option FuncType :=
  match i.desc with
  | .func typeIdx => info.types[typeIdx.toNat]?
  | _ => none

/-- The exported globals that the binary defines itself. -/
def exportedGlobals (info : Info) : List String :=
  let imported := info.imports.countP (·.isGlobal)
  (info.exports.filter fun e => e.kind == kindGlobal && imported ≤ e.index.toNat).map (·.name)

/-- The exported functions. -/
def exportedFuncs (info : Info) : List String :=
  (info.exports.filter (·.kind == kindFunc)).map (·.name)

end Info

end WasmLisp.Binary
