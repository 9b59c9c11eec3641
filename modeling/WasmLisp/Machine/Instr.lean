import WasmLisp.Binary.Module

/-!
Instructions of the abstract machine: the integer part of WebAssembly, with structured control.
-/

namespace WasmLisp.Machine

/-- The width of an integer type. -/
inductive Width where
  | w32
  | w64
  deriving DecidableEq, Repr, Inhabited

/-- The code of the integer type of a width. -/
def Width.valType : Width → UInt8
  | .w32 => Binary.i32
  | .w64 => Binary.i64

/-- Comparisons, in the order of their codes. -/
inductive Rel where
  | eq | ne | ltS | ltU | gtS | gtU | leS | leU | geS | geU
  deriving DecidableEq, Repr, Inhabited

def Rel.all : List Rel := [.eq, .ne, .ltS, .ltU, .gtS, .gtU, .leS, .leU, .geS, .geU]

/-- Operations on two integers, in the order of their codes. -/
inductive Bin where
  | add | sub | mul | divS | divU | remS | remU | and | or | xor | shl | shrS | shrU | rotl | rotr
  deriving DecidableEq, Repr, Inhabited

def Bin.all : List Bin :=
  [.add, .sub, .mul, .divS, .divU, .remS, .remU, .and, .or, .xor, .shl, .shrS, .shrU, .rotl, .rotr]

/-- What a block takes and leaves: nothing, one value, or as a signature of the module says. -/
inductive BlockType where
  | empty
  | value (type : UInt8)
  | signature (index : Nat)
  deriving DecidableEq, Repr, Inhabited

/-- An instruction. -/
inductive Instr where
  | unreachable
  | nop
  | block (type : BlockType) (body : List Instr)
  | loop (type : BlockType) (body : List Instr)
  | ifElse (type : BlockType) (thenB elseB : List Instr)
  | br (label : Nat)
  | brIf (label : Nat)
  | ret
  | call (index : Nat)
  | drop
  | select
  | localGet (index : Nat)
  | localSet (index : Nat)
  | localTee (index : Nat)
  | globalGet (index : Nat)
  | globalSet (index : Nat)
  | i32Const (value : UInt32)
  | i64Const (value : Int64)
  | eqz (width : Width)
  | rel (width : Width) (op : Rel)
  | bin (width : Width) (op : Bin)
  | wrap
  | extendS
  | extendU
  deriving Repr, Inhabited

/-! ## Encoding -/

/-- The code of a comparison: those of 32 bits begin at 0x46, those of 64 bits at 0x51. -/
def Rel.code (w : Width) (op : Rel) : UInt8 :=
  let first : Nat := match w with
    | .w32 => 0x46
    | .w64 => 0x51
  UInt8.ofNat (first + Rel.all.idxOf op)

/-- The code of an operation: those of 32 bits begin at 0x6a, those of 64 bits at 0x7c. -/
def Bin.code (w : Width) (op : Bin) : UInt8 :=
  let first : Nat := match w with
    | .w32 => 0x6a
    | .w64 => 0x7c
  UInt8.ofNat (first + Bin.all.idxOf op)

def BlockType.encode : BlockType → List UInt8
  | .empty => [0x40]
  | .value t => [t]
  | .signature i => Binary.sleb i

mutual

/-- The bytes of an instruction. -/
def Instr.encode : Instr → List UInt8
  | .unreachable => [0x00]
  | .nop => [0x01]
  | .block t body => 0x02 :: (t.encode ++ Instr.encodeAll body ++ [0x0b])
  | .loop t body => 0x03 :: (t.encode ++ Instr.encodeAll body ++ [0x0b])
  | .ifElse t thenB elseB =>
    let tail := if elseB.isEmpty then [] else 0x05 :: Instr.encodeAll elseB
    0x04 :: (t.encode ++ Instr.encodeAll thenB ++ tail ++ [0x0b])
  | .br l => 0x0c :: Binary.encodeCount l
  | .brIf l => 0x0d :: Binary.encodeCount l
  | .ret => [0x0f]
  | .call i => 0x10 :: Binary.encodeCount i
  | .drop => [0x1a]
  | .select => [0x1b]
  | .localGet i => 0x20 :: Binary.encodeCount i
  | .localSet i => 0x21 :: Binary.encodeCount i
  | .localTee i => 0x22 :: Binary.encodeCount i
  | .globalGet i => 0x23 :: Binary.encodeCount i
  | .globalSet i => 0x24 :: Binary.encodeCount i
  | .i32Const v => 0x41 :: Binary.sleb v.toInt32.toInt
  | .i64Const v => 0x42 :: Binary.sleb v.toInt
  | .eqz .w32 => [0x45]
  | .eqz .w64 => [0x50]
  | .rel w op => [op.code w]
  | .bin w op => [op.code w]
  | .wrap => [0xa7]
  | .extendS => [0xac]
  | .extendU => [0xad]

/-- The bytes of a sequence of instructions. -/
def Instr.encodeAll : List Instr → List UInt8
  | [] => []
  | i :: rest => i.encode ++ Instr.encodeAll rest

end

end WasmLisp.Machine
