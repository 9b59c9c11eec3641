import WasmLisp.Binary.Module

/-!
Streams of operations, the way a function body is written down: one after the other, with an
opening `if` and its `else` and `end` as operations of their own.
-/

namespace WasmLisp.Binary

/-- An operation with its immediate, or operations given by their codes. -/
inductive Op where
  | raw (codes : List UInt8)
  | i64Const (value : Int64)
  | localGet (index : UInt32)
  | localSet (index : UInt32)
  | localTee (index : UInt32)
  | globalGet (index : UInt32)
  | globalSet (index : UInt32)
  | call (index : UInt32)
  /-- Opens an `if` that leaves one 64-bit integer. -/
  | ifI64
  /-- Another stream in place. -/
  | stream (ops : List Op)
  deriving Repr, Inhabited

mutual

/-- The bytes of an operation. -/
def Op.encode : Op → List UInt8
  | .raw codes => codes
  | .i64Const v => opI64Const :: encodeInt64 v
  | .localGet i => 0x20 :: encodeIndex i
  | .localSet i => 0x21 :: encodeIndex i
  | .localTee i => 0x22 :: encodeIndex i
  | .globalGet i => 0x23 :: encodeIndex i
  | .globalSet i => 0x24 :: encodeIndex i
  | .call i => 0x10 :: encodeIndex i
  | .ifI64 => [0x04, i64]
  | .stream ops => Op.encodeAll ops

/-- The bytes of a stream. -/
def Op.encodeAll : List Op → List UInt8
  | [] => []
  | op :: rest => op.encode ++ Op.encodeAll rest

end

end WasmLisp.Binary
