import WasmLisp.Binary.Info
import WasmLisp.Machine.Instr

/-!
Decoding binaries for execution. Other than the view for linking, this reads function bodies, keeps
strictly to the widths of numbers, and wants every section to be used up exactly.
-/

namespace WasmLisp.Machine

/-- A constant initializer. -/
inductive ConstExpr where
  | i32 (value : UInt32)
  | i64 (value : Int64)
  /-- A floating-point number by its bits. -/
  | float (type : UInt8) (bits : UInt64)
  | global (index : Nat)
  deriving DecidableEq, Repr, Inhabited

structure GlobalDef where
  type : Binary.GlobalType
  init : ConstExpr
  deriving DecidableEq, Repr, Inhabited

structure FuncDef where
  typeIdx : Nat
  locals : List UInt8
  body : List Instr
  deriving Repr, Inhabited

/-- A decoded module. -/
structure Module where
  types : List Binary.FuncType := []
  imports : List Binary.Import := []
  /-- The signatures of the defined functions, and their code. -/
  funcTypes : List Nat := []
  code : List (List UInt8 × List Instr) := []
  globals : List GlobalDef := []
  exports : List Binary.Export := []
  start : Option Nat := none
  deriving Repr, Inhabited

namespace Decode

/-- A reader of bytes that can fail. -/
abbrev Reader (α : Type) := List UInt8 → Option (α × List UInt8)

/-- The bytes of a LEB128 number, at most `most`, and what follows. -/
def lebBytes : (most : Nat) → Reader (List UInt8)
  | 0, _ => none
  | _, [] => none
  | most + 1, b :: rest =>
    if b.toNat < 128 then some ([b], rest)
    else (lebBytes most rest).map fun (bs, rest) => (b :: bs, rest)

/-- An unsigned number of 32 bits. -/
def u32 : Reader Nat := fun input => do
  let (bs, rest) ← lebBytes 5 input
  let v := Binary.ulebValue bs
  if v < 0x100000000 then some (v, rest) else none

/-- A signed number of as many bits. -/
def signed (bits : Nat) : Reader Int := fun input => do
  let (bs, rest) ← lebBytes ((bits + 6) / 7) input
  let v : Int := Int.bmod (Binary.ulebValue bs) (Nat.pow 2 (7 * bs.length))
  let bound : Int := Nat.pow 2 (bits - 1)
  if -bound ≤ v && v < bound then some (v, rest) else none

/-- What ends a sequence of instructions. -/
inductive Ending where
  | end
  | otherwise
  deriving DecidableEq, Repr

def blockType : Reader BlockType := fun input => do
  let (v, rest) ← signed 33 input
  if 0 ≤ v then some (.signature v.toNat, rest)
  else if v = -64 then some (.empty, rest)
  else
    let code := UInt8.ofNat (v + 128).toNat
    if [0x7f, 0x7e, 0x7d, 0x7c].contains code then some (.value code, rest) else none

/-- An instruction that has no others inside it. -/
def plain (op : UInt8) : Reader Instr := fun input =>
  let indexed (make : Nat → Instr) : Option (Instr × List UInt8) := do
    let (i, rest) ← u32 input
    return (make i, rest)
  let n := op.toNat
  match n with
  | 0x00 => some (.unreachable, input)
  | 0x01 => some (.nop, input)
  | 0x0c => indexed .br
  | 0x0d => indexed .brIf
  | 0x0f => some (.ret, input)
  | 0x10 => indexed .call
  | 0x1a => some (.drop, input)
  | 0x1b => some (.select, input)
  | 0x20 => indexed .localGet
  | 0x21 => indexed .localSet
  | 0x22 => indexed .localTee
  | 0x23 => indexed .globalGet
  | 0x24 => indexed .globalSet
  | 0x41 => do
    let (v, rest) ← signed 32 input
    return (.i32Const (UInt32.ofInt v), rest)
  | 0x42 => do
    let (v, rest) ← signed 64 input
    return (.i64Const (Int64.ofInt v), rest)
  | 0x45 => some (.eqz .w32, input)
  | 0x50 => some (.eqz .w64, input)
  | 0xa7 => some (.wrap, input)
  | 0xac => some (.extendS, input)
  | 0xad => some (.extendU, input)
  | _ =>
    if 0x46 ≤ n && n ≤ 0x4f then (Rel.all[n - 0x46]?).map fun op => (.rel .w32 op, input)
    else if 0x51 ≤ n && n ≤ 0x5a then (Rel.all[n - 0x51]?).map fun op => (.rel .w64 op, input)
    else if 0x6a ≤ n && n ≤ 0x78 then (Bin.all[n - 0x6a]?).map fun op => (.bin .w32 op, input)
    else if 0x7c ≤ n && n ≤ 0x8a then (Bin.all[n - 0x7c]?).map fun op => (.bin .w64 op, input)
    else none

/-- Instructions up to the end of their sequence. The fuel bounds their number. -/
def instrs : (fuel : Nat) → Reader (List Instr × Ending)
  | 0, _ => none
  | _, [] => none
  | fuel + 1, op :: input =>
    if op = 0x0b then some (([], .end), input)
    else if op = 0x05 then some (([], .otherwise), input)
    else do
      let (i, rest) ←
        if op = 0x02 || op = 0x03 then do
          let (t, rest) ← blockType input
          let ((body, ending), rest) ← instrs fuel rest
          if ending = .end then
            some (if op = 0x02 then .block t body else .loop t body, rest)
          else none
        else if op = 0x04 then do
          let (t, rest) ← blockType input
          let ((thenB, ending), rest) ← instrs fuel rest
          if ending = .end then some (.ifElse t thenB [], rest)
          else do
            let ((elseB, ending), rest) ← instrs fuel rest
            if ending = .end then some (.ifElse t thenB elseB, rest) else none
        else plain op input
      let ((more, ending), rest) ← instrs fuel rest
      return ((i :: more, ending), rest)

/-- Whether a code is one of a value type. -/
def isValType (t : UInt8) : Bool := [0x7f, 0x7e, 0x7d, 0x7c].contains t

/-- Items, as many as said. -/
def items {α : Type} (item : Reader α) : (n : Nat) → Reader (List α)
  | 0, input => some ([], input)
  | n + 1, input => do
    let (a, rest) ← item input
    let (more, rest) ← items item n rest
    return (a :: more, rest)

/-- Items after their count. -/
def vec {α : Type} (item : Reader α) : Reader (List α) := fun input => do
  let (n, rest) ← u32 input
  if rest.length < n then none else items item n rest

def bytes (n : Nat) : Reader (List UInt8) := fun input =>
  if n ≤ input.length then some (input.take n, input.drop n) else none

def byte : Reader UInt8
  | [] => none
  | b :: rest => some (b, rest)

def valTypes : Reader (List UInt8) := fun input => do
  let (n, rest) ← u32 input
  let (ts, rest) ← bytes n rest
  if ts.all isValType then some (ts, rest) else none

def funcType : Reader Binary.FuncType := fun input => do
  let (form, rest) ← byte input
  if form ≠ 0x60 then none
  else
    let (params, rest) ← valTypes rest
    let (results, rest) ← valTypes rest
    return ({ params, results }, rest)

def name : Reader String := fun input => do
  let (n, rest) ← u32 input
  let (raw, rest) ← bytes n rest
  return (← String.fromUTF8? ⟨raw.toArray⟩, rest)

def globalType : Reader Binary.GlobalType := fun input => do
  let (valType, rest) ← byte input
  let (flag, rest) ← byte rest
  if isValType valType && flag ≤ 1 then some ({ valType, mutable := flag = 1 }, rest) else none

/-- Imports of functions and globals; the machine has no others. -/
def import' : Reader Binary.Import := fun input => do
  let (module, rest) ← name input
  let (field, rest) ← name rest
  let (kind, rest) ← byte rest
  if kind = Binary.kindFunc then
    let (i, rest) ← u32 rest
    return ({ module, name := field, desc := .func (UInt32.ofNat i) }, rest)
  else if kind = Binary.kindGlobal then
    let (type, rest) ← globalType rest
    return ({ module, name := field, desc := .global type }, rest)
  else none

def constExpr : Reader ConstExpr := fun input => do
  let (op, rest) ← byte input
  let (value, rest) ←
    match op.toNat with
    | 0x41 => do
      let (v, rest) ← signed 32 rest
      pure (ConstExpr.i32 (UInt32.ofInt v), rest)
    | 0x42 => do
      let (v, rest) ← signed 64 rest
      pure (ConstExpr.i64 (Int64.ofInt v), rest)
    | 0x43 => do
      let (raw, rest) ← bytes 4 rest
      pure (ConstExpr.float 0x7d (UInt64.ofNat (Binary.littleEndian raw)), rest)
    | 0x44 => do
      let (raw, rest) ← bytes 8 rest
      pure (ConstExpr.float 0x7c (UInt64.ofNat (Binary.littleEndian raw)), rest)
    | 0x23 => do
      let (i, rest) ← u32 rest
      pure (ConstExpr.global i, rest)
    | _ => none
  let (last, rest) ← byte rest
  if last = Binary.opEnd then some (value, rest) else none

def globalDef : Reader GlobalDef := fun input => do
  let (type, rest) ← globalType input
  let (init, rest) ← constExpr rest
  return ({ type, init }, rest)

def export' : Reader Binary.Export := fun input => do
  let (name, rest) ← name input
  let (kind, rest) ← byte rest
  let (index, rest) ← u32 rest
  if kind ≤ 3 then some ({ name, kind, index := UInt32.ofNat index }, rest) else none

/-- Some locals of one type: how many, and the type. -/
def localRun : Reader (Nat × UInt8) := fun input => do
  let (n, rest) ← u32 input
  let (type, rest) ← byte rest
  if isValType type then some ((n, type), rest) else none

/-- An entry of the code section, which its size must fit. Locals are counted in 32 bits. -/
def codeEntry : Reader (List UInt8 × List Instr) := fun input => do
  let (size, rest) ← u32 input
  let (raw, rest) ← bytes size rest
  let (runs, code) ← vec localRun raw
  if 0x100000000 ≤ runs.foldl (fun n run => n + run.1) 0 then none
  let ((body, ending), left) ← instrs (code.length + 1) code
  let locals := runs.flatMap fun (n, type) => List.replicate n type
  if ending = .end && left.isEmpty then some ((locals, body), rest) else none

/-- Everything in a section, or nothing. -/
def whole {α : Type} (r : Reader α) (input : List UInt8) : Option α := do
  let (a, rest) ← r input
  if rest.isEmpty then some a else none

/-- Takes one section into account. -/
def addSection (m : Module) (s : Binary.RawSection) : Option Module := do
  match s.id.toNat with
  | 0 =>
    let _ ← name s.body
    return m
  | 1 => return { m with types := ← whole (vec funcType) s.body }
  | 2 => return { m with imports := ← whole (vec import') s.body }
  | 3 => return { m with funcTypes := ← whole (vec u32) s.body }
  | 6 => return { m with globals := ← whole (vec globalDef) s.body }
  | 7 => return { m with exports := ← whole (vec export') s.body }
  | 8 => return { m with start := some (← whole u32 s.body) }
  | 10 => return { m with code := ← whole (vec codeEntry) s.body }
  | _ => none

end Decode

/-- Decodes a binary; `none` if it is not one that the machine can run. -/
def Module.decode? (bin : List UInt8) : Option Module :=
  let step (m : Module) (s : Binary.RawSection) : Except Binary.Fault Module :=
    match Decode.addSection m s with
    | some m => .ok m
    | none => .error .truncated
  match Binary.checkHeader { rest := bin } with
  | .error _ => none
  | .ok (_, c) =>
    match Binary.foldSections step {} c.rest with
    | .ok m => some m
    | .error _ => none

end WasmLisp.Machine
