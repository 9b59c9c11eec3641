import WasmLisp.Text.Hex

/-!
Reading binaries: a cursor over bytes, the faults that stop it, and readers of the format's basic
items. A reader either fails or moves the cursor past what it read.
-/

namespace WasmLisp.Binary

/-- Why a binary cannot be read. -/
inductive Fault where
  | truncated
  | overflow
  | badName (offset : Nat)
  | badMagic
  | badVersion (version : Nat)
  | badTypeForm (code : UInt8)
  | badImportKind (code : UInt8)
  | badInitializer (code : UInt8)
  | inSection (id : UInt8) (inner : Fault)
  | inImports (inner : Fault)
  deriving DecidableEq, Repr

namespace Fault

/-- A byte as messages show it. -/
def hexByte (b : UInt8) : String := "0x" ++ Text.hexPadded 2 b.toNat

def message : Fault → String
  | .truncated => "wasm: unexpected end of binary"
  | .overflow => "wasm: leb128 overflow"
  | .badName offset => s!"wasm: invalid UTF-8 name at offset {offset}"
  | .badMagic => "wasm: bad magic number"
  | .badVersion version => s!"wasm: unsupported version {version}"
  | .badTypeForm code => s!"wasm: unexpected type form {hexByte code}"
  | .badImportKind code => s!"wasm: unknown import kind {hexByte code}"
  | .badInitializer code => s!"wasm: unsupported global initializer {hexByte code}"
  | .inSection id inner => s!"section {id.toNat}: {inner.message}"
  | .inImports inner => s!"import section: {inner.message}"

/-- The fault without the sections that surround it. -/
def root : Fault → Fault
  | .inSection _ inner => inner.root
  | .inImports inner => inner.root
  | e => e

end Fault

/-- The bytes still to be read and how many were read before them. -/
structure Cursor where
  rest : List UInt8
  offset : Nat := 0
  deriving DecidableEq, Repr, Inhabited

/-- A reader of binary items. -/
abbrev Decode := StateT Cursor (Except Fault)

namespace Decode

/-- Stops with a fault. -/
def fail {α : Type} (e : Fault) : Decode α := fun _ => .error e

/-- The next byte. -/
def byte : Decode UInt8 := fun c =>
  match c.rest with
  | [] => .error .truncated
  | b :: rest => .ok (b, { rest, offset := c.offset + 1 })

/-- The next `n` bytes. -/
def take (n : Nat) : Decode (List UInt8) := fun c =>
  let taken := c.rest.take n
  if taken.length = n then .ok (taken, { rest := c.rest.drop n, offset := c.offset + n })
  else .error .truncated

/-- Unsigned LEB128 of at most `left` bytes; the bits of a byte count from `shift` on. -/
def u32From (left shift : Nat) (acc : Nat) : Decode Nat :=
  match left with
  | 0 => fail .overflow
  | left + 1 => do
    let b ← byte
    let acc := acc + (b.toNat % 128) * Nat.pow 2 shift
    if b.toNat < 128 then return acc else u32From left (shift + 7) acc

/-- An unsigned LEB128 number of at most five bytes, modulo two to the power 32. -/
def u32 : Decode UInt32 := do
  return UInt32.ofNat (← u32From 5 0 0)

/-- The count of bytes that continue a LEB128 number and the byte that ends it. -/
def lebLength : List UInt8 → Option Nat
  | [] => none
  | b :: rest => if b.toNat < 128 then some 1 else (· + 1) <$> lebLength rest

/-- Skips a LEB128 number of any length. -/
def skipLeb : Decode Unit := fun c =>
  match lebLength c.rest with
  | none => .error .truncated
  | some n => .ok ((), { rest := c.rest.drop n, offset := c.offset + n })

/-- A name, which must be valid UTF-8. -/
def name : Decode String := do
  let n ← u32
  let start := (← get).offset
  let raw ← take n.toNat
  match String.fromUTF8? ⟨raw.toArray⟩ with
  | some s => return s
  | none => fail (.badName start)

/-- As many items as said, one after the other. -/
def items {α : Type} (item : Decode α) : Nat → Decode (List α)
  | 0 => return []
  | n + 1 => do
    let a ← item
    return a :: (← items item n)

/-- Items after their count. -/
def vec {α : Type} (item : Decode α) : Decode (List α) := do
  items item (← u32).toNat

/-- The limits of a table or a memory, which are skipped. -/
def limits : Decode Unit := do
  let flags ← byte
  let _ ← u32
  if flags % 2 = 1 then
    let _ ← u32

end Decode

/-- The number that four bytes write, least significant first. -/
def littleEndian (bytes : List UInt8) : Nat := bytes.foldr (fun b acc => b.toNat + 256 * acc) 0

/-- Checks the magic number and the version. -/
def checkHeader : Decode Unit := do
  let raw ← Decode.take 8
  if littleEndian (raw.take 4) ≠ 0x6d736100 then Decode.fail .badMagic
  let version := littleEndian (raw.drop 4)
  if version ≠ 1 then Decode.fail (.badVersion version)

/-- A section as it stands: its code, its contents, and all its bytes. -/
structure RawSection where
  id : UInt8
  body : List UInt8
  raw : List UInt8
  deriving DecidableEq, Repr, Inhabited

/-- The section at the start of nonempty bytes, and the bytes after it. -/
def RawSection.read (bytes : List UInt8) : Except Fault (RawSection × List UInt8) := do
  let (id, c) ← Decode.byte { rest := bytes }
  let (size, c) ← Decode.u32 c
  let (body, c) ← Decode.take size.toNat c
  return ({ id, body, raw := bytes.take c.offset }, bytes.drop (max 1 c.offset))

theorem RawSection.length_read {bytes : List UInt8} {s : RawSection} {rest : List UInt8}
    (h : RawSection.read bytes = .ok (s, rest)) : rest.length < bytes.length := by
  cases bytes with
  | nil => simp [RawSection.read, Decode.byte, bind, Except.bind] at h
  | cons b bs =>
    simp only [RawSection.read, bind, Except.bind] at h
    split at h
    · cases h
    · split at h
      · cases h
      · split at h
        · cases h
        · rename_i v3 _
          simp only [pure, Except.pure, Except.ok.injEq, Prod.mk.injEq] at h
          rw [← h.2, List.length_drop, List.length_cons]
          have := Nat.le_max_left 1 v3.2.offset
          omega

/-- Goes through the sections in order, each changing a state or stopping with a fault. -/
def foldSections {σ : Type} (step : σ → RawSection → Except Fault σ) (s : σ)
    (bytes : List UInt8) : Except Fault σ :=
  if bytes.isEmpty then .ok s else
    match h : RawSection.read bytes with
    | .error e => .error e
    | .ok (section', rest) => do
      have := RawSection.length_read h
      foldSections step (← step s section') rest
termination_by bytes.length

end WasmLisp.Binary
