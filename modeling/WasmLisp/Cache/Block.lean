/-!
Compressed blocks: the size of the contents, then elements that are either literal bytes or copies
of bytes that came before. The writer here produces literals only; the reader takes all elements.
-/

namespace WasmLisp.Block

/-- A number in groups of seven bits, the lowest first. -/
def varint (n : Nat) : List UInt8 :=
  if n < 128 then [UInt8.ofNat n] else UInt8.ofNat (n % 128 + 128) :: varint (n / 128)

/-- The most bytes that one literal element of this writer holds. -/
def chunk : Nat := 65536

/-- Literal elements for bytes. Up to 60 bytes the tag holds the length; up to 256 one byte after it,
else two. -/
def literals : List UInt8 → List UInt8
  | [] => []
  | b :: rest =>
    let now := b :: rest.take (chunk - 1)
    let n := now.length - 1
    let head :=
      if n < 60 then [UInt8.ofNat (n * 4)]
      else if n < 256 then [60 * 4, UInt8.ofNat n]
      else [61 * 4, UInt8.ofNat (n % 256), UInt8.ofNat (n / 256)]
    head ++ now ++ literals (rest.drop (chunk - 1))
termination_by bytes => bytes.length

/-- Compresses bytes. -/
def encode (bytes : List UInt8) : List UInt8 := varint bytes.length ++ literals bytes

/-- Reads a number in groups of seven bits, of at most ten bytes. -/
def readVarint (left shift acc : Nat) : List UInt8 → Option (Nat × List UInt8)
  | [] => none
  | b :: rest =>
    match left with
    | 0 => none
    | left + 1 =>
      let acc := acc + b.toNat % 128 * Nat.pow 2 shift
      if b.toNat < 128 then some (acc, rest) else readVarint left (shift + 7) acc rest

/-- A number of `n` bytes, the lowest first, and what follows. -/
def littleEndian? : (n : Nat) → List UInt8 → Option (Nat × List UInt8)
  | 0, rest => some (0, rest)
  | _ + 1, [] => none
  | n + 1, b :: rest => do
    let (v, rest) ← littleEndian? n rest
    return (b.toNat + 256 * v, rest)

/-- Appends `length` bytes, each the one `offset` places before the end. -/
def copy (out : Array UInt8) (offset : Nat) : (length : Nat) → Array UInt8
  | 0 => out
  | n + 1 => copy (out.push (out.getD (out.size - offset) 0)) offset n

/-- Takes one element: its effect on the output so far, and what follows. -/
def element? (size : Nat) (out : Array UInt8) (tag : UInt8) (rest : List UInt8) :
    Option (Array UInt8 × List UInt8) := do
  let top := tag.toNat / 4
  let copied (length offset : Nat) (rest : List UInt8) : Option (Array UInt8 × List UInt8) :=
    if offset = 0 || out.size < offset || size - out.size < length then none
    else some (copy out offset length, rest)
  match tag.toNat % 4 with
  | 0 =>
    let (n, rest) ← if top < 60 then some (top, rest) else littleEndian? (top - 59) rest
    let length := n + 1
    if size - out.size < length || rest.length < length then none
    else some (out ++ (rest.take length).toArray, rest.drop length)
  | 1 =>
    let (low, rest) ← littleEndian? 1 rest
    copied (4 + top % 8) (top / 8 * 256 + low) rest
  | 2 =>
    let (offset, rest) ← littleEndian? 2 rest
    copied (1 + top) offset rest
  | _ =>
    let (offset, rest) ← littleEndian? 4 rest
    copied (1 + top) offset rest

/-- Takes all elements; every one takes at least a byte, so the fuel is the number of bytes. -/
def elements? (size : Nat) : (fuel : Nat) → Array UInt8 → List UInt8 → Option (Array UInt8)
  | _, out, [] => some out
  | 0, _, _ :: _ => none
  | fuel + 1, out, tag :: rest => do
    let (out, rest) ← element? size out tag rest
    elements? size fuel out rest

/-- The contents of a block. -/
def decode? (bytes : List UInt8) : Option (List UInt8) := do
  let (size, rest) ← readVarint 10 0 0 bytes
  if 0x100000000 ≤ size then none
  let out ← elements? size rest.length #[] rest
  if out.size = size then some out.toList else none

end WasmLisp.Block
