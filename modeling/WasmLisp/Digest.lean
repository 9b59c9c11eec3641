import WasmLisp.Text.Hex

/-!
The 64-bit digest of byte strings (XXH64 with seed zero), which names contents throughout: units,
stored entries and configurations. Input is taken in stripes of 32 bytes that feed four lanes; the
lanes are merged, the remaining bytes are mixed in, and a final avalanche spreads every bit.
-/

namespace WasmLisp.Digest

def prime1 : UInt64 := 0x9E3779B185EBCA87
def prime2 : UInt64 := 0xC2B2AE3D27D4EB4F
def prime3 : UInt64 := 0x165667B19E3779F9
def prime4 : UInt64 := 0x85EBCA77C2B2AE63
def prime5 : UInt64 := 0x27D4EB2F165667C5

/-- Rotation to the left. -/
def rotl (x n : UInt64) : UInt64 := (x <<< n) ||| (x >>> (64 - n))

/-- The number that bytes write with the least significant byte first. -/
def littleEndian (bytes : List UInt8) : UInt64 :=
  bytes.foldr (fun b acc => acc * 256 + b.toUInt64) 0

/-- One input word taken into a lane. -/
def round (lane word : UInt64) : UInt64 := rotl (lane + word * prime2) 31 * prime1

/-- The four lanes that stripes feed. -/
structure Lanes where
  a : UInt64 := prime1 + prime2
  b : UInt64 := prime2
  c : UInt64 := 0
  d : UInt64 := 0 - prime1

/-- Takes `n` stripes of 32 bytes and returns the bytes after them. -/
def stripes : Nat → Lanes → List UInt8 → Lanes × List UInt8
  | 0, lanes, bytes => (lanes, bytes)
  | n + 1, lanes, bytes =>
    let second := bytes.drop 8
    let third := second.drop 8
    let fourth := third.drop 8
    let lanes' : Lanes :=
      { a := round lanes.a (littleEndian (bytes.take 8))
        b := round lanes.b (littleEndian (second.take 8))
        c := round lanes.c (littleEndian (third.take 8))
        d := round lanes.d (littleEndian (fourth.take 8)) }
    stripes n lanes' (fourth.drop 8)

/-- Merges one lane into the state. -/
def merge (h lane : UInt64) : UInt64 := (h ^^^ round 0 lane) * prime1 + prime4

/-- The state that the lanes leave. -/
def Lanes.merged (l : Lanes) : UInt64 :=
  let h := rotl l.a 1 + rotl l.b 7 + rotl l.c 12 + rotl l.d 18
  merge (merge (merge (merge h l.a) l.b) l.c) l.d

/-- Mixes in words of eight bytes, `n` of them. -/
def mixWords : Nat → UInt64 → List UInt8 → UInt64 × List UInt8
  | 0, h, bytes => (h, bytes)
  | n + 1, h, bytes =>
    let h' := rotl (h ^^^ round 0 (littleEndian (bytes.take 8))) 27 * prime1 + prime4
    mixWords n h' (bytes.drop 8)

/-- Mixes in single bytes. -/
def mixBytes (h : UInt64) (bytes : List UInt8) : UInt64 :=
  bytes.foldl (fun h b => rotl (h ^^^ (b.toUInt64 * prime5)) 11 * prime1) h

/-- Spreads every bit over the result. -/
def avalanche (h : UInt64) : UInt64 :=
  let h := (h ^^^ (h >>> 33)) * prime2
  let h := (h ^^^ (h >>> 29)) * prime3
  h ^^^ (h >>> 32)

/-- The digest of a byte string. -/
def sum64 (bytes : List UInt8) : UInt64 :=
  let size := bytes.length
  let (lanes, tail) := stripes (size / 32) {} bytes
  let start := if size < 32 then prime5 else lanes.merged
  let (h, tail) := mixWords (size % 32 / 8) (start + UInt64.ofNat size) tail
  let (h, tail) :=
    if 4 ≤ size % 8 then
      (rotl (h ^^^ (littleEndian (tail.take 4) * prime1)) 23 * prime2 + prime3, tail.drop 4)
    else (h, tail)
  avalanche (mixBytes h tail)

/-- The digest as 16 hexadecimal digits. -/
def hex64 (bytes : List UInt8) : String := Text.hexPadded 16 (sum64 bytes).toNat

/-- The digest of a text's bytes. -/
def hexOfText (s : String) : String := hex64 s.toUTF8.toList

end WasmLisp.Digest
