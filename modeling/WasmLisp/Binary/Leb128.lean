/-!
LEB128 numbers: seven bits a byte, the lowest first, every byte but the last with its high bit set.
-/

namespace WasmLisp.Binary

/-- A natural number in unsigned LEB128. -/
def uleb (n : Nat) : List UInt8 :=
  if n < 128 then [UInt8.ofNat n] else UInt8.ofNat (n % 128 + 128) :: uleb (n / 128)

/-- An integer in signed LEB128: the last byte's second highest bit is the sign. -/
def sleb (v : Int) : List UInt8 :=
  if -64 ≤ v ∧ v < 64 then [UInt8.ofNat (v % 128).toNat]
  else UInt8.ofNat ((v % 128).toNat + 128) :: sleb (v / 128)
termination_by v.natAbs
decreasing_by omega

/-- The number that bytes of unsigned LEB128 write, whatever their count. -/
def ulebValue : List UInt8 → Nat
  | [] => 0
  | b :: bs => b.toNat % 128 + 128 * ulebValue bs

end WasmLisp.Binary
