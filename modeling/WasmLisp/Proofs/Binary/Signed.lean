import Mathlib
import WasmLisp.Proofs.Binary.Inspect

/-!
# Writing signed numbers

A signed number is written seven bits at a time until what is left is the sign of the bits that
were written last.

* `slebValue`: the integer that bytes write, the last of them with its sign;
* `eq_sleb_or_lt`: of all bytes that write an integer, those that are written for it are the fewest;
* `encodeInt64_eq`: a word is written by masks and shifts;
* `encodeInt64_read_back`: what is written for a word, and how readers get past it.
-/

namespace WasmLisp.Binary

variable {bs : List UInt8}

/-- The integer that bytes of signed LEB128 write, whatever their count: seven bits a byte, of which
the last seven are a number between -64 and 63. -/
def slebValue : List UInt8 → Int
  | [] => 0
  | [b] => if b.toNat % 128 < 64 then b.toNat % 128 else b.toNat % 128 - 128
  | b :: bs => b.toNat % 128 + 128 * slebValue bs

theorem slebValue_cons (b : UInt8) (h : bs ≠ []) :
    slebValue (b :: bs) = b.toNat % 128 + 128 * slebValue bs := by
  cases bs with
  | nil => exact absurd rfl h
  | cons c bs => rfl

theorem Leb.ne_nil (h : Leb bs) : bs ≠ [] := List.ne_nil_of_length_pos h.length_pos

theorem slebValue_sleb (v : Int) : slebValue (sleb v) = v := by
  fun_induction sleb v with
  | case1 v h =>
    simp only [slebValue, UInt8.toNat_ofNat']
    omega
  | case2 v h ih =>
    rw [slebValue_cons _ (leb_sleb _).ne_nil, ih, UInt8.toNat_ofNat']
    omega

/-- Bytes that write an integer are those that are written for it, or are more than those. -/
theorem eq_sleb_or_lt (h : Leb bs) :
    bs = sleb (slebValue bs) ∨ (sleb (slebValue bs)).length < bs.length := by
  induction h with
  | @last b hb =>
    left
    have hbound : -64 ≤ slebValue [b] ∧ slebValue [b] < 64 := by
      simp only [slebValue]
      omega
    have hlow : (slebValue [b] % 128).toNat = b.toNat := by
      simp only [slebValue]
      omega
    rw [sleb, if_pos hbound, hlow, UInt8.ofNat_toNat]
  | @more b bs hb hbs ih =>
    rw [slebValue_cons b hbs.ne_nil]
    have hbyte := b.toNat_lt
    have hlow : ((b.toNat % 128 + 128 * slebValue bs) % 128).toNat + 128 = b.toNat := by omega
    have hhigh : (b.toNat % 128 + 128 * slebValue bs) / 128 = slebValue bs := by omega
    rw [sleb]
    split
    -- one byte is enough
    case isTrue =>
      right
      have := hbs.length_pos
      rw [List.length_singleton, List.length_cons]
      omega
    case isFalse =>
      rw [hlow, hhigh, UInt8.ofNat_toNat]
      rcases ih with heq | hlt
      · exact .inl (by rw [← heq])
      · exact .inr (by simpa using hlt)

/-! ## Words -/

theorem toInt_shiftRight_seven (v : Int64) : (v >>> 7).toInt = v.toInt / 128 := by
  have hshift : (v >>> 7).toBitVec = v.toBitVec.sshiftRight 7 := by
    rw [Int64.toBitVec_shiftRight]
    rfl
  rw [← Int64.toInt_toBitVec, hshift, BitVec.toInt_sshiftRight, Int64.toInt_toBitVec,
    Int.shiftRight_eq_div_pow]
  rfl

/-- The seven lowest bits of a word. -/
def lowBits (v : Int64) : UInt8 := (v.toUInt64 &&& 0x7f).toUInt8

theorem toNat_lowBits (v : Int64) : ((lowBits v).toNat : Int) = v.toInt % 128 := by
  have hmask : (lowBits v).toNat = v.toUInt64.toNat % 128 := by
    have hand : (v.toUInt64 &&& 0x7f).toNat = v.toUInt64.toNat % 128 := by
      rw [UInt64.toNat_and]
      exact Nat.and_two_pow_sub_one_eq_mod _ 7
    rw [lowBits, UInt64.toNat_toUInt8, hand]
    omega
  have hword : v.toInt = if 2 * v.toUInt64.toNat < 2 ^ 64 then (v.toUInt64.toNat : Int)
      else v.toUInt64.toNat - 2 ^ 64 := BitVec.toInt_eq_toNat_cond _
  rw [hmask, hword]
  split <;> omega

/-- What is left of a word after its seven lowest bits is nothing but the sign of those. -/
def OnlySign (v : Int64) : Prop :=
  (v >>> 7 = 0 ∧ lowBits v &&& 0x40 = 0) ∨ (v >>> 7 = -1 ∧ lowBits v &&& 0x40 ≠ 0)

instance (v : Int64) : Decidable (OnlySign v) :=
  inferInstanceAs (Decidable (_ ∨ _))

theorem and_sign_eq_zero_iff {n : Nat} (h : n < 128) : UInt8.ofNat n &&& 0x40 = 0 ↔ n < 64 := by
  revert n
  decide +kernel

theorem or_more_eq {n : Nat} (h : n < 128) : UInt8.ofNat n ||| 0x80 = UInt8.ofNat (n + 128) := by
  revert n
  decide +kernel

theorem onlySign_iff (v : Int64) : OnlySign v ↔ -64 ≤ v.toInt ∧ v.toInt < 64 := by
  have hlow := toNat_lowBits v
  have hsign := and_sign_eq_zero_iff (n := (lowBits v).toNat) (by omega)
  have hminus : (-1 : Int64).toInt = -1 := rfl
  rw [UInt8.ofNat_toNat] at hsign
  rw [OnlySign, Ne, hsign, ← Int64.toInt_inj, ← Int64.toInt_inj, toInt_shiftRight_seven,
    Int64.toInt_zero, hminus]
  omega

/-- A word is written from its lowest bits on, shifted by seven bits a byte. -/
theorem encodeInt64_eq (v : Int64) :
    encodeInt64 v =
      if OnlySign v then [lowBits v] else (lowBits v ||| 0x80) :: encodeInt64 (v >>> 7) := by
  have hlow := toNat_lowBits v
  have hnat : (v.toInt % 128).toNat = (lowBits v).toNat := by omega
  have hmore := or_more_eq (n := (lowBits v).toNat) (by omega)
  rw [UInt8.ofNat_toNat] at hmore
  rw [encodeInt64, sleb, hnat, UInt8.ofNat_toNat]
  simp only [onlySign_iff]
  split
  · rfl
  · rw [hmore, encodeInt64, toInt_shiftRight_seven]

/-! ## Reading -/

/-- The types of globals are read back, whatever integers the globals start as. -/
theorem Decode.reads_globals {globals : List Global} (h : globals.length < 2 ^ 32) :
    Reads (vec globalEntry) (encodeVec Global.encode globals) (globals.map (·.type)) := by
  refine reads_encodeVec ?_ h
  rw [List.forall₂_map_right_iff, List.forall₂_same]
  exact fun g _ => reads_globalEntry g

theorem length_encodeInt64_le (v : Int64) : (encodeInt64 v).length ≤ 10 := by
  have hlow := v.le_toInt
  have hhigh := v.toInt_lt
  exact length_sleb_le (k := 9) (by omega) (by omega)

/-- A word is written by masks and shifts as the fewest bytes that write it, ten at most, and nothing
else writes it in as few. These bytes are skipped as they are, whatever comes after them, so that the
types of a module's globals are read back whatever words the globals start as. -/
theorem encodeInt64_read_back :
    (∀ v : Int64,
      encodeInt64 v =
        (if OnlySign v then [lowBits v] else (lowBits v ||| 0x80) :: encodeInt64 (v >>> 7)) ∧
      Leb (encodeInt64 v) ∧ slebValue (encodeInt64 v) = v.toInt ∧ (encodeInt64 v).length ≤ 10 ∧
      (∀ bs, Leb bs → slebValue bs = v.toInt →
        bs = encodeInt64 v ∨ (encodeInt64 v).length < bs.length) ∧
      Decode.Reads Decode.skipLeb (encodeInt64 v) ()) ∧
    ∀ globals : List Global, globals.length < 2 ^ 32 →
      Decode.Reads (Decode.vec Decode.globalEntry) (encodeVec Global.encode globals)
        (globals.map (·.type)) := by
  refine ⟨fun v => ⟨encodeInt64_eq v, leb_sleb _, slebValue_sleb _, length_encodeInt64_le v, ?_,
    Decode.reads_skipLeb (leb_sleb _)⟩, fun _ => Decode.reads_globals⟩
  intro bs hbs hv
  have h := eq_sleb_or_lt hbs
  rwa [hv] at h

/-- The least word, for which its ten bytes and a byte more can be written, and a global that starts
as it. -/
theorem encodeInt64_read_back_least :
    let padded : List UInt8 := [0x80, 0x80, 0x80, 0x80, 0x80, 0x80, 0x80, 0x80, 0x80, 0xff, 0x7f]
    let global : Global := { type := { valType := i64, mutable := true }, init := Int64.minValue }
    (Leb padded ∧ slebValue padded = Int64.minValue.toInt ∧
      (encodeInt64 Int64.minValue).length < padded.length) ∧
    [global].length < 2 ^ 32 ∧
      Decode.Reads (Decode.vec Decode.globalEntry) (encodeVec Global.encode [global])
        [global.type] := by
  intro padded global
  obtain ⟨hwords, hglobals⟩ := encodeInt64_read_back
  obtain ⟨-, -, -, hlen, hfewest, -⟩ := hwords Int64.minValue
  have hpadded : Leb padded := by
    iterate 10 refine .more (by decide) ?_
    exact .last (by decide)
  have hvalue : slebValue padded = Int64.minValue.toInt := by decide +kernel
  refine ⟨⟨hpadded, hvalue, (hfewest padded hpadded hvalue).resolve_left fun h => ?_⟩, by decide,
    hglobals [global] (by decide)⟩
  rw [← h] at hlen
  exact absurd hlen (by decide)

end WasmLisp.Binary
