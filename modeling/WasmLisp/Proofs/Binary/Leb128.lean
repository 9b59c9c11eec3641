import Mathlib
import WasmLisp.Binary.Cursor
import WasmLisp.Binary.Leb128

/-!
# Numbers in LEB128

* `Leb`: bytes that make one number, the last of which ends it;
* `ulebValue_uleb` and `bmod_ulebValue_sleb`: what is written is what is read back;
* `length_uleb_le` and `length_sleb_le`: how many bytes a number of some bits takes.
-/

namespace WasmLisp.Binary

/-- The bytes of one number: all but the last have their high bit set. -/
inductive Leb : List UInt8 → Prop where
  | last {b : UInt8} (h : b.toNat < 128) : Leb [b]
  | more {b : UInt8} {bs : List UInt8} (h : 128 ≤ b.toNat) (hs : Leb bs) : Leb (b :: bs)

theorem leb_uleb (n : Nat) : Leb (uleb n) := by
  fun_induction uleb n with
  | case1 n h =>
    refine .last ?_
    rw [UInt8.toNat_ofNat']
    omega
  | case2 n h ih =>
    refine .more ?_ ih
    rw [UInt8.toNat_ofNat']
    omega

theorem leb_sleb (v : Int) : Leb (sleb v) := by
  fun_induction sleb v with
  | case1 v h =>
    refine .last ?_
    rw [UInt8.toNat_ofNat']
    omega
  | case2 v h ih =>
    refine .more ?_ ih
    rw [UInt8.toNat_ofNat']
    omega

theorem Leb.length_pos {bs : List UInt8} (h : Leb bs) : 0 < bs.length := by
  cases h <;> simp

/-- Where one number ends is seen from its bytes. -/
theorem Leb.append_inj {as bs : List UInt8} (ha : Leb as) (hb : Leb bs) {r t : List UInt8}
    (h : as ++ r = bs ++ t) : as = bs ∧ r = t := by
  induction ha generalizing bs with
  | last ha =>
    cases hb with
    | last hb => simpa using h
    | more hb _ =>
      simp only [List.cons_append, List.cons.injEq] at h
      rw [h.1] at ha
      omega
  | more ha _ ih =>
    cases hb with
    | last hb =>
      simp only [List.cons_append, List.cons.injEq] at h
      rw [h.1] at ha
      omega
    | more hb hbs =>
      simp only [List.cons_append, List.cons.injEq] at h
      obtain ⟨rfl, rfl⟩ := ih hbs h.2
      exact ⟨by rw [h.1], rfl⟩

/-! ## Values -/

theorem ulebValue_uleb (n : Nat) : ulebValue (uleb n) = n := by
  fun_induction uleb n with
  | case1 n h =>
    simp only [ulebValue, UInt8.toNat_ofNat']
    omega
  | case2 n h ih =>
    simp only [ulebValue, UInt8.toNat_ofNat', ih]
    omega

theorem uleb_injective {m n : Nat} (h : uleb m = uleb n) : m = n := by
  rw [← ulebValue_uleb m, h, ulebValue_uleb]

/-- Signed numbers are written modulo a power of 128, in as many bytes as that needs. -/
theorem sleb_spec (v : Int) :
    ∃ k, (sleb v).length = k + 1 ∧ -(64 * 128 ^ k : Int) ≤ v ∧ v < 64 * 128 ^ k ∧
      ∃ q : Int, v = ulebValue (sleb v) + q * 128 ^ (k + 1) := by
  fun_induction sleb v with
  | case1 v h =>
    refine ⟨0, rfl, by omega, by omega, v / 128, ?_⟩
    simp only [ulebValue, UInt8.toNat_ofNat']
    omega
  | case2 v h ih =>
    obtain ⟨k, hk, hlo, hhi, q, hq⟩ := ih
    have hd : v / 128 * 128 = ulebValue (sleb (v / 128)) * 128 + q * 128 ^ (k + 1 + 1) := by
      conv_lhs => rw [hq]
      ring
    refine ⟨k + 1, by rw [List.length_cons, hk], ?_, ?_, q, ?_⟩
    · rw [pow_succ]
      omega
    · rw [pow_succ]
      omega
    · simp only [ulebValue, UInt8.toNat_ofNat']
      omega

/-- A signed number is the signed remainder of what its bytes write. -/
theorem bmod_ulebValue_sleb (v : Int) :
    Int.bmod (ulebValue (sleb v)) (2 ^ (7 * (sleb v).length)) = v := by
  obtain ⟨k, hk, hlo, hhi, q, hq⟩ := sleb_spec v
  have hp : (2 : Nat) ^ (7 * (sleb v).length) = 128 ^ (k + 1) := by
    rw [hk, pow_mul]
    rfl
  have hcast : ((128 ^ (k + 1) : Nat) : Int) = 128 * 128 ^ k := by
    push_cast
    rw [pow_succ]
    ring
  rw [hp, Int.bmod_eq_iff (Nat.pow_pos (by decide)), hcast]
  refine ⟨by omega, by omega, q, ?_⟩
  rw [pow_succ] at hq
  rw [sub_eq_iff_eq_add]
  conv_lhs => rw [hq]
  ring

/-! ## Lengths -/

theorem length_uleb_le {n k : Nat} (hk : 0 < k) (h : n < 128 ^ k) : (uleb n).length ≤ k := by
  induction k generalizing n with
  | zero => omega
  | succ k ih =>
    rw [uleb]
    split
    · simp
    · have hk : 0 < k := by
        rcases Nat.eq_zero_or_pos k with rfl | hk
        · omega
        · exact hk
      have hn : n / 128 < 128 ^ k := by
        rw [pow_succ] at h
        omega
      have := ih hk hn
      rw [List.length_cons]
      omega

theorem length_sleb_le {v : Int} {k : Nat} (hlo : -(64 * 128 ^ k : Int) ≤ v)
    (hhi : v < 64 * 128 ^ k) : (sleb v).length ≤ k + 1 := by
  induction k generalizing v with
  | zero =>
    rw [sleb, if_pos (by omega)]
    simp
  | succ k ih =>
    rw [sleb]
    split
    · simp
    · rw [pow_succ] at hlo hhi
      have hl := @ih (v / 128) (by omega) (by omega)
      rw [List.length_cons]
      omega

end WasmLisp.Binary
