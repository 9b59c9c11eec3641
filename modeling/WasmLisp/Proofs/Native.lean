import Mathlib
import WasmLisp.Native

/-!
# Native functions: powers and common divisors

The functions compute with 64 bits, and wrap around. What they compute is said in integers:

* `Catalog.call?`: what the function of a name in a catalog answers;
* `call_pow_eq_ofInt`: a power, modulo two to the power 64;
* `call_gcd_eq_iff`: a greatest common divisor up to its sign. The sign is lost only with the least
  integer, which has no absolute value: then it depends on how many divisions there are.
-/

namespace WasmLisp

/-- What the function of a name answers, and the surroundings that it leaves. -/
def Catalog.call? (c : Catalog) (name : String) (s : Surroundings) (args : List Int64) :
    Option (Surroundings × Except String Int64) :=
  ((c.lookup? name).bind (·.1.fn)).map (· s args)

namespace Native

/-! ## Powers -/

theorem mul_self_pow (b : Int64) (k : Nat) : (b * b) ^ k = b ^ (2 * k) := by
  induction k with
  | zero => rfl
  | succ k ih =>
    rw [Int64.pow_succ, ih, Nat.mul_succ, Int64.pow_succ, Int64.pow_succ, Int64.mul_assoc]

/-- What has been multiplied up, times the power of the base that is still to come, stays the same
from round to round. -/
theorem powFrom_eq (result b : Int64) (e : Nat) : powFrom result b e = result * b ^ e := by
  fun_induction powFrom result b e with
  | case1 result b => rw [Int64.pow_zero, Int64.mul_one]
  | case2 result b e he ih =>
    have hbits := Nat.div_add_mod e 2
    rw [dite_eq_ite] at ih
    rw [ih, mul_self_pow]
    by_cases hodd : e % 2 = 1
    · -- the lowest bit takes the base into the result
      rw [hodd] at hbits
      rw [if_pos hodd, Int64.mul_assoc, Int64.mul_comm b, ← Int64.pow_succ, hbits]
    · have heven : 2 * (e / 2) = e := by omega
      rw [if_neg hodd, heven]

/-- Wrapping around at every multiplication is wrapping around once. -/
theorem pow_eq_ofInt (b : Int64) (n : Nat) : b ^ n = Int64.ofInt (b.toInt ^ n) := by
  induction n with
  | zero =>
    rw [Int64.pow_zero, pow_zero]
    rfl
  | succ n ih => rw [Int64.pow_succ, pow_succ, Int64.ofInt_mul, ih, Int64.ofInt_toInt]

/-- The power of an integer with an exponent that is not negative, modulo two to the power 64. -/
theorem call_pow_eq_ofInt (s : Surroundings) (b e : Int64) (he : 0 ≤ e) :
    Catalog.standard.call? "pow" s [b, e] =
      some (s, .ok (Int64.ofInt (b.toInt ^ e.toInt.toNat))) := by
  have hcall : Catalog.standard.call? "pow" s [b, e] = some (s, pow b e) := rfl
  have hsign : ¬ e < 0 := Int64.not_lt.mpr he
  rw [hcall, pow, if_neg hsign, powFrom_eq, Int64.one_mul, pow_eq_ofInt]

/-- A power that has long left the 64 bits. -/
theorem call_pow_eq_ofInt_negative : (0 : Int64) ≤ 41 ∧
    Catalog.standard.call? "pow" {} [-3, 41] = some ({}, .ok 420491770248316829) :=
  ⟨by decide, call_pow_eq_ofInt {} (-3) 41 (by decide)⟩

/-! ## Common divisors -/

/-- How many divisions it takes to find the greatest common divisor by remainders. -/
def divisions (m n : Nat) : Nat := if n = 0 then 0 else divisions n (m % n) + 1
termination_by n
decreasing_by exact Nat.mod_lt m (Nat.pos_of_ne_zero ‹_›)

theorem natAbs_gcdFrom (a b : Int64) :
    (gcdFrom a b).toInt.natAbs = a.toInt.natAbs.gcd b.toInt.natAbs := by
  fun_induction gcdFrom a b with
  | case1 a => simp
  | case2 a b hb ih =>
    rw [ih, Int64.toInt_mod, Int.natAbs_tmod, Nat.gcd_comm, ← Nat.gcd_rec, Nat.gcd_comm]

theorem natAbs_eq_zero_iff {x : Int64} : x.toInt.natAbs = 0 ↔ x = 0 := by
  rw [Int.natAbs_eq_zero, ← Int64.toInt_inj, Int64.toInt_zero]

/-- A remainder has the sign of the number that was divided, unless it is zero. -/
theorem nonneg_mod_iff {a b : Int64} (h : a % b ≠ 0) : 0 ≤ (a % b).toInt ↔ 0 ≤ a.toInt := by
  have hne : ¬ b.toInt ∣ a.toInt := by
    intro hdvd
    refine h (Int64.toInt_inj.mp ?_)
    rw [Int64.toInt_mod, Int.tmod_eq_zero_of_dvd hdvd, Int64.toInt_zero]
  have hsign : (a % b).toInt.sign = a.toInt.sign := by
    rw [Int64.toInt_mod, Int.sign_tmod, if_neg hne]
  rw [← Int.sign_nonneg_iff, hsign, Int.sign_nonneg_iff]

/-- The signs of the remainders alternate between those of the two arguments, so that the number of
divisions decides which of them the result has. -/
theorem nonneg_gcdFrom_iff (a b : Int64) : 0 ≤ (gcdFrom a b).toInt ↔
    0 ≤ (if Even (divisions a.toInt.natAbs b.toInt.natAbs) then a else b).toInt := by
  fun_induction gcdFrom a b with
  | case1 a => simp [divisions]
  | case2 a b hb ih =>
    have hstep : divisions a.toInt.natAbs b.toInt.natAbs =
        divisions b.toInt.natAbs (a % b).toInt.natAbs + 1 := by
      rw [divisions, if_neg (mt natAbs_eq_zero_iff.mp hb), Int64.toInt_mod, Int.natAbs_tmod]
    rw [ih, hstep]
    by_cases heven : Even (divisions b.toInt.natAbs (a % b).toInt.natAbs)
    · rw [if_pos heven, if_neg (Nat.even_add_one.not_left.mpr heven)]
    · rw [if_neg heven, if_pos (Nat.even_add_one.mpr heven)]
      -- the remainder is not zero, because a division by it follows
      refine nonneg_mod_iff fun hzero => heven ?_
      rw [divisions, if_pos (natAbs_eq_zero_iff.mpr hzero)]
      exact Even.zero

theorem toInt_abs {x : Int64} (h : x ≠ Int64.minValue) : (abs x).toInt = |x.toInt| := by
  have hleast : Int64.minValue.toInt = -2 ^ 63 := rfl
  have hne : x.toInt ≠ -2 ^ 63 := fun heq => h (Int64.toInt_inj.mp (heq.trans hleast.symm))
  have hlow := x.le_toInt
  have hhigh := x.toInt_lt
  rw [abs]
  split
  case isTrue hneg =>
    rw [Int64.lt_iff_toInt_lt, Int64.toInt_zero] at hneg
    rw [abs_of_neg hneg, Int64.toInt_neg, Int.bmod_eq_of_le (by omega) (by omega)]
  case isFalse hneg =>
    rw [Int64.lt_iff_toInt_lt, Int64.toInt_zero] at hneg
    rw [abs_of_nonneg (by omega)]

theorem natAbs_abs (x : Int64) : (abs x).toInt.natAbs = x.toInt.natAbs := by
  by_cases h : x = Int64.minValue
  · subst h
    rfl
  · rw [toInt_abs h, Int.natAbs_abs]

/-- Only the least integer has no absolute value. -/
theorem nonneg_abs_iff (x : Int64) : 0 ≤ (abs x).toInt ↔ x ≠ Int64.minValue := by
  by_cases h : x = Int64.minValue
  · subst h
    decide
  · rw [toInt_abs h]
    exact iff_of_true (abs_nonneg _) h

theorem natAbs_gcd (a b : Int64) : (gcd a b).toInt.natAbs = Int.gcd a.toInt b.toInt := by
  rw [gcd, natAbs_gcdFrom, natAbs_abs, natAbs_abs, Int.gcd]

/-- The greatest common divisor is found up to its sign, and with its sign unless the argument that
the number of divisions selects is the least integer. -/
theorem call_gcd_eq_iff (s : Surroundings) (a b : Int64) :
    ∃ g, Catalog.standard.call? "gcd" s [a, b] = some (s, .ok g) ∧
      g.toInt.natAbs = Int.gcd a.toInt b.toInt ∧
      (g.toInt = Int.gcd a.toInt b.toInt ↔
        (if Even (divisions a.toInt.natAbs b.toInt.natAbs) then a else b) ≠ Int64.minValue) := by
  refine ⟨gcd a b, rfl, natAbs_gcd a b, ?_⟩
  have hsign : 0 ≤ (gcd a b).toInt ↔
      (if Even (divisions a.toInt.natAbs b.toInt.natAbs) then a else b) ≠ Int64.minValue := by
    rw [gcd, nonneg_gcdFrom_iff, natAbs_abs, natAbs_abs, ← nonneg_abs_iff, apply_ite abs]
  rw [← hsign, ← natAbs_gcd]
  omega

/-- The greatest common divisor of the least integer and six is two, and minus two is found. -/
theorem call_gcd_negative : ¬ ∀ (s : Surroundings) (a b : Int64),
    (Int.gcd a.toInt b.toInt : Int) < 2 ^ 63 →
    ∃ g, Catalog.standard.call? "gcd" s [a, b] = some (s, .ok g) ∧
      g.toInt = Int.gcd a.toInt b.toInt := by
  intro h
  have hgcd : Int.gcd Int64.minValue.toInt (6 : Int64).toInt = 2 := by decide +kernel
  obtain ⟨g, hcall, hg⟩ := h {} Int64.minValue 6 (by rw [hgcd]; decide)
  have hfound : gcd Int64.minValue 6 = -2 := by decide +kernel
  have hanswer : Catalog.standard.call? "gcd" {} [Int64.minValue, 6] =
      some ({}, .ok (gcd Int64.minValue 6)) := rfl
  rw [hanswer, hfound] at hcall
  cases hcall
  rw [hgcd] at hg
  exact absurd hg (by decide)

end Native

end WasmLisp
