import Mathlib
import WasmLisp.Proofs.Native

/-!
# The integer square root

Newton's iteration comes down to the root from above. It never falls below the root, and each round
at least halves the distance that is left.

* `Settles`: the iteration comes to its end, and no operation on the way divides by zero or wraps
  around;
* `settles_isqrtFrom`: it does so from every estimate that is not below the root, and ends at the
  root;
* `call_isqrt`: so does the native function, whatever the first estimate has to be.
-/

namespace WasmLisp.Native

/-! ## The mean of an estimate and the quotient by it -/

theorem div_lt_iff_sqrt_lt {n r : Nat} (hr : 0 < r) : n / r < r ↔ Nat.sqrt n < r := by
  rw [Nat.div_lt_iff_lt_mul hr, Nat.sqrt_lt]

/-- The mean is not below the root. -/
theorem sqrt_le_mean {n r : Nat} (hr : 0 < r) : Nat.sqrt n ≤ (r + n / r) / 2 := by
  have hroot : Nat.sqrt n * Nat.sqrt n ≤ n := Nat.sqrt_le n
  have hquotient : 2 * Nat.sqrt n - r ≤ n / r := by
    rw [Nat.le_div_iff_mul_le hr]
    refine le_trans ?_ hroot
    -- the geometric mean is below the arithmetic mean
    rcases Nat.le_total (2 * Nat.sqrt n) r with hle | hle
    · simp [Nat.sub_eq_zero_of_le hle]
    · zify [hle]
      nlinarith [sq_nonneg ((Nat.sqrt n : ℤ) - r)]
  omega

/-- Above the root the mean is at most half as far from it. -/
theorem mean_le {n r : Nat} (h : Nat.sqrt n < r) : (r + n / r) / 2 ≤ (r + Nat.sqrt n) / 2 := by
  have hquotient : n / r ≤ Nat.sqrt n := by
    rw [← Nat.lt_succ_iff, Nat.div_lt_iff_lt_mul (by omega)]
    exact lt_of_lt_of_le (Nat.lt_succ_sqrt n) (Nat.mul_le_mul_left _ h)
  omega

/-! ## The first estimate -/

theorem lt_two_pow_bitLength (n : Nat) : n < 2 ^ bitLength n := by
  fun_induction bitLength n with
  | case1 => decide
  | case2 n hn ih =>
    rw [pow_succ]
    omega

/-- The root of a number has half as many digits, rounded up. -/
theorem sqrt_le_two_pow (n : Nat) : Nat.sqrt n ≤ 2 ^ ((bitLength n + 1) / 2) := by
  refine (Nat.sqrt_lt.mpr ?_).le
  calc n < 2 ^ bitLength n := lt_two_pow_bitLength n
    _ ≤ 2 ^ ((bitLength n + 1) / 2 + (bitLength n + 1) / 2) :=
      Nat.pow_le_pow_right (by decide) (by omega)
    _ = 2 ^ ((bitLength n + 1) / 2) * 2 ^ ((bitLength n + 1) / 2) := pow_add _ _ _

/-! ## The iteration -/

/-- The iteration for `x` from the estimate `r` ends with `root` after `n` rounds. On the way no
operation divides by zero, and the result of each is that of the integers. -/
inductive Settles (x : Int64) : Int64 → Nat → Int64 → Prop where
  | done {r : Int64} (hzero : r ≠ 0) (hquotient : (x / r).toInt = x.toInt / r.toInt)
    (htest : ¬ x / r < r) : Settles x r 0 r
  | round {r root : Int64} {n : Nat} (hzero : r ≠ 0)
    (hquotient : (x / r).toInt = x.toInt / r.toInt) (htest : x / r < r)
    (hsum : (r + x / r).toInt = r.toInt + (x / r).toInt)
    (hhalf : (newton x r).toInt = (r + x / r).toInt / 2)
    (hrest : Settles x (newton x r) n root) : Settles x r (n + 1) root

/-- The integer that an estimate is. -/
def Estimate.toNat (r : Estimate) : Nat := r.value.toInt.toNat

variable {x : Int64} {r : Estimate}

theorem Estimate.toNat_pos (r : Estimate) : 0 < r.toNat := by
  have hpos := r.pos
  rw [Estimate.toNat]
  omega

theorem Estimate.cast_toNat (r : Estimate) : (r.toNat : Int) = r.value.toInt :=
  Int.toNat_of_nonneg r.pos.le

theorem Estimate.ne_zero (r : Estimate) : r.value ≠ 0 := by
  intro h
  have hpos := r.pos
  rw [h] at hpos
  exact absurd hpos (by decide)

theorem toInt_quotient_estimate (hx : 0 < x.toInt) (r : Estimate) :
    (x / r.value).toInt = (x.toInt.toNat / r.toNat : Nat) := by
  rw [toInt_quotient hx r.pos, Int.natCast_ediv, Int.toNat_of_nonneg hx.le, r.cast_toNat]

/-- The iteration goes on exactly while the estimate is above the root. -/
theorem quotient_lt_iff (hx : 0 < x.toInt) (r : Estimate) :
    x / r.value < r.value ↔ Nat.sqrt x.toInt.toNat < r.toNat := by
  rw [Int64.lt_iff_toInt_lt, toInt_quotient_estimate hx, ← r.cast_toNat, Int.ofNat_lt,
    div_lt_iff_sqrt_lt r.toNat_pos]

theorem toNat_next (hx : 0 < x.toInt) (h : x / r.value < r.value) :
    (r.next hx h).toNat = (r.toNat + x.toInt.toNat / r.toNat) / 2 := by
  have hround := toInt_newton hx h
  rw [← toInt_quotient hx r.pos, toInt_quotient_estimate hx, ← r.cast_toNat] at hround
  rw [Estimate.toNat, Estimate.next, hround]
  generalize x.toInt.toNat / r.toNat = quotient
  omega

/-- An estimate from which there is no round is the root, unless it is below the root. -/
theorem settles_of_not_lt (hx : 0 < x.toInt) (hlow : Nat.sqrt x.toInt.toNat ≤ r.toNat)
    (h : ¬ x / r.value < r.value) :
    (isqrtFrom x hx r).toInt = Nat.sqrt x.toInt.toNat ∧
      Settles x r.value 0 (isqrtFrom x hx r) := by
  have hroot : r.toNat = Nat.sqrt x.toInt.toNat := by
    rw [quotient_lt_iff hx] at h
    omega
  rw [isqrtFrom, dif_neg h]
  exact ⟨by rw [← r.cast_toNat, hroot], .done r.ne_zero (toInt_quotient hx r.pos) h⟩

/-- From an estimate that is not below the root, and less than a power of two above it, the
iteration comes to the root in as many rounds as the exponent says. -/
theorem settles_isqrtFrom (hx : 0 < x.toInt) (r : Estimate) (m : Nat)
    (hlow : Nat.sqrt x.toInt.toNat ≤ r.toNat)
    (hhigh : r.toNat < Nat.sqrt x.toInt.toNat + 2 ^ m) :
    (isqrtFrom x hx r).toInt = Nat.sqrt x.toInt.toNat ∧
      ∃ n ≤ m, Settles x r.value n (isqrtFrom x hx r) := by
  induction m generalizing r with
  | zero =>
    have hend : ¬ x / r.value < r.value := by
      rw [quotient_lt_iff hx]
      omega
    obtain ⟨hroot, hsettles⟩ := settles_of_not_lt hx hlow hend
    exact ⟨hroot, 0, le_rfl, hsettles⟩
  | succ m ih =>
    by_cases h : x / r.value < r.value
    · have hnext := toNat_next hx h
      have hmean := sqrt_le_mean (n := x.toInt.toNat) r.toNat_pos
      have hhalved := mean_le ((quotient_lt_iff hx r).mp h)
      have hquotient := toInt_quotient hx r.pos
      have hsum := toInt_sum hx h
      have hhalf := toInt_newton hx h
      rw [← hquotient] at hsum hhalf
      rw [← hsum] at hhalf
      obtain ⟨hroot, n, hn, hsettles⟩ := ih (r.next hx h) (by omega) (by omega)
      rw [isqrtFrom, dif_pos h]
      exact ⟨hroot, n + 1, by omega, .round r.ne_zero hquotient h hsum hhalf hsettles⟩
    · obtain ⟨hroot, hsettles⟩ := settles_of_not_lt hx hlow h
      exact ⟨hroot, 0, Nat.zero_le _, hsettles⟩

theorem toNat_first (x : Int64) :
    (Estimate.first x).toNat = 2 ^ ((bitLength x.toInt.toNat + 1) / 2) := by
  rw [Estimate.toNat, Estimate.first, toInt_firstEstimate, Int.toNat_natCast, Nat.pow_eq]

/-! ## The native function -/

/-- The native function finds the root of an integer that is not negative, rounded down. The first
estimate of a positive integer is a power of two, and the iteration from there settles within 32
rounds. -/
theorem call_isqrt (s : Surroundings) (x : Int64) (hx : 0 ≤ x) :
    ∃ root, Catalog.standard.call? "isqrt" s [x] = some (s, .ok root) ∧ 0 ≤ root.toInt ∧
      root.toInt * root.toInt ≤ x.toInt ∧ x.toInt < (root.toInt + 1) * (root.toInt + 1) ∧
      (x ≠ 0 → (firstEstimate x).toInt = (2 ^ ((bitLength x.toInt.toNat + 1) / 2) : Nat) ∧
        ∃ n ≤ 32, Settles x (firstEstimate x) n root) := by
  have hcall : Catalog.standard.call? "isqrt" s [x] = some (s, isqrt x) := rfl
  have hneg : ¬ x < 0 := Int64.not_lt.mpr hx
  rw [hcall, isqrt, dif_neg hneg]
  by_cases hzero : x = 0
  · subst hzero
    exact ⟨0, rfl, by decide, by decide, by decide, fun h => absurd rfl h⟩
  · have hpos := toInt_pos hneg hzero
    have hlow := sqrt_le_two_pow x.toInt.toNat
    have hhigh : 2 ^ ((bitLength x.toInt.toNat + 1) / 2) < Nat.sqrt x.toInt.toNat + 2 ^ 32 := by
      have hroot : 0 < Nat.sqrt x.toInt.toNat := Nat.sqrt_pos.mpr (by omega)
      have hle := two_pow_le x
      rw [Nat.pow_eq] at hle
      omega
    rw [← toNat_first] at hlow hhigh
    obtain ⟨hroot, hsettles⟩ := settles_isqrtFrom hpos (.first x) 32 hlow hhigh
    have hcast : (x.toInt.toNat : Int) = x.toInt := Int.toNat_of_nonneg hpos.le
    refine ⟨_, by rw [dif_neg hzero], ?_, ?_, ?_, fun _ => ⟨toInt_firstEstimate x, hsettles⟩⟩
    · rw [hroot]
      exact Int.natCast_nonneg _
    · rw [hroot, ← hcast]
      exact_mod_cast Nat.sqrt_le x.toInt.toNat
    · rw [hroot, ← hcast]
      exact_mod_cast Nat.lt_succ_sqrt x.toInt.toNat

/-- The root of the greatest integer, whose upper neighbour has a square of more than 64 bits. -/
theorem call_isqrt_greatest : (0 : Int64) ≤ Int64.maxValue ∧
    Catalog.standard.call? "isqrt" {} [Int64.maxValue] = some ({}, .ok 3037000499) := by
  refine ⟨by decide, ?_⟩
  obtain ⟨root, hcall, hpos, hlow, hhigh, -⟩ := call_isqrt {} Int64.maxValue (by decide)
  have hmax : Int64.maxValue.toInt = 9223372036854775807 := rfl
  rw [hmax] at hlow hhigh
  have hroot : root.toInt = 3037000499 := by
    have hle : root.toInt ≤ 3037000499 := by nlinarith
    have hge : 3037000499 ≤ root.toInt := by nlinarith
    exact le_antisymm hle hge
  have hvalue : root = 3037000499 := Int64.toInt_inj.mp hroot
  rw [hcall, hvalue]

end WasmLisp.Native
