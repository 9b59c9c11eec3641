import WasmLisp.Registry
import WasmLisp.Target

/-!
Native libraries: foreign functions and data symbols that the program itself provides, and the
catalog in which symbols are looked up that nothing else provides.
-/

namespace WasmLisp

namespace Native

open Registry (Foreign Library)

/-- A function of one argument. -/
def fn1 (name doc : String) (f : Int64 → Except String Int64) : Foreign :=
  { name, kind := .function, arity := 1, doc, fn := some fun s args => (s, f (args.headD 0)) }

/-- A function of two arguments. -/
def fn2 (name doc : String) (f : Int64 → Int64 → Except String Int64) : Foreign :=
  { name, kind := .function, arity := 2, doc
    fn := some fun s args => (s, f (args.headD 0) (args.tail.headD 0)) }

/-- A data symbol that starts at zero. -/
def datum (name doc : String) : Foreign := { name, kind := .data, doc }

/-- The absolute value; that of the least integer is the least integer. -/
def abs (x : Int64) : Int64 := if x < 0 then -x else x

/-- Support for every program: shared data, output and simple arithmetic. -/
def core : Library where
  name := "core"
  symbols :=
    [datum "rt_context" "shared runtime context",
     datum "counter" "shared counter",
     { name := "print", kind := .function, arity := 1, doc := "write x and return it"
       fn := some fun s args =>
         let x := args.headD 0
         ({ s with printed := s.printed ++ toString x.toInt ++ "\n" }, .ok x) },
     fn1 "abs" "absolute value" fun x => .ok (abs x),
     fn2 "max" "larger of a and b" fun a b => .ok (if a < b then b else a),
     fn2 "min" "smaller of a and b" fun a b => .ok (if b < a then b else a)]

/-- Square and multiply: `result * b ^ e`, the bits of `e` from the lowest on. -/
def powFrom (result b : Int64) (e : Nat) : Int64 :=
  if e = 0 then result
  else powFrom (if e % 2 = 1 then result * b else result) (b * b) (e / 2)

/-- A power of an integer, modulo two to the power 64. -/
def pow (b e : Int64) : Except String Int64 :=
  if e < 0 then .error s!"pow: negative exponent {e.toInt}" else .ok (powFrom 1 b e.toInt.toNat)

theorem natAbs_mod_lt (a b : Int64) (h : b ≠ 0) : (a % b).toInt.natAbs < b.toInt.natAbs := by
  have hb : b.toInt ≠ 0 := by
    intro h'
    exact h (Int64.toInt_inj.mp (by simpa using h'))
  rw [Int64.toInt_mod, Int.natAbs_tmod]
  exact Nat.mod_lt _ (Int.natAbs_pos.mpr hb)

/-- Remainders until one is zero. -/
def gcdFrom (a b : Int64) : Int64 :=
  if _h : b = 0 then a else gcdFrom b (a % b)
termination_by b.toInt.natAbs
decreasing_by exact natAbs_mod_lt a b _h

/-- The greatest common divisor. -/
def gcd (a b : Int64) : Int64 := gcdFrom (abs a) (abs b)

/-- An estimate of a square root: it can divide, and as it is at most two to the power 32, it can be
added to a quotient that is less than itself. -/
structure Estimate where
  value : Int64
  pos : 0 < value.toInt
  le : value.toInt ≤ 4294967296

/-- One round of Newton's iteration for the square root of `x`: the mean of the estimate `r` and of
the quotient by it. -/
def newton (x r : Int64) : Int64 := (r + x / r) / 2

/-! Up to the first estimate that is not above the quotient by it, the arithmetic of a round is that
of the integers. -/

theorem toInt_quotient {x r : Int64} (hx : 0 < x.toInt) (hr : 0 < r.toInt) :
    (x / r).toInt = x.toInt / r.toInt := by
  have hne : r ≠ -1 := by
    intro h
    subst h
    exact absurd hr (by decide)
  rw [Int64.toInt_div_of_ne_right x r hne, Int.tdiv_eq_ediv_of_nonneg (Int.le_of_lt hx)]

theorem Estimate.quotient_nonneg {x : Int64} (r : Estimate) (hx : 0 < x.toInt) :
    0 ≤ x.toInt / r.value.toInt :=
  Int.ediv_nonneg (Int.le_of_lt hx) (Int.le_of_lt r.pos)

theorem toInt_sum {x : Int64} {r : Estimate} (hx : 0 < x.toInt) (h : x / r.value < r.value) :
    (r.value + x / r.value).toInt = r.value.toInt + x.toInt / r.value.toInt := by
  have hquotient := toInt_quotient hx r.pos
  have hpos := r.quotient_nonneg hx
  have hle := r.le
  rw [Int64.lt_iff_toInt_lt] at h
  rw [Int64.toInt_add, hquotient, Int.bmod_eq_of_le (by omega) (by omega)]

theorem toInt_newton {x : Int64} {r : Estimate} (hx : 0 < x.toInt) (h : x / r.value < r.value) :
    (newton x r.value).toInt = (r.value.toInt + x.toInt / r.value.toInt) / 2 := by
  have hpos := r.quotient_nonneg hx
  have hrpos := r.pos
  rw [newton, Int64.toInt_div_of_ne_right _ _ (by decide), toInt_sum hx h]
  exact Int.tdiv_eq_ediv_of_nonneg (by omega)

/-- A round that goes on leads to a positive estimate, and to a lesser one. -/
theorem newton_bounds {x : Int64} {r : Estimate} (hx : 0 < x.toInt) (h : x / r.value < r.value) :
    0 < (newton x r.value).toInt ∧ (newton x r.value).toInt < r.value.toInt := by
  have hround := toInt_newton hx h
  have hpos := r.quotient_nonneg hx
  have hrpos := r.pos
  rw [Int64.lt_iff_toInt_lt, toInt_quotient hx r.pos] at h
  -- the estimate is not one, because the quotient by one is not less than one
  have hne : r.value.toInt ≠ 1 := by
    intro hone
    rw [hone, Int.ediv_one] at h
    omega
  omega

/-- The estimate after one round. -/
def Estimate.next {x : Int64} (r : Estimate) (hx : 0 < x.toInt) (h : x / r.value < r.value) :
    Estimate where
  value := newton x r.value
  pos := (newton_bounds hx h).1
  le := Int.le_trans (Int.le_of_lt (newton_bounds hx h).2) r.le

/-- Newton's iteration downwards from an estimate, for as long as it is above the quotient by it. -/
def isqrtFrom (x : Int64) (hx : 0 < x.toInt) (r : Estimate) : Int64 :=
  if h : x / r.value < r.value then isqrtFrom x hx (r.next hx h) else r.value
termination_by r.value.toInt.toNat
decreasing_by
  have hbounds := newton_bounds hx h
  simp only [Estimate.next]
  omega

/-- The number of binary digits. -/
def bitLength (n : Nat) : Nat := if n = 0 then 0 else bitLength (n / 2) + 1

theorem bitLength_le {n k : Nat} (h : n < Nat.pow 2 k) : bitLength n ≤ k := by
  induction k generalizing n with
  | zero =>
    obtain rfl : n = 0 := Nat.lt_one_iff.mp h
    exact Nat.le_of_eq (by rw [bitLength, if_pos rfl])
  | succ k ih =>
    have hdouble : Nat.pow 2 (k + 1) = Nat.pow 2 k * 2 := rfl
    rw [bitLength]
    split
    · exact Nat.zero_le _
    · exact Nat.succ_le_succ (ih (by omega))

/-- A power of two that is not below the square root of `x`, from which the iteration starts. -/
def firstEstimate (x : Int64) : Int64 :=
  Int64.ofNat (Nat.pow 2 ((bitLength x.toInt.toNat + 1) / 2))

/-- Every integer of 64 bits has a first estimate that is small. -/
theorem two_pow_le (x : Int64) : Nat.pow 2 ((bitLength x.toInt.toNat + 1) / 2) ≤ 4294967296 := by
  have hlt : x.toInt.toNat < Nat.pow 2 63 := by
    have hx := x.toInt_lt
    have hpow : Nat.pow 2 63 = 9223372036854775808 := rfl
    omega
  have hbits := bitLength_le hlt
  exact Nat.pow_le_pow_right (n := 2) (j := 32) (by decide) (by omega)

theorem toInt_firstEstimate (x : Int64) :
    (firstEstimate x).toInt = Nat.pow 2 ((bitLength x.toInt.toNat + 1) / 2) := by
  have hle := two_pow_le x
  exact Int64.toInt_ofNat_of_lt (by omega)

/-- Where the iteration for `x` starts. -/
def Estimate.first (x : Int64) : Estimate where
  value := firstEstimate x
  pos := by
    rw [toInt_firstEstimate]
    exact Int.natCast_pos.mpr (Nat.two_pow_pos _)
  le := by
    rw [toInt_firstEstimate]
    exact Int.ofNat_le.mpr (two_pow_le x)

theorem toInt_pos {x : Int64} (hneg : ¬ x < 0) (hzero : x ≠ 0) : 0 < x.toInt := by
  have hne : x.toInt ≠ 0 := fun h => hzero (Int64.toInt_inj.mp (by simpa using h))
  rw [Int64.lt_iff_toInt_lt, Int64.toInt_zero] at hneg
  omega

/-- The integer square root. -/
def isqrt (x : Int64) : Except String Int64 :=
  if hneg : x < 0 then .error s!"isqrt: negative argument {x.toInt}"
  else if hzero : x = 0 then .ok 0
  else .ok (isqrtFrom x (toInt_pos hneg hzero) (.first x))

/-- Integer routines that the primitives do not offer. -/
def math : Library where
  name := "math"
  symbols :=
    [fn2 "pow" "b raised to e" pow,
     fn2 "gcd" "greatest common divisor" fun a b => .ok (gcd a b),
     fn1 "isqrt" "integer square root" isqrt]

/-- The clock in milliseconds. -/
def time : Library where
  name := "time"
  symbols :=
    [{ name := "now_ms", kind := .function, arity := 0, doc := "unix time in milliseconds"
       fn := some fun s _ => (s, .ok (Int64.ofInt s.now)) },
     { name := "since_ms", kind := .function, arity := 1, doc := "milliseconds elapsed since t"
       fn := some fun s args => (s, .ok (Int64.ofInt s.now - args.headD 0)) }]

end Native

open Registry (Foreign Library) in
/-- The native libraries that are available, in the order in which they are searched. -/
structure Catalog where
  libraries : List Library := []
  deriving Inhabited

namespace Catalog

open Registry (Foreign Library)

/-- Adds a library, in the place of one of the same name. -/
def add (c : Catalog) (lib : Library) : Catalog :=
  if c.libraries.any (·.name == lib.name) then
    { libraries := c.libraries.map fun l => if l.name == lib.name then lib else l }
  else { libraries := c.libraries ++ [lib] }

/-- The libraries that are always there. -/
def standard : Catalog := { libraries := [Native.core, Native.math, Native.time] }

/-- The library of a name. -/
def library? (c : Catalog) (name : String) : Option Library :=
  c.libraries.find? (·.name == name)

/-- The names of the libraries in order. -/
def names (c : Catalog) : List String := sortTexts (c.libraries.map (·.name))

/-- The first symbol of a name, and its library. -/
def lookup? (c : Catalog) (name : String) : Option (Foreign × String) :=
  c.libraries.findSome? fun lib =>
    (lib.symbols.find? (·.name == name)).map (·, lib.name)

end Catalog

end WasmLisp
