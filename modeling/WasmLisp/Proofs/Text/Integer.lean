import Mathlib
import WasmLisp.Text.Integer

/-!
# Integer literals

Which texts write an integer is said here sign by sign and digit by digit, without reading them:

* `Text.Literal`: the text writes the integer, underscores apart;
* `Text.int64?_eq_some_iff`: exactly these texts are read, and as the integer that they write;
* `Text.literal_toString`: the decimal text of an integer writes it.
-/

namespace WasmLisp.Text

/-! ## What a literal is -/

/-- The characters are digits of the base, the most significant one first, and write the number. -/
def Numeral (base : Nat) (cs : List Char) (n : Nat) : Prop :=
  ∃ ds : List Nat, List.Forall₂ (fun c d => digitValue? c = some d ∧ d < base) cs ds ∧
    n = Nat.ofDigits base ds.reverse

/-- The base that a mark after a leading zero stands for. -/
def markedBase? : Char → Option Nat
  | 'b' | 'B' => some 2
  | 'o' | 'O' => some 8
  | 'x' | 'X' => some 16
  | _ => none

/-- The characters write a number without a sign. -/
inductive Unsigned : List Char → Nat → Prop where
  | decimal {cs : List Char} {n : Nat} (hne : cs ≠ []) (hzero : cs.head? ≠ some '0')
    (h : Numeral 10 cs n) : Unsigned cs n
  /-- A zero alone is an octal number too, one without further digits. -/
  | octal {cs : List Char} {n : Nat} (h : Numeral 8 cs n) : Unsigned ('0' :: cs) n
  | marked {mark : Char} {base : Nat} {cs : List Char} {n : Nat}
    (hmark : markedBase? mark = some base) (hne : cs ≠ []) (h : Numeral base cs n) :
    Unsigned ('0' :: mark :: cs) n

/-- The characters write an integer. -/
inductive Signed : List Char → Int → Prop where
  | bare {cs : List Char} {n : Nat} (h : Unsigned cs n) : Signed cs n
  | plus {cs : List Char} {n : Nat} (h : Unsigned cs n) : Signed ('+' :: cs) n
  | minus {cs : List Char} {n : Nat} (h : Unsigned cs n) : Signed ('-' :: cs) (-n)

/-- The text without its underscores writes the integer, which has 64 bits. -/
def Literal (text : String) (v : Int64) : Prop := Signed (text.toList.filter (· ≠ '_')) v.toInt

/-- The text begins with a digit, or with a sign and a digit. -/
def Numeric (text : String) : Prop :=
  ∃ d rest, d.isDigit = true ∧
    (text.toList = d :: rest ∨ ∃ sign ∈ ['-', '+'], text.toList = sign :: d :: rest)

/-! ## Digits -/

theorem digitsFrom?_eq_some_iff {base acc n : Nat} {cs : List Char} :
    digitsFrom? base acc cs = some n ↔
      ∃ ds : List Nat, List.Forall₂ (fun c d => digitValue? c = some d ∧ d < base) cs ds ∧
        n = ds.foldl (fun a d => a * base + d) acc := by
  induction cs generalizing acc with
  | nil =>
    simp [digitsFrom?, eq_comm]
  | cons c cs ih =>
    simp only [digitsFrom?, Option.bind_eq_bind, Option.bind_eq_some_iff, List.forall₂_cons_left_iff]
    constructor
    · intro ⟨d, hd, h⟩
      by_cases hlt : d < base
      · rw [if_pos hlt] at h
        obtain ⟨ds, hds, hn⟩ := ih.mp h
        exact ⟨d :: ds, ⟨d, ds, ⟨hd, hlt⟩, hds, rfl⟩, hn⟩
      · rw [if_neg hlt] at h
        cases h
    · intro ⟨_, ⟨d, ds, ⟨hd, hlt⟩, hds, heq⟩, hn⟩
      subst heq
      exact ⟨d, hd, by rw [if_pos hlt]; exact ih.mpr ⟨ds, hds, hn⟩⟩

/-- To take digits in one after the other is to read them by their places. -/
theorem ofDigits_reverse (base : Nat) (ds : List Nat) :
    Nat.ofDigits base ds.reverse = ds.foldl (fun a d => a * base + d) 0 := by
  rw [Nat.ofDigits_eq_foldr, List.foldr_reverse]
  congr
  funext a d
  rw [Nat.add_comm, Nat.mul_comm]
  rfl

theorem digitsFrom?_zero_iff {base n : Nat} {cs : List Char} :
    digitsFrom? base 0 cs = some n ↔ Numeral base cs n := by
  rw [digitsFrom?_eq_some_iff]
  simp only [Numeral, ofDigits_reverse]

/-- A further digit. -/
theorem Numeral.snoc {base n d : Nat} {cs : List Char} {c : Char} (h : Numeral base cs n)
    (hc : digitValue? c = some d) (hd : d < base) : Numeral base (cs ++ [c]) (n * base + d) := by
  obtain ⟨ds, hds, rfl⟩ := h
  refine ⟨ds ++ [d], List.rel_append hds (.cons ⟨hc, hd⟩ .nil), ?_⟩
  rw [ofDigits_reverse, ofDigits_reverse, List.foldl_append]
  rfl

theorem Numeral.head {base n : Nat} {c : Char} {cs : List Char} (h : Numeral base (c :: cs) n) :
    ∃ d, digitValue? c = some d ∧ d < base := by
  obtain ⟨ds, hds, -⟩ := h
  cases hds with
  | cons hd _ => exact ⟨_, hd⟩

/-! ## Literals are what is read -/

/-- Marks are letters, which are no octal digits. -/
theorem eight_le_mark {mark : Char} {base : Nat} (h : markedBase? mark = some base) :
    ∃ d, digitValue? mark = some d ∧ 8 ≤ d := by
  unfold markedBase? at h
  split at h
  case h_7 => cases h
  all_goals exact ⟨_, rfl, by decide⟩

theorem splitBase_marked {mark : Char} {base : Nat} {cs : List Char}
    (hmark : markedBase? mark = some base) (hne : cs ≠ []) :
    splitBase ('0' :: mark :: cs) = (base, cs) := by
  obtain ⟨d, rest, rfl⟩ := List.exists_cons_of_ne_nil hne
  unfold markedBase? at hmark
  split at hmark <;> cases hmark <;> rfl

/-- Without a mark, or with nothing behind it, the leading zero makes the base. -/
theorem splitBase_octal {cs : List Char}
    (h : ∀ mark rest, cs = mark :: rest → rest ≠ [] → markedBase? mark = none) :
    splitBase ('0' :: cs) = (8, cs) := by
  match cs, h with
  | [], _ => rfl
  | [mark], _ => rfl
  | mark :: d :: rest, h =>
    have hnone := h mark (d :: rest) rfl (List.cons_ne_nil _ _)
    have hb : ¬ (mark = 'b' ∨ mark = 'B') := by
      rintro (rfl | rfl) <;> cases hnone
    have ho : ¬ (mark = 'o' ∨ mark = 'O') := by
      rintro (rfl | rfl) <;> cases hnone
    have hx : ¬ (mark = 'x' ∨ mark = 'X') := by
      rintro (rfl | rfl) <;> cases hnone
    simp only [splitBase, Bool.or_eq_true, decide_eq_true_eq, if_neg hb, if_neg ho, if_neg hx]

theorem splitBase_decimal {cs : List Char} (h : cs.head? ≠ some '0') :
    splitBase cs = (10, cs) := by
  unfold splitBase
  split
  · exact absurd rfl h
  · exact absurd rfl h
  · rfl

theorem magnitude?_eq {cs : List Char} (h : cs ≠ []) :
    magnitude? cs = digitsFrom? (splitBase cs).1 0 (splitBase cs).2 := by
  rw [magnitude?, if_neg (by simpa using h)]

theorem magnitude?_eq_some_iff {cs : List Char} {n : Nat} :
    magnitude? cs = some n ↔ Unsigned cs n := by
  constructor
  · intro h
    have hne : cs ≠ [] := by
      rintro rfl
      cases h
    rw [magnitude?_eq hne] at h
    by_cases hzero : cs.head? = some '0'
    · obtain ⟨rest, rfl⟩ := List.head?_eq_some_iff.mp hzero
      -- a leading zero: with a mark and digits behind it, or an octal number
      by_cases hmarked : ∃ mark more base, rest = mark :: more ∧ more ≠ [] ∧
          markedBase? mark = some base
      · obtain ⟨mark, more, base, rfl, hmore, hmark⟩ := hmarked
        rw [splitBase_marked hmark hmore, digitsFrom?_zero_iff] at h
        exact .marked hmark hmore h
      · rw [splitBase_octal, digitsFrom?_zero_iff] at h
        · exact .octal h
        · intro mark more hrest hmore
          by_contra hmark
          obtain ⟨base, hbase⟩ := Option.ne_none_iff_exists'.mp hmark
          exact hmarked ⟨mark, more, base, hrest, hmore, hbase⟩
    · rw [splitBase_decimal hzero, digitsFrom?_zero_iff] at h
      exact .decimal hne hzero h
  · intro h
    cases h with
    | decimal hne hzero h =>
      rw [magnitude?_eq hne, splitBase_decimal hzero, digitsFrom?_zero_iff]
      exact h
    | @octal cs _ h =>
      rw [magnitude?_eq (List.cons_ne_nil _ _), splitBase_octal, digitsFrom?_zero_iff]
      · exact h
      · intro mark rest hcs _
        subst hcs
        by_contra hmark
        obtain ⟨base, hbase⟩ := Option.ne_none_iff_exists'.mp hmark
        obtain ⟨d, hd, hle⟩ := eight_le_mark hbase
        obtain ⟨d', hd', hlt⟩ := h.head
        rw [hd] at hd'
        cases hd'
        omega
    | marked hmark hne h =>
      rw [magnitude?_eq (List.cons_ne_nil _ _), splitBase_marked hmark hne, digitsFrom?_zero_iff]
      exact h

/-- A number begins with a digit. -/
theorem Unsigned.head {cs : List Char} {n : Nat} (h : Unsigned cs n) :
    ∃ c rest d, cs = c :: rest ∧ digitValue? c = some d := by
  cases h with
  | decimal hne _ h =>
    obtain ⟨c, rest, rfl⟩ := List.exists_cons_of_ne_nil hne
    obtain ⟨d, hd, -⟩ := h.head
    exact ⟨c, rest, d, rfl, hd⟩
  | octal => exact ⟨_, _, 0, rfl, rfl⟩
  | marked => exact ⟨_, _, 0, rfl, rfl⟩

theorem splitSign_of_unsigned {cs : List Char} {n : Nat} (h : Unsigned cs n) :
    splitSign cs = (false, cs) := by
  obtain ⟨c, rest, d, rfl, hd⟩ := h.head
  unfold splitSign
  split
  · rename_i heq
    cases heq
    cases hd
  · rename_i heq
    cases heq
    cases hd
  · rfl

/-- A sign, if there is one, and the number behind it. -/
theorem signed_iff {cs : List Char} {v : Int} :
    Signed cs v ↔ ∃ n, Unsigned (splitSign cs).2 n ∧
      v = if (splitSign cs).1 then - Int.ofNat n else Int.ofNat n := by
  constructor
  · intro h
    cases h with
    | @bare cs n h =>
      rw [splitSign_of_unsigned h]
      exact ⟨n, h, rfl⟩
    | plus h => exact ⟨_, h, rfl⟩
    | minus h => exact ⟨_, h, rfl⟩
  · rintro ⟨n, h, rfl⟩
    unfold splitSign at h ⊢
    split at h
    · exact .minus h
    · exact .plus h
    · exact .bare h

/-- Exactly the literals are read. -/
theorem int64?_eq_some_iff {text : String} {v : Int64} :
    int64? text = some v ↔ Literal text v := by
  rw [Literal, signed_iff]
  simp only [int64?, Option.bind_eq_bind, Option.bind_eq_some_iff, magnitude?_eq_some_iff]
  refine exists_congr fun n => and_congr_right fun _ => ?_
  generalize (if (splitSign (text.toList.filter (· ≠ '_'))).1 then - Int.ofNat n
    else Int.ofNat n) = value
  constructor
  · intro h
    split at h
    · rename_i hrange
      cases h
      simp only [Bool.and_eq_true, decide_eq_true_eq] at hrange
      refine Int64.toInt_ofInt_of_le ?_ ?_
      · exact hrange.1
      · exact Int.lt_of_le_sub_one hrange.2
    · cases h
  · rintro rfl
    have hle : Int64.minValue.toInt ≤ v.toInt ∧ v.toInt ≤ Int64.maxValue.toInt :=
      ⟨v.minValue_le_toInt, v.toInt_le⟩
    rw [if_pos (by simpa using hle), Int64.ofInt_toInt]

/-! ## Numeric texts -/

theorem looksNumeric_iff {text : String} : looksNumeric text = true ↔ Numeric text := by
  unfold looksNumeric Numeric
  split
  · rename_i c d rest heq
    rw [heq]
    by_cases hsign : c = '-' ∨ c = '+'
    · rw [if_pos (by simpa using hsign)]
      constructor
      · intro hd
        exact ⟨d, rest, hd, .inr ⟨c, by simpa using hsign, rfl⟩⟩
      · rintro ⟨d', rest', hd, h | ⟨sign, -, h⟩⟩
        · -- a sign is no digit
          cases h
          rcases hsign with rfl | rfl <;> cases hd
        · cases h
          exact hd
    · rw [if_neg (by simpa using hsign)]
      constructor
      · intro hc
        exact ⟨c, d :: rest, hc, .inl rfl⟩
      · rintro ⟨d', rest', hd, h | ⟨sign, hmem, h⟩⟩
        · cases h
          exact hd
        · cases h
          exact absurd (by simpa using hmem) hsign
  · rename_i c heq
    rw [heq]
    constructor
    · intro hc
      exact ⟨c, [], hc, .inl rfl⟩
    · rintro ⟨d, rest, hd, h | ⟨sign, -, h⟩⟩
      · cases h
        exact hd
      · cases h
  · rename_i heq
    rw [heq]
    constructor
    · intro h
      cases h
    · rintro ⟨d, rest, -, h | ⟨sign, -, h⟩⟩ <;> cases h

/-! ## Decimal texts -/

theorem digitValue?_digitChar {d : Nat} (h : d < 10) : digitValue? d.digitChar = some d := by
  interval_cases d <;> rfl

/-- The decimal digits of a number write it, and begin with a zero only if it is zero. -/
theorem numeral_toDigits (n : Nat) :
    Numeral 10 (Nat.toDigits 10 n) n ∧ (n ≠ 0 → (Nat.toDigits 10 n).head? ≠ some '0') := by
  induction n using Nat.strong_induction_on with
  | _ n ih =>
    by_cases hlt : n < 10
    · have hnil : Numeral 10 [] 0 := ⟨[], .nil, rfl⟩
      have hone := hnil.snoc (digitValue?_digitChar hlt) hlt
      rw [Nat.toDigits_of_lt_base hlt]
      refine ⟨by simpa using hone, fun hne => ?_⟩
      interval_cases n <;> simp_all [Nat.digitChar]
    · have hle : 10 ≤ n := Nat.le_of_not_lt hlt
      obtain ⟨hnumeral, hhead⟩ := ih (n / 10) (Nat.div_lt_self (by omega) (by omega))
      have hmod : n % 10 < 10 := Nat.mod_lt _ (by omega)
      rw [Nat.toDigits_of_base_le (by omega) hle]
      constructor
      · have hsnoc := hnumeral.snoc (digitValue?_digitChar hmod) hmod
        rwa [Nat.div_add_mod'] at hsnoc
      · -- the first digit is that of the number without its last one
        intro _
        rw [List.head?_append_of_ne_nil _ Nat.toDigits_ne_nil]
        exact hhead (by omega)

theorem unsigned_toDigits (n : Nat) : Unsigned (Nat.toDigits 10 n) n := by
  by_cases hn : n = 0
  · subst hn
    exact .octal ⟨[], .nil, rfl⟩
  · obtain ⟨hnumeral, hhead⟩ := numeral_toDigits n
    exact .decimal Nat.toDigits_ne_nil (hhead hn) hnumeral

/-- The decimal text of an integer: its digits, after a minus if it is negative. -/
theorem toList_toString (i : Int) :
    (toString i).toList =
      if 0 ≤ i then Nat.toDigits 10 i.toNat else '-' :: Nat.toDigits 10 (-i).toNat := by
  rw [Int.toString_eq_repr, Int.repr_eq_if]
  split
  · exact Nat.toList_repr
  · rw [String.toList_append, Nat.toList_repr]
    rfl

/-- The decimal text of an integer consists of digits and a sign. -/
theorem mem_toString {i : Int} {c : Char} (h : c ∈ (toString i).toList) :
    c = '-' ∨ c.isDigit = true := by
  rw [toList_toString] at h
  split at h
  · exact .inr (Nat.isDigit_of_mem_toDigits (by decide) (by decide) h)
  · rcases List.mem_cons.mp h with rfl | h
    · exact .inl rfl
    · exact .inr (Nat.isDigit_of_mem_toDigits (by decide) (by decide) h)

theorem literal_toString (v : Int64) : Literal (toString v.toInt) v := by
  have hclean : (toString v.toInt).toList.filter (· ≠ '_') = (toString v.toInt).toList := by
    rw [List.filter_eq_self]
    intro c hc
    rcases mem_toString hc with rfl | hdigit
    · decide
    · rw [decide_eq_true_eq]
      rintro rfl
      cases hdigit
  rw [Literal, hclean, toList_toString]
  split
  · rename_i hle
    have hbare := Signed.bare (unsigned_toDigits v.toInt.toNat)
    rwa [Int.toNat_of_nonneg hle] at hbare
  · rename_i hlt
    have hminus := Signed.minus (unsigned_toDigits (-v.toInt).toNat)
    rwa [Int.toNat_of_nonneg (by omega), Int.neg_neg] at hminus

theorem numeric_toString (i : Int) : Numeric (toString i) := by
  have hhead : ∀ n, ∃ d rest, d.isDigit = true ∧ Nat.toDigits 10 n = d :: rest := by
    intro n
    obtain ⟨d, rest, heq⟩ := List.exists_cons_of_ne_nil (Nat.toDigits_ne_nil (n := n) (b := 10))
    have hmem : d ∈ Nat.toDigits 10 n := by
      rw [heq]
      exact List.mem_cons_self
    exact ⟨d, rest, Nat.isDigit_of_mem_toDigits (by decide) (by decide) hmem, heq⟩
  rw [Numeric, toList_toString]
  split
  · obtain ⟨d, rest, hd, heq⟩ := hhead i.toNat
    exact ⟨d, rest, hd, .inl heq⟩
  · obtain ⟨d, rest, hd, heq⟩ := hhead (-i).toNat
    exact ⟨d, rest, hd, .inr ⟨'-', by simp, by rw [heq]⟩⟩

end WasmLisp.Text
