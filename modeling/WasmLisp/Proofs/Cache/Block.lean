import Mathlib
import WasmLisp.Cache.Block

/-!
# Compressed blocks

* `Block.decode?_encode`: whatever is decoded from a block that was written is what it was written
  from, and this has less than 4 GiB.
-/

namespace WasmLisp.Block

/-! ## The size -/

theorem readVarint_varint {n left shift acc k : Nat} {rest rest' : List UInt8}
    (h : readVarint left shift acc (varint n ++ rest) = some (k, rest')) :
    k = acc + n * 2 ^ shift ∧ rest' = rest := by
  induction n using Nat.strongRecOn generalizing left shift acc with
  | _ n ih =>
    rw [varint] at h
    by_cases hn : n < 128
    · rw [if_pos hn, List.cons_append, List.nil_append, readVarint.eq_def] at h
      have hb : (UInt8.ofNat n).toNat = n := by
        rw [UInt8.toNat_ofNat', Nat.mod_eq_of_lt (by omega)]
      cases left with
      | zero => cases h
      | succ left =>
        simp only [hb, hn, if_true, Nat.mod_eq_of_lt hn, Option.some.injEq, Prod.mk.injEq] at h
        exact ⟨h.1.symm, h.2.symm⟩
    · rw [if_neg hn, List.cons_append, readVarint.eq_def] at h
      have hb : (UInt8.ofNat (n % 128 + 128)).toNat = n % 128 + 128 := by
        rw [UInt8.toNat_ofNat', Nat.mod_eq_of_lt (by omega)]
      cases left with
      | zero => cases h
      | succ left =>
        simp only [hb, show ¬ n % 128 + 128 < 128 by omega, if_false, Nat.add_mod_right,
          Nat.mod_mod] at h
        obtain ⟨hk, hrest⟩ := ih (n / 128) (by omega) h
        refine ⟨?_, hrest⟩
        rw [hk, Nat.pow_eq, pow_add, Nat.add_assoc]
        congr 1
        calc n % 128 * 2 ^ shift + n / 128 * (2 ^ shift * 2 ^ 7)
            = (n % 128 + 128 * (n / 128)) * 2 ^ shift := by ring
          _ = n * 2 ^ shift := by rw [Nat.mod_add_div]

/-! ## Literals -/

/-- The tag of a literal element and the bytes of its length. -/
def literalHead (n : Nat) : UInt8 × List UInt8 :=
  if n < 60 then (UInt8.ofNat (n * 4), [])
  else if n < 256 then (60 * 4, [UInt8.ofNat n])
  else (61 * 4, [UInt8.ofNat (n % 256), UInt8.ofNat (n / 256)])

theorem literals_cons (b : UInt8) (rest : List UInt8) :
    literals (b :: rest) =
      (literalHead (rest.take (chunk - 1)).length).1 ::
        ((literalHead (rest.take (chunk - 1)).length).2 ++ b :: rest.take (chunk - 1) ++
          literals (rest.drop (chunk - 1))) := by
  rw [literals]
  simp only [List.length_cons, Nat.add_sub_cancel]
  unfold literalHead
  split_ifs <;> simp

/-- The tag of a literal element holds its length, or says in how many bytes that follows. -/
theorem literalHead_length {n : Nat} (hn : n < 65536) (rest : List UInt8) :
    (literalHead n).1.toNat % 4 = 0 ∧
      ((literalHead n).1.toNat / 4 < 60 ∧ (literalHead n).1.toNat / 4 = n ∧
          (literalHead n).2 = [] ∨
        ¬ (literalHead n).1.toNat / 4 < 60 ∧
          littleEndian? ((literalHead n).1.toNat / 4 - 59) ((literalHead n).2 ++ rest) =
            some (n, rest)) := by
  unfold literalHead
  by_cases h₁ : n < 60
  · have hb : (UInt8.ofNat (n * 4)).toNat = n * 4 := by
      rw [UInt8.toNat_ofNat', Nat.mod_eq_of_lt (by omega)]
    simp only [if_pos h₁, hb, Nat.mul_div_cancel n (show 0 < 4 by decide)]
    exact ⟨by omega, .inl ⟨h₁, trivial, trivial⟩⟩
  by_cases h₂ : n < 256
  · have hb : (UInt8.ofNat n).toNat = n := by rw [UInt8.toNat_ofNat', Nat.mod_eq_of_lt (by omega)]
    simp only [if_neg h₁, if_pos h₂, List.cons_append, List.nil_append]
    refine ⟨by decide, .inr ⟨by decide, ?_⟩⟩
    show littleEndian? 1 _ = _
    simp only [littleEndian?, bind, Option.bind, pure, hb, Nat.mul_zero, Nat.add_zero]
  · have hlow : (UInt8.ofNat (n % 256)).toNat = n % 256 := by
      rw [UInt8.toNat_ofNat', Nat.mod_eq_of_lt (by omega)]
    have hhigh : (UInt8.ofNat (n / 256)).toNat = n / 256 := by
      rw [UInt8.toNat_ofNat', Nat.mod_eq_of_lt (by omega)]
    simp only [if_neg h₁, if_neg h₂, List.cons_append, List.nil_append]
    refine ⟨by decide, .inr ⟨by decide, ?_⟩⟩
    show littleEndian? 2 _ = _
    simp only [littleEndian?, bind, Option.bind, pure, hlow, hhigh, Nat.mul_zero, Nat.add_zero,
      Nat.mod_add_div]

/-- A literal element gives its bytes. -/
theorem element?_literal {n size : Nat} (hn : n < 65536) {out o : Array UInt8}
    {now rest r : List UInt8} (hnow : now.length = n + 1)
    (h : element? size out (literalHead n).1 ((literalHead n).2 ++ (now ++ rest)) = some (o, r)) :
    o = out ++ now.toArray ∧ r = rest := by
  obtain ⟨hkind, hlength⟩ := literalHead_length hn (now ++ rest)
  unfold element? at h
  simp only [hkind] at h
  rcases hlength with ⟨hshort, htop, hextra⟩ | ⟨hlong, hlength⟩
  · rw [htop] at hshort
    simp only [htop, if_pos hshort, hextra, bind, Option.bind, List.nil_append,
      List.take_left' hnow, List.drop_left' hnow] at h
    split_ifs at h
    cases h
    exact ⟨rfl, rfl⟩
  · simp only [if_neg hlong, hlength, bind, Option.bind, List.take_left' hnow,
      List.drop_left' hnow] at h
    split_ifs at h
    cases h
    exact ⟨rfl, rfl⟩

/-- Literal elements give the bytes that they were written from. -/
theorem elements?_literals {size fuel : Nat} {out r : Array UInt8} {bytes : List UInt8}
    (h : elements? size fuel out (literals bytes) = some r) : r = out ++ bytes.toArray := by
  induction hl : bytes.length using Nat.strongRecOn generalizing bytes fuel out with
  | _ length ih =>
    cases bytes with
    | nil =>
      rw [literals, elements?] at h
      cases h
      simp
    | cons b rest =>
      rw [literals_cons, List.append_assoc] at h
      cases fuel with
      | zero => cases h
      | succ fuel =>
        rw [elements?] at h
        have hn : (rest.take (chunk - 1)).length < 65536 := by
          rw [List.length_take, chunk]
          omega
        cases hel : element? size out (literalHead (rest.take (chunk - 1)).length).1
            ((literalHead (rest.take (chunk - 1)).length).2 ++
              (b :: rest.take (chunk - 1) ++ literals (rest.drop (chunk - 1)))) with
        | none =>
          rw [hel] at h
          cases h
        | some p =>
          obtain ⟨o, r'⟩ := p
          obtain ⟨rfl, rfl⟩ := element?_literal hn (by rw [List.length_cons]) hel
          rw [hel] at h
          have hrest := ih (rest.drop (chunk - 1)).length
            (by rw [List.length_drop, ← hl, List.length_cons]; omega) h rfl
          rw [hrest, Array.append_assoc]
          simp

/-- Whatever is decoded from a block that was written is what it was written from. -/
theorem decode?_encode {bytes b : List UInt8} (h : decode? (encode bytes) = some b) :
    b = bytes ∧ bytes.length < 0x100000000 := by
  unfold decode? encode at h
  cases hv : readVarint 10 0 0 (varint bytes.length ++ literals bytes) with
  | none =>
    rw [hv] at h
    cases h
  | some p =>
    obtain ⟨size, rest⟩ := p
    obtain ⟨hsize, rfl⟩ := readVarint_varint hv
    rw [pow_zero, Nat.mul_one, Nat.zero_add] at hsize
    subst hsize
    rw [hv] at h
    simp only [bind, Option.bind] at h
    split_ifs at h with hlarge
    cases hel : elements? bytes.length (literals bytes).length #[] (literals bytes) with
    | none =>
      rw [hel] at h
      cases h
    | some out =>
      rw [hel] at h
      dsimp only at h
      split_ifs at h
      cases h
      rw [elements?_literals hel]
      exact ⟨by simp, by omega⟩

end WasmLisp.Block
