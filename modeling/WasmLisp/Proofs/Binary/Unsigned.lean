import Mathlib
import WasmLisp.Proofs.Binary.Inspect

/-!
# Reading unsigned numbers

Five bytes of seven bits hold three bits more than a number of 32 bits has. The reader stops at a
sixth byte, but not at those three bits.

* `Decode.Promised`: what the reader is to give at a cursor, for each way in which bytes begin;
* `Decode.Spills`: a fifth byte that ends its number and has one of the three bits set;
* `Decode.promised_u32_iff`: the reader gives the one result that it is to give unless a fifth byte
  spills.
-/

namespace WasmLisp.Binary

variable {bs rest : List UInt8}

/-- Bytes none of which ends a number. -/
def Unended (bs : List UInt8) : Prop := ∀ b ∈ bs, 128 ≤ b.toNat

instance (bs : List UInt8) : Decidable (Unended bs) :=
  inferInstanceAs (Decidable (∀ b ∈ bs, 128 ≤ b.toNat))

theorem unended_cons_iff {b : UInt8} : Unended (b :: bs) ↔ 128 ≤ b.toNat ∧ Unended bs :=
  List.forall_mem_cons

/-- A number is bytes that do not end it and one that does. -/
theorem leb_iff : Leb bs ↔ ∃ more b, bs = more ++ [b] ∧ Unended more ∧ b.toNat < 128 := by
  constructor
  · intro h
    induction h with
    | @last b hb => exact ⟨[], b, rfl, by simp [Unended], hb⟩
    | @more b bs hb _ ih =>
      obtain ⟨more, last, rfl, hmore, hlast⟩ := ih
      exact ⟨b :: more, last, rfl, unended_cons_iff.mpr ⟨hb, hmore⟩, hlast⟩
  · rintro ⟨more, b, rfl, hmore, hb⟩
    induction more with
    | nil => exact .last hb
    | cons c more ih =>
      rw [unended_cons_iff] at hmore
      exact .more hmore.1 (ih hmore.2)

/-- Bytes begin with a number, unless none of them ends one. -/
theorem unended_or_leb (bytes : List UInt8) :
    Unended bytes ∨ ∃ bs rest, Leb bs ∧ bytes = bs ++ rest := by
  induction bytes with
  | nil => exact .inl (by simp [Unended])
  | cons b bytes ih =>
    by_cases hb : b.toNat < 128
    · exact .inr ⟨[b], bytes, .last hb, rfl⟩
    · rw [not_lt] at hb
      rcases ih with hbytes | ⟨bs, rest, hbs, rfl⟩
      · exact .inl (unended_cons_iff.mpr ⟨hb, hbytes⟩)
      · exact .inr ⟨b :: bs, rest, .more hb hbs, rfl⟩

/-- Bytes that begin with a number do not begin with as many that end none. -/
theorem Leb.length_lt (hbs : Leb bs) {more rest' : List UInt8} (hmore : Unended more)
    (h : bs ++ rest = more ++ rest') : more.length < bs.length := by
  by_contra hlen
  obtain ⟨ahead, b, rfl, -, hb⟩ := leb_iff.mp hbs
  have hbegins : ahead ++ [b] <+: more :=
    List.prefix_of_prefix_length_le (List.prefix_append _ rest) (h ▸ List.prefix_append _ rest')
      (not_lt.mp hlen)
  have hlarge := hmore b (hbegins.subset (List.mem_append_right _ (List.mem_singleton_self b)))
  omega

theorem Leb.not_unended (hbs : Leb bs) {bytes : List UInt8} (h : bytes = bs ++ rest) :
    ¬ Unended bytes := by
  intro hall
  have hlt := hbs.length_lt hall (h.symm.trans (List.append_nil _).symm)
  rw [h, List.length_append] at hlt
  omega

theorem Leb.not_long (hbs : Leb bs) {more rest' : List UInt8} (hmore : Unended more)
    (hlen : bs.length ≤ more.length) : bs ++ rest ≠ more ++ rest' :=
  fun h => absurd (hbs.length_lt hmore h) (not_lt.mpr hlen)

/-! ## Values -/

theorem ulebValue_append (as bs : List UInt8) :
    ulebValue (as ++ bs) = ulebValue as + 128 ^ as.length * ulebValue bs := by
  induction as with
  | nil => simp [ulebValue]
  | cons a as ih =>
    rw [List.cons_append, ulebValue, ulebValue, ih, List.length_cons, pow_succ]
    ring

theorem ulebValue_lt (bs : List UInt8) : ulebValue bs < 128 ^ bs.length := by
  induction bs with
  | nil => simp [ulebValue]
  | cons b bs ih =>
    have hb : b.toNat % 128 < 128 := Nat.mod_lt _ (by decide)
    rw [ulebValue, List.length_cons, pow_succ]
    omega

/-- Five bytes write a number of 32 bits exactly if the fifth of them has four bits. -/
theorem ulebValue_lt_iff {more : List UInt8} {b : UInt8} (hlen : more.length = 4)
    (hb : b.toNat < 128) : ulebValue (more ++ [b]) < 2 ^ 32 ↔ b.toNat < 16 := by
  have hmore := ulebValue_lt more
  rw [hlen] at hmore
  rw [ulebValue_append, hlen, ulebValue, ulebValue, Nat.mod_eq_of_lt hb]
  omega

namespace Decode

variable {c : Cursor}

/-- Bytes begin with a number of five bytes at most, with five bytes that do not end one, or have
ended before. -/
theorem number_cases (c : Cursor) :
    (∃ bs rest, Leb bs ∧ bs.length ≤ 5 ∧ c.rest = bs ++ rest) ∨
    (∃ bs rest, Unended bs ∧ bs.length = 5 ∧ c.rest = bs ++ rest) ∨
    (Unended c.rest ∧ c.rest.length < 5) := by
  -- the first five of more bytes that do not end a number
  have hlong : ∀ {more rest : List UInt8}, Unended more → 5 ≤ more.length →
      c.rest = more ++ rest → ∃ bs rest, Unended bs ∧ bs.length = 5 ∧ c.rest = bs ++ rest := by
    intro more rest hmore hlen hc
    refine ⟨more.take 5, more.drop 5 ++ rest, ?_, List.length_take_of_le hlen, ?_⟩
    · exact fun b hb => hmore b (List.mem_of_mem_take hb)
    · rw [hc, ← List.append_assoc, List.take_append_drop]
  rcases unended_or_leb c.rest with hall | ⟨bs, rest, hbs, hc⟩
  · by_cases hlen : c.rest.length < 5
    · exact .inr (.inr ⟨hall, hlen⟩)
    · exact .inr (.inl (hlong hall (not_lt.mp hlen) (List.append_nil _).symm))
  · by_cases hlen : bs.length ≤ 5
    · exact .inl ⟨bs, rest, hbs, hlen, hc⟩
    · obtain ⟨more, b, rfl, hmore, -⟩ := leb_iff.mp hbs
      rw [List.length_append, List.length_singleton] at hlen
      rw [List.append_assoc] at hc
      exact .inr (.inl (hlong hmore (by omega) hc))

/-! ## What the reader does -/

theorem u32_of_leb (h : Leb bs) (hlen : bs.length ≤ 5) (hc : c.rest = bs ++ rest) :
    u32 c = .ok (UInt32.ofNat (ulebValue bs), { rest, offset := c.offset + bs.length }) := by
  obtain ⟨bytes, offset⟩ := c
  subst hc
  exact u32_append h hlen offset rest

theorem u32From_of_unended (h : Unended bs) (shift acc offset : Nat) (rest : List UInt8) :
    u32From bs.length shift acc { rest := bs ++ rest, offset } = .error .overflow := by
  induction bs generalizing shift acc offset with
  | nil => rfl
  | cons b bs ih =>
    rw [unended_cons_iff, ← not_lt] at h
    simp only [List.length_cons, u32From, bind, StateT.bind, byte, List.cons_append, Except.bind,
      h.1, if_false]
    exact ih h.2 _ _ _

/-- Five bytes that do not end a number are refused, whatever comes after them. -/
theorem u32_of_unended (h : Unended bs) (hlen : bs.length = 5) (hc : c.rest = bs ++ rest) :
    u32 c = .error .overflow := by
  obtain ⟨bytes, offset⟩ := c
  subst hc
  have hread := u32From_of_unended h 0 0 offset rest
  rw [hlen] at hread
  simp only [u32, bind, StateT.bind, hread, Except.bind]

theorem u32From_of_ended {left : Nat} (h : Unended bs) (hlen : bs.length < left)
    (shift acc offset : Nat) :
    u32From left shift acc { rest := bs, offset } = .error .truncated := by
  induction bs generalizing left shift acc offset with
  | nil =>
    obtain ⟨left, rfl⟩ := Nat.exists_eq_add_one_of_ne_zero (Nat.ne_zero_of_lt hlen)
    rfl
  | cons b bs ih =>
    obtain ⟨left, rfl⟩ := Nat.exists_eq_add_one_of_ne_zero (Nat.ne_zero_of_lt hlen)
    rw [unended_cons_iff, ← not_lt] at h
    simp only [u32From, bind, StateT.bind, byte, Except.bind, h.1, if_false]
    exact ih h.2 (Nat.lt_of_succ_lt_succ hlen) _ _ _

/-- Fewer bytes than five, none of which ends a number, are refused as too few. -/
theorem u32_of_ended (h : Unended c.rest) (hlen : c.rest.length < 5) :
    u32 c = .error .truncated := by
  obtain ⟨bytes, offset⟩ := c
  simp only [u32, bind, StateT.bind, u32From_of_ended h hlen, Except.bind]

/-! ## What the reader is to do -/

/-- What reading an unsigned number is to give: the number with the cursor just past it if 32 bits
and five bytes hold it, and otherwise the fault that says why there is none. -/
inductive Promised (c : Cursor) : Except Fault (UInt32 × Cursor) → Prop where
  | number {bs rest : List UInt8} {v : UInt32} (hbs : Leb bs) (hlen : bs.length ≤ 5)
      (hc : c.rest = bs ++ rest) (hv : v.toNat = ulebValue bs) :
      Promised c (.ok (v, { rest, offset := c.offset + bs.length }))
  | wide {bs rest : List UInt8} (hbs : Leb bs) (hlen : bs.length ≤ 5) (hc : c.rest = bs ++ rest)
      (hv : 2 ^ 32 ≤ ulebValue bs) : Promised c (.error .overflow)
  | long {bs rest : List UInt8} (hbs : Unended bs) (hlen : bs.length = 5)
      (hc : c.rest = bs ++ rest) : Promised c (.error .overflow)
  | ended (hc : Unended c.rest) (hlen : c.rest.length < 5) : Promised c (.error .truncated)

/-- At most one result is promised: the ways in which bytes begin exclude each other, and only
`wide` and `long` promise the same. -/
theorem Promised.unique {r r' : Except Fault (UInt32 × Cursor)} (h : Promised c r)
    (h' : Promised c r') : r = r' := by
  cases h with
  | @number bs rest v hbs hlen hc hv =>
    cases h' with
    | number hbs' _ hc' hv' =>
      obtain ⟨rfl, rfl⟩ := hbs.append_inj hbs' (hc.symm.trans hc')
      rw [UInt32.toNat_inj.mp (hv.trans hv'.symm)]
    | wide hbs' _ hc' hv' =>
      obtain ⟨rfl, -⟩ := hbs.append_inj hbs' (hc.symm.trans hc')
      have := v.toNat_lt
      omega
    | long hmore hfive hc' =>
      exact absurd (hc.symm.trans hc') (hbs.not_long hmore (hlen.trans_eq hfive.symm))
    | ended hended => exact absurd hended (hbs.not_unended hc)
  | wide hbs hlen hc hv =>
    cases h' with
    | @number _ _ v hbs' _ hc' hv' =>
      obtain ⟨rfl, -⟩ := hbs.append_inj hbs' (hc.symm.trans hc')
      have := v.toNat_lt
      omega
    | wide => rfl
    | long => rfl
    | ended hended => exact absurd hended (hbs.not_unended hc)
  | long hmore hfive hc =>
    cases h' with
    | number hbs' hlen' hc' =>
      exact absurd (hc'.symm.trans hc) (hbs'.not_long hmore (hlen'.trans_eq hfive.symm))
    | wide => rfl
    | long => rfl
    | ended _ hshort =>
      rw [hc, List.length_append] at hshort
      omega
  | ended hended hshort =>
    cases h' with
    | number hbs' _ hc' => exact absurd hended (hbs'.not_unended hc')
    | wide hbs' _ hc' => exact absurd hended (hbs'.not_unended hc')
    | long _ hfive hc' =>
      rw [hc', List.length_append] at hshort
      omega
    | ended => rfl

/-- The fifth byte ends a number and has more than the four bits that are left of 32. -/
def Spills (c : Cursor) : Prop :=
  ∃ more b rest, c.rest = more ++ b :: rest ∧ Unended more ∧ more.length = 4 ∧
    16 ≤ b.toNat ∧ b.toNat < 128

/-- The fifth byte spills exactly if five bytes at most write a number of more than 32 bits. -/
theorem spills_iff : Spills c ↔
    ∃ bs rest, Leb bs ∧ bs.length ≤ 5 ∧ c.rest = bs ++ rest ∧ 2 ^ 32 ≤ ulebValue bs := by
  constructor
  · rintro ⟨more, b, rest, hc, hmore, hlen, hlarge, hb⟩
    refine ⟨more ++ [b], rest, leb_iff.mpr ⟨more, b, rfl, hmore, hb⟩, ?_, ?_, ?_⟩
    · rw [List.length_append, hlen, List.length_singleton]
    · rw [hc, List.append_assoc, List.singleton_append]
    · rw [← not_lt, ulebValue_lt_iff hlen hb]
      omega
  · rintro ⟨bs, rest, hbs, hlen, hc, hv⟩
    obtain ⟨more, b, rfl, hmore, hb⟩ := leb_iff.mp hbs
    rw [List.length_append, List.length_singleton] at hlen
    -- four bytes hold 28 bits
    have hfour : more.length = 4 := by
      by_contra hne
      have hlt := ulebValue_lt (more ++ [b])
      have hpow : 128 ^ (more ++ [b]).length ≤ 128 ^ 4 := by
        refine Nat.pow_le_pow_right (by decide) ?_
        rw [List.length_append, List.length_singleton]
        omega
      omega
    refine ⟨more, b, rest, ?_, hmore, hfour, ?_, hb⟩
    · rw [hc, List.append_assoc, List.singleton_append]
    · rw [← not_lt, ← ulebValue_lt_iff hfour hb]
      omega

theorem promised_of_not_spills (h : ¬ Spills c) : Promised c (u32 c) := by
  rcases number_cases c with ⟨bs, rest, hbs, hlen, hc⟩ | ⟨bs, rest, hbs, hlen, hc⟩ | ⟨hc, hlen⟩
  · have hv : ulebValue bs < 2 ^ 32 := by
      by_contra hv
      exact h (spills_iff.mpr ⟨bs, rest, hbs, hlen, hc, not_lt.mp hv⟩)
    rw [u32_of_leb hbs hlen hc]
    refine .number hbs hlen hc ?_
    rw [UInt32.toNat_ofNat', Nat.mod_eq_of_lt hv]
  · rw [u32_of_unended hbs hlen hc]
    exact .long hbs hlen hc
  · rw [u32_of_ended hc hlen]
    exact .ended hc hlen

theorem not_promised_of_spills (h : Spills c) : ¬ Promised c (u32 c) := by
  obtain ⟨bs, rest, hbs, hlen, hc, hv⟩ := spills_iff.mp h
  rw [u32_of_leb hbs hlen hc]
  intro hpromised
  cases hpromised.unique (.wide hbs hlen hc hv)

/-- Whatever the bytes are, a result is promised. -/
theorem exists_promised (c : Cursor) : ∃ r, Promised c r := by
  by_cases h : Spills c
  · obtain ⟨bs, rest, hbs, hlen, hc, hv⟩ := spills_iff.mp h
    exact ⟨_, .wide hbs hlen hc hv⟩
  · exact ⟨_, promised_of_not_spills h⟩

/-- There is one result that reading is to give, and the reader gives it unless a fifth byte spills: a
number with the cursor just past it, or the fault that says why there is none. Five bytes at most that
write a number, spilling or not, are read modulo two to the power 32. An index is read back as it was
written. -/
theorem promised_u32_iff (c : Cursor) :
    (∃! r, Promised c r) ∧
    (Promised c (u32 c) ↔ ¬ Spills c) ∧
    (∀ bs rest, Leb bs → bs.length ≤ 5 → c.rest = bs ++ rest →
      u32 c = .ok (UInt32.ofNat (ulebValue bs), { rest, offset := c.offset + bs.length })) ∧
    ∀ v, Reads u32 (encodeIndex v) v :=
  ⟨existsUnique_of_exists_of_unique (exists_promised c) fun _ _ h h' => h.unique h',
    ⟨fun h hspills => not_promised_of_spills hspills h, promised_of_not_spills⟩,
    fun _ _ hbs hlen hc => u32_of_leb hbs hlen hc, reads_encodeIndex⟩

/-- The number 2 ^ 32 + 1 in five bytes is read as one. -/
theorem promised_u32_iff_spilling :
    Leb [0x81, 0x80, 0x80, 0x80, 0x10] ∧
      ulebValue [0x81, 0x80, 0x80, 0x80, 0x10] = 2 ^ 32 + 1 ∧
      u32 { rest := [0x81, 0x80, 0x80, 0x80, 0x10, 0x2a], offset := 9 } =
        .ok (1, { rest := [0x2a], offset := 14 }) := by
  have hbs : Leb [0x81, 0x80, 0x80, 0x80, 0x10] :=
    leb_iff.mpr ⟨[0x81, 0x80, 0x80, 0x80], 0x10, rfl, by decide +kernel, by decide⟩
  let c : Cursor := { rest := [0x81, 0x80, 0x80, 0x80, 0x10, 0x2a], offset := 9 }
  exact ⟨hbs, rfl, (promised_u32_iff c).2.2.1 _ [0x2a] hbs (by decide) rfl⟩

/-- The number 2 ^ 32 in five bytes is to be refused, and is read as zero. -/
theorem u32_spills : ¬ ∀ c, Promised c (u32 c) := by
  intro h
  refine not_promised_of_spills ?_ (h { rest := [0x80, 0x80, 0x80, 0x80, 0x10] })
  exact ⟨[0x80, 0x80, 0x80, 0x80], 0x10, [], rfl, by decide +kernel, rfl, by decide, by decide⟩

end Decode

end WasmLisp.Binary
