import Mathlib
import WasmLisp.Cbor.Decode
import WasmLisp.Proofs.Binary.Leb128
import WasmLisp.Proofs.Text

/-!
# Encodings of data items

* `head_append_inj`: the initial bytes of an item say where they end;
* `Plain.append_inj`: so do the encodings of integers, texts and arrays of such items, and
  different items have different encodings.
-/

namespace WasmLisp.Cbor

/-! ## Initial bytes -/

theorem length_bigEndian (width n : Nat) : (bigEndian width n).length = width := by
  induction width generalizing n with
  | zero => rfl
  | succ w ih => simp [bigEndian, ih]

theorem ofBigEndian_append (bytes : List UInt8) (b : UInt8) :
    ofBigEndian (bytes ++ [b]) = ofBigEndian bytes * 256 + b.toNat := by
  simp [ofBigEndian]

/-- A number that fits is read back from its bytes. -/
theorem ofBigEndian_bigEndian {width n : Nat} (h : n < 256 ^ width) :
    ofBigEndian (bigEndian width n) = n := by
  induction width generalizing n with
  | zero =>
    simp only [pow_zero, Nat.lt_one_iff] at h
    rw [h]
    rfl
  | succ w ih =>
    rw [pow_succ] at h
    rw [bigEndian, ofBigEndian_append, ih (by omega), UInt8.toNat_ofNat']
    omega

/-- The additional information in the first byte of an item with a number. -/
def headInfo (n : Nat) : Nat :=
  if n < 24 then n
  else if n < 0x100 then 24
  else if n < 0x10000 then 25
  else if n < 0x100000000 then 26
  else if n < 0x10000000000000000 then 27
  else 28

/-- The bytes of the number after the first byte. -/
def headTail (n : Nat) : List UInt8 :=
  if n < 24 then []
  else if n < 0x100 then bigEndian 1 n
  else if n < 0x10000 then bigEndian 2 n
  else if n < 0x100000000 then bigEndian 4 n
  else if n < 0x10000000000000000 then bigEndian 8 n
  else Binary.uleb n

theorem head_eq (major n : Nat) :
    head major n = UInt8.ofNat (major * 32 + headInfo n) :: headTail n := by
  unfold head headInfo headTail
  split_ifs <;> rfl

theorem headInfo_lt (n : Nat) : headInfo n < 32 := by
  unfold headInfo
  split_ifs <;> omega

/-- Numbers of a width are told apart by their bytes. -/
theorem bigEndian_append_inj {width m n : Nat} (hm : m < 256 ^ width) (hn : n < 256 ^ width)
    {r t : List UInt8} (h : bigEndian width m ++ r = bigEndian width n ++ t) : m = n ∧ r = t := by
  obtain ⟨heq, hrest⟩ := List.append_inj h (by rw [length_bigEndian, length_bigEndian])
  refine ⟨?_, hrest⟩
  rw [← ofBigEndian_bigEndian hm, heq, ofBigEndian_bigEndian hn]

theorem headTail_append_inj {m n : Nat} (hinfo : headInfo m = headInfo n) {r t : List UInt8}
    (h : headTail m ++ r = headTail n ++ t) : m = n ∧ r = t := by
  unfold headInfo at hinfo
  unfold headTail at h
  -- the information says in which range both numbers are
  split_ifs at hinfo h with h₁ h₂ h₃ h₄ h₅ h₆ h₇ h₈ h₉ h₁₀ <;> try omega
  · exact ⟨hinfo, h⟩
  · exact bigEndian_append_inj (by omega) (by omega) h
  · exact bigEndian_append_inj (by omega) (by omega) h
  · exact bigEndian_append_inj (by omega) (by omega) h
  · exact bigEndian_append_inj (by omega) (by omega) h
  · obtain ⟨heq, hrest⟩ := (Binary.leb_uleb m).append_inj (Binary.leb_uleb n) h
    exact ⟨Binary.uleb_injective heq, hrest⟩

/-- The initial bytes of items determine the major type and the number, and say where they end. -/
theorem head_append_inj {major major' m n : Nat} (hm : major < 6) (hn : major' < 6)
    {r t : List UInt8} (h : head major m ++ r = head major' n ++ t) :
    major = major' ∧ m = n ∧ r = t := by
  rw [head_eq, head_eq, List.cons_append, List.cons_append, List.cons.injEq] at h
  obtain ⟨hbyte, hrest⟩ := h
  have hm' := headInfo_lt m
  have hn' := headInfo_lt n
  have hnat := congrArg UInt8.toNat hbyte
  rw [UInt8.toNat_ofNat', UInt8.toNat_ofNat', Nat.mod_eq_of_lt (by omega),
    Nat.mod_eq_of_lt (by omega)] at hnat
  refine ⟨by omega, headTail_append_inj (by omega) hrest⟩

/-! ## Items -/

mutual

/-- The item is made of integers, texts and arrays. -/
def Plain : Cbor → Prop
  | .int _ => True
  | .text _ => True
  | .array items => AllPlain items
  | _ => False

def AllPlain : List Cbor → Prop
  | [] => True
  | c :: rest => c.Plain ∧ AllPlain rest

end

theorem allPlain_iff {items : List Cbor} : AllPlain items ↔ ∀ c ∈ items, c.Plain := by
  induction items with
  | nil => simp [AllPlain]
  | cons c items ih => simp [AllPlain, ih]

/-- The item is an integer, a string of bytes, a text, an array or a map. -/
def Headed : Cbor → Prop
  | .int _ => True
  | .bytes _ => True
  | .text _ => True
  | .array _ => True
  | .map _ => True
  | _ => False

theorem Plain.headed {c : Cbor} (h : c.Plain) : c.Headed := by
  cases c with
  | int | text | array => trivial
  | _ => exact absurd h id

/-- The major type of an item. -/
def major : Cbor → Nat
  | .int v => if 0 ≤ v then 0 else 1
  | .bytes _ => 2
  | .text _ => 3
  | .map _ => 5
  | _ => 4

/-- The number in the initial bytes of an item. -/
def number : Cbor → Nat
  | .int v => if 0 ≤ v then v.toNat else (-1 - v).toNat
  | .bytes data => data.length
  | .text s => s.toUTF8.toList.length
  | .array items => items.length
  | .map entries => entries.length
  | _ => 0

/-! ## The order of keys -/

theorem insertInOrder_append {α : Type} {le : α → α → Bool} {a : α} {before after : List α}
    (hbefore : ∀ b ∈ before, (!le a b) = true) (hafter : ∀ b ∈ after, le a b = true) :
    insertInOrder le a (before ++ after) = before ++ a :: after := by
  induction before with
  | nil =>
    cases after with
    | nil => rfl
    | cons b after => simp [insertInOrder, hafter b List.mem_cons_self]
  | cons b before ih =>
    have hb : le a b = false := by simpa using hbefore b List.mem_cons_self
    rw [List.cons_append, insertInOrder, if_neg (by simp [hb]),
      ih fun c hc => hbefore c (List.mem_cons_of_mem _ hc), List.cons_append]

/-- Putting elements in their places one by one sorts them as merging does. -/
theorem inOrder_eq_mergeSort {α : Type} {le : α → α → Bool}
    (trans : ∀ a b c, le a b = true → le b c = true → le a c = true)
    (total : ∀ a b, (le a b || le b a) = true) (as : List α) : inOrder le as = as.mergeSort le := by
  induction as with
  | nil => simp [inOrder]
  | cons a as ih =>
    obtain ⟨before, after, hcons, hrest, hbefore⟩ := List.mergeSort_cons trans total a as
    have hsorted := List.pairwise_mergeSort trans total (a :: as)
    rw [hcons, List.pairwise_append] at hsorted
    have hafter : ∀ b ∈ after, le a b = true := (List.pairwise_cons.mp hsorted.2.1).1
    show insertInOrder le a (inOrder le as) = _
    rw [ih, hrest, insertInOrder_append hbefore hafter, hcons]

theorem bytesLe_trans : ∀ {a b c : List UInt8}, bytesLe a b = true → bytesLe b c = true →
    bytesLe a c = true
  | [], _, _, _, _ => rfl
  | x :: a, y :: b, [], _, hbc => by simp [bytesLe] at hbc
  | x :: a, y :: b, z :: c, hab, hbc => by
    simp only [bytesLe, Bool.or_eq_true, Bool.and_eq_true, decide_eq_true_eq, beq_iff_eq]
      at hab hbc ⊢
    rcases hab with hxy | ⟨rfl, hab⟩
    · rcases hbc with hyz | ⟨rfl, hbc⟩
      · exact .inl (UInt8.lt_trans hxy hyz)
      · exact .inl hxy
    · rcases hbc with hyz | ⟨rfl, hbc⟩
      · exact .inl hyz
      · exact .inr ⟨rfl, bytesLe_trans hab hbc⟩

theorem bytesLe_total : ∀ a b : List UInt8, bytesLe a b = true ∨ bytesLe b a = true
  | [], _ => .inl rfl
  | _ :: _, [] => .inr rfl
  | x :: a, y :: b => by
    simp only [bytesLe, Bool.or_eq_true, Bool.and_eq_true, decide_eq_true_eq, beq_iff_eq]
    by_cases hxy : x < y
    · exact .inl (.inl hxy)
    · rcases UInt8.lt_or_eq_of_le (UInt8.not_lt.mp hxy) with hyx | rfl
      · exact .inr (.inl hyx)
      · exact (bytesLe_total a b).imp (fun h => .inr ⟨rfl, h⟩) fun h => .inr ⟨rfl, h⟩

theorem keyLe_trans {a b c : List UInt8} (hab : keyLe a b = true) (hbc : keyLe b c = true) :
    keyLe a c = true := by
  simp only [keyLe, Bool.or_eq_true, Bool.and_eq_true, decide_eq_true_eq, beq_iff_eq] at hab hbc ⊢
  rcases hab with hab | ⟨hab, hle⟩
  · exact .inl (by omega)
  · rcases hbc with hbc | ⟨hbc, hle'⟩
    · exact .inl (by omega)
    · exact .inr ⟨by omega, bytesLe_trans hle hle'⟩

theorem keyLe_total (a b : List UInt8) : (keyLe a b || keyLe b a) = true := by
  simp only [keyLe, Bool.or_eq_true, Bool.and_eq_true, decide_eq_true_eq, beq_iff_eq]
  rcases lt_trichotomy a.length b.length with h | h | h
  · exact .inl (.inl h)
  · exact (bytesLe_total a b).imp (fun hle => .inr ⟨h, hle⟩) fun hle => .inr ⟨h.symm, hle⟩
  · exact .inr (.inl h)

/-! ## Maps -/

/-- The order in which the entries of a map are written. -/
def entryLe (a b : Cbor × Cbor) : Bool := keyLe a.1.encode b.1.encode

/-- The keys and values of entries, each key before its value. -/
def flatEntries (entries : List (Cbor × Cbor)) : List Cbor := entries.flatMap fun e => [e.1, e.2]

/-- What follows the initial bytes of an item. -/
def payload : Cbor → List UInt8
  | .bytes data => data
  | .text s => s.toUTF8.toList
  | .array items => encodeItems items
  | .map entries => encodeItems (flatEntries (entries.mergeSort entryLe))
  | _ => []

theorem encodeEntries_eq_map (entries : List (Cbor × Cbor)) :
    encodeEntries entries = entries.map fun e => (e.1.encode, e.2.encode) := by
  induction entries with
  | nil => rfl
  | cons e entries ih => rw [encodeEntries, ih, List.map_cons]

theorem encodeItems_flatEntries (entries : List (Cbor × Cbor)) :
    encodeItems (flatEntries entries) = entries.flatMap fun e => e.1.encode ++ e.2.encode := by
  induction entries with
  | nil => rfl
  | cons e entries ih =>
    rw [List.flatMap_cons, ← ih]
    simp only [flatEntries, List.flatMap_cons, List.cons_append, List.nil_append, encodeItems,
      List.append_assoc]

/-- Sorting the encoded entries is encoding the sorted ones. -/
theorem encode_map (entries : List (Cbor × Cbor)) :
    encode (.map entries) =
      head 5 entries.length ++ encodeItems (flatEntries (entries.mergeSort entryLe)) := by
  have hsort : inOrder (fun a b => keyLe a.1 b.1) (encodeEntries entries) =
      (entries.mergeSort entryLe).map fun e => (e.1.encode, e.2.encode) := by
    have hmerge : inOrder (fun a b => keyLe a.1 b.1) (encodeEntries entries) =
        (encodeEntries entries).mergeSort fun a b => keyLe a.1 b.1 := by
      apply inOrder_eq_mergeSort
      · intro a b c hab hbc
        exact keyLe_trans hab hbc
      · intro a b
        exact keyLe_total a.1 b.1
    rw [hmerge, encodeEntries_eq_map]
    symm
    apply List.map_mergeSort
    intro a _ b _
    rfl
  rw [encode, encodeItems_flatEntries]
  dsimp only
  rw [hsort, List.flatMap_map]

theorem Headed.encode_eq {c : Cbor} (h : c.Headed) :
    c.encode = head c.major c.number ++ c.payload := by
  cases c with
  | int v =>
    simp only [encode, major, number, payload, List.append_nil]
    split_ifs <;> rfl
  | bytes data => simp only [encode, major, number, payload]
  | text s => simp only [encode, major, number, payload]
  | array items => simp only [encode, major, number, payload]
  | map entries => exact encode_map entries
  | _ => exact absurd h id

theorem major_lt (c : Cbor) : c.major < 6 := by
  unfold major
  split
  · split_ifs <;> omega
  all_goals omega

mutual

/-- Encodings of plain items say where they end, and determine the item. -/
theorem Plain.append_inj : ∀ {c c' : Cbor} {r t : List UInt8}, c.Plain → c'.Plain →
    c.encode ++ r = c'.encode ++ t → c = c' ∧ r = t
  | .int v, .int v', r, t, hc, hc', h => by
    rw [hc.headed.encode_eq, hc'.headed.encode_eq, List.append_assoc, List.append_assoc] at h
    obtain ⟨hmajor, hnumber, hrest⟩ := head_append_inj (major_lt _) (major_lt _) h
    refine ⟨?_, hrest⟩
    simp only [major, number] at hmajor hnumber
    split_ifs at hmajor hnumber
    · exact congrArg Cbor.int (by omega)
    · exact congrArg Cbor.int (by omega)
  | .text s, .text s', r, t, hc, hc', h => by
    rw [hc.headed.encode_eq, hc'.headed.encode_eq, List.append_assoc, List.append_assoc] at h
    obtain ⟨-, hnumber, hrest⟩ := head_append_inj (major_lt _) (major_lt _) h
    obtain ⟨hbytes, hrest⟩ := List.append_inj hrest hnumber
    exact ⟨congrArg Cbor.text (Text.toUTF8_injective hbytes), hrest⟩
  | .array items, .array items', r, t, hc, hc', h => by
    rw [hc.headed.encode_eq, hc'.headed.encode_eq, List.append_assoc, List.append_assoc] at h
    obtain ⟨-, hnumber, hrest⟩ := head_append_inj (major_lt _) (major_lt _) h
    simp only [payload, number] at hrest hnumber
    obtain ⟨rfl, hend⟩ := AllPlain.append_inj hc hc' hnumber hrest
    exact ⟨rfl, hend⟩
  | .int v, .text s, r, t, hc, hc', h | .int v, .array items, r, t, hc, hc', h
  | .text s, .int v, r, t, hc, hc', h | .array items, .int v, r, t, hc, hc', h => by
    rw [hc.headed.encode_eq, hc'.headed.encode_eq, List.append_assoc, List.append_assoc] at h
    have hmajor := (head_append_inj (major_lt _) (major_lt _) h).1
    simp only [major] at hmajor
    split_ifs at hmajor
    omega
  | .text s, .array items, r, t, hc, hc', h | .array items, .text s, r, t, hc, hc', h => by
    rw [hc.headed.encode_eq, hc'.headed.encode_eq, List.append_assoc, List.append_assoc] at h
    have hmajor := (head_append_inj (major_lt _) (major_lt _) h).1
    simp [major] at hmajor

theorem AllPlain.append_inj : ∀ {items items' : List Cbor} {r t : List UInt8}, AllPlain items →
    AllPlain items' → items.length = items'.length →
    encodeItems items ++ r = encodeItems items' ++ t → items = items' ∧ r = t
  | [], [], r, t, _, _, _, h => ⟨rfl, h⟩
  | c :: items, c' :: items', r, t, hc, hc', hl, h => by
    rw [encodeItems, encodeItems, List.append_assoc, List.append_assoc] at h
    obtain ⟨rfl, hrest⟩ := Plain.append_inj hc.1 hc'.1 h
    obtain ⟨rfl, hend⟩ := AllPlain.append_inj hc.2 hc'.2 (by simpa using hl) hrest
    exact ⟨rfl, hend⟩

end

theorem Plain.encode_injective {c c' : Cbor} (hc : c.Plain) (hc' : c'.Plain)
    (h : c.encode = c'.encode) : c = c' :=
  (Plain.append_inj hc hc' (congrArg (· ++ []) h)).1

end WasmLisp.Cbor
