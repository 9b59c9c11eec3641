import Mathlib
import WasmLisp.Text.Utf8
import WasmLisp.Proofs.Text

/-!
# The text that bytes are read as

Which characters bytes stand for is said here without a decoder: a character is written by its
encoding, and a byte at which no encoding begins stands for the replacement character.

* `Text.Reads`: the bytes are read as the characters;
* `Text.firstChar?_eq_some_iff`: the character at the start of some bytes is the one of which the
  encoding is there, and at most one is (`Text.encoding_unique`);
* `Text.reads_iff`: all bytes are read as one text, which is the one that is made of them;
* `Text.Reads.encoded_iff`: the encoding of a text is read as this text.
-/

namespace WasmLisp.Text

/-- The bytes are read as the characters. Each byte that is no part of a character is read as the
replacement character. -/
inductive Reads : List UInt8 → List Char → Prop where
  | nil : Reads [] []
  | char {c : Char} {bytes : List UInt8} {cs : List Char} (h : Reads bytes cs) :
    Reads (String.utf8EncodeChar c ++ bytes) (c :: cs)
  | stray {b : UInt8} {bytes : List UInt8} {cs : List Char}
    (hnone : ∀ c, ¬ String.utf8EncodeChar c <+: b :: bytes) (h : Reads bytes cs) :
    Reads (b :: bytes) ('\ufffd' :: cs)

variable {bytes : List UInt8} {c : Char} {cs : List Char} {n : Nat}

/-! ## The first character -/

theorem length_encoding_pos (c : Char) : 0 < (String.utf8EncodeChar c).length := by
  rw [String.length_utf8EncodeChar]
  exact c.utf8Size_pos

/-- The encoding of one character at most begins some bytes. -/
theorem encoding_unique {c' : Char} (h : String.utf8EncodeChar c <+: bytes)
    (h' : String.utf8EncodeChar c' <+: bytes) : c = c' := by
  have hdecode : ∀ {d : Char}, String.utf8EncodeChar d <+: bytes →
      bytes.toByteArray.utf8DecodeChar? 0 = some d := by
    rintro d ⟨rest, rfl⟩
    rw [List.toByteArray_append]
    exact ByteArray.utf8DecodeChar?_utf8EncodeChar_append
  exact Option.some.inj ((hdecode h).symm.trans (hdecode h'))

/-- Bytes are a text if and only if they are its encoding. -/
theorem fromUTF8?_eq_some_iff {s : String} :
    String.fromUTF8? ⟨bytes.toArray⟩ = some s ↔ bytes = s.toUTF8.toList := by
  constructor
  · intro h
    unfold String.fromUTF8? at h
    split at h
    · cases h
      rw [toList_eq_data]
      rfl
    · cases h
  · rintro rfl
    exact fromUTF8?_toUTF8 s

/-- The bytes of a text are the encodings of its characters. -/
theorem toUTF8_eq_flatMap (s : String) : s.toUTF8.toList = s.toList.flatMap String.utf8EncodeChar := by
  have hencoded : s.toUTF8 = s.toList.utf8Encode := String.utf8Encode_toList.symm
  rw [toList_eq_data, hencoded, List.utf8Encode, List.data_toByteArray]

theorem charOfLength?_eq_some_iff :
    charOfLength? n bytes = some c ↔
      String.utf8EncodeChar c <+: bytes ∧ n = (String.utf8EncodeChar c).length := by
  constructor
  · intro h
    unfold charOfLength? at h
    obtain ⟨s, hs, h⟩ := Option.bind_eq_some_iff.mp h
    rw [fromUTF8?_eq_some_iff, toUTF8_eq_flatMap] at hs
    split at h
    · rename_i d hd
      rw [hd, List.flatMap_singleton] at hs
      obtain ⟨hle, hdc⟩ := Option.ite_none_right_eq_some.mp h
      obtain rfl := Option.some.inj hdc
      refine ⟨hs ▸ List.take_prefix n bytes, ?_⟩
      rw [← hs, List.length_take, Nat.min_eq_left hle]
    · cases h
  · rintro ⟨⟨rest, rfl⟩, rfl⟩
    have htake : (String.utf8EncodeChar c ++ rest).take (String.utf8EncodeChar c).length =
        (String.singleton c).toUTF8.toList := by
      rw [List.take_left, toUTF8_eq_flatMap, String.toList_singleton, List.flatMap_singleton]
    unfold charOfLength?
    rw [htake, fromUTF8?_toUTF8]
    simp [String.toList_singleton]

theorem encoding_of_firstChar? (h : firstChar? bytes = some (c, n)) :
    String.utf8EncodeChar c <+: bytes ∧ n = (String.utf8EncodeChar c).length := by
  obtain ⟨k, -, hk⟩ := List.exists_of_findSome?_eq_some h
  obtain ⟨d, hd, heq⟩ := Option.map_eq_some_iff.mp hk
  obtain ⟨rfl, rfl⟩ := Prod.mk.inj heq
  exact charOfLength?_eq_some_iff.mp hd

/-- The first character of some bytes is the one of which the encoding is there. -/
theorem firstChar?_eq_some_iff :
    firstChar? bytes = some (c, n) ↔
      String.utf8EncodeChar c <+: bytes ∧ n = (String.utf8EncodeChar c).length := by
  refine ⟨encoding_of_firstChar?, fun h => ?_⟩
  have hsize : n ∈ [1, 2, 3, 4] := by
    have hpos := c.utf8Size_pos
    have hfour := c.utf8Size_le_four
    rw [← String.length_utf8EncodeChar, ← h.2] at hpos hfour
    simp only [List.mem_cons, List.not_mem_nil, or_false]
    omega
  have hsome : (firstChar? bytes).isSome = true := by
    rw [firstChar?, List.findSome?_isSome_iff]
    refine ⟨n, hsize, ?_⟩
    rw [charOfLength?_eq_some_iff.mpr h]
    rfl
  -- whichever length is tried first, the character that is found is this one
  obtain ⟨⟨d, k⟩, hfirst⟩ := Option.isSome_iff_exists.mp hsome
  obtain ⟨hbegins, hlength⟩ := encoding_of_firstChar? hfirst
  obtain rfl := encoding_unique hbegins h.1
  rw [hfirst, hlength, h.2]

theorem firstChar?_eq_none_iff :
    firstChar? bytes = none ↔ ∀ c, ¬ String.utf8EncodeChar c <+: bytes := by
  constructor
  · intro h c hc
    rw [firstChar?_eq_some_iff.mpr ⟨hc, rfl⟩] at h
    cases h
  · intro h
    cases hfirst : firstChar? bytes with
    | none => rfl
    | some p => exact absurd (firstChar?_eq_some_iff.mp hfirst).1 (h p.1)

/-! ## All characters -/

theorem charsOfBytes_nil (k : Nat) : charsOfBytes k [] = [] := by
  cases k <;> rfl

theorem charsOfBytes_zero_cons (b : UInt8) (bytes : List UInt8) :
    charsOfBytes 0 (b :: bytes) = match firstChar? (b :: bytes) with
      | some (c, n) => c :: charsOfBytes (n - 1) bytes
      | none => '\ufffd' :: charsOfBytes 0 bytes :=
  rfl

theorem charsOfBytes_of_firstChar? {b : UInt8} (h : firstChar? (b :: bytes) = some (c, n)) :
    charsOfBytes 0 (b :: bytes) = c :: charsOfBytes (n - 1) bytes := by
  rw [charsOfBytes_zero_cons, h]

theorem charsOfBytes_of_stray {b : UInt8} (h : firstChar? (b :: bytes) = none) :
    charsOfBytes 0 (b :: bytes) = '\ufffd' :: charsOfBytes 0 bytes := by
  rw [charsOfBytes_zero_cons, h]

/-- What belongs to the character before is passed over. -/
theorem charsOfBytes_skip (k : Nat) (bytes : List UInt8) :
    charsOfBytes k bytes = charsOfBytes 0 (bytes.drop k) := by
  induction bytes generalizing k with
  | nil => rw [List.drop_nil, charsOfBytes_nil, charsOfBytes_nil]
  | cons b bytes ih =>
    cases k with
    | zero => rfl
    | succ k => exact ih k

theorem charsOfBytes_encoding (c : Char) (bytes : List UInt8) :
    charsOfBytes 0 (String.utf8EncodeChar c ++ bytes) = c :: charsOfBytes 0 bytes := by
  obtain ⟨b, rest, hcons⟩ := List.exists_cons_of_length_pos (length_encoding_pos c)
  have hfirst : firstChar? (b :: (rest ++ bytes)) = some (c, rest.length + 1) := by
    rw [firstChar?_eq_some_iff, ← List.cons_append, ← hcons]
    exact ⟨List.prefix_append _ _, by rw [hcons, List.length_cons]⟩
  rw [hcons, List.cons_append, charsOfBytes_of_firstChar? hfirst, Nat.add_sub_cancel, charsOfBytes_skip,
    List.drop_left]

/-- Bytes are read as what the decoder makes of them, and as nothing else. -/
theorem Reads.charsOfBytes_eq (h : Reads bytes cs) : charsOfBytes 0 bytes = cs := by
  induction h with
  | nil => rfl
  | char _ ih => rw [charsOfBytes_encoding, ih]
  | stray hnone _ ih => rw [charsOfBytes_of_stray (firstChar?_eq_none_iff.mpr hnone), ih]

theorem reads_charsOfBytes (bytes : List UInt8) : Reads bytes (charsOfBytes 0 bytes) := by
  induction hlength : bytes.length using Nat.strong_induction_on generalizing bytes with
  | _ n ih =>
    subst hlength
    cases bytes with
    | nil => exact .nil
    | cons b rest =>
      cases hfirst : firstChar? (b :: rest) with
      | none =>
        rw [charsOfBytes_of_stray hfirst]
        exact .stray (firstChar?_eq_none_iff.mp hfirst) (ih rest.length (Nat.lt_succ_self _) rest rfl)
      | some p =>
        obtain ⟨⟨more, hmore⟩, -⟩ := firstChar?_eq_some_iff.mp hfirst
        have hshort : more.length < (b :: rest).length := by
          have hpos := length_encoding_pos p.1
          rw [← hmore, List.length_append]
          omega
        rw [← hmore, charsOfBytes_encoding]
        exact .char (ih more.length hshort more rfl)

/-- The encodings of characters, one after the other, are read as these characters. -/
theorem reads_flatMap (cs : List Char) : Reads (cs.flatMap String.utf8EncodeChar) cs := by
  induction cs with
  | nil => exact .nil
  | cons c cs ih =>
    rw [List.flatMap_cons]
    exact .char ih

/-- All bytes are read as one text, which is the one that is made of them. -/
theorem reads_iff : Reads bytes cs ↔ (ofBytes bytes).toList = cs := by
  have hread : Reads bytes (ofBytes bytes).toList := by
    unfold ofBytes
    split
    · rename_i s hs
      rw [fromUTF8?_eq_some_iff.mp hs, toUTF8_eq_flatMap]
      exact reads_flatMap _
    · rw [String.toList_ofList]
      exact reads_charsOfBytes bytes
  constructor
  · intro h
    rw [← hread.charsOfBytes_eq, h.charsOfBytes_eq]
  · rintro rfl
    exact hread

/-- The encoding of a text is read as this text. -/
theorem Reads.encoded_iff {s : String} : Reads s.toUTF8.toList cs ↔ cs = s.toList := by
  have hread : Reads s.toUTF8.toList s.toList := by
    rw [toUTF8_eq_flatMap]
    exact reads_flatMap _
  constructor
  · intro h
    rw [← h.charsOfBytes_eq, hread.charsOfBytes_eq]
  · rintro rfl
    exact hread

end WasmLisp.Text
