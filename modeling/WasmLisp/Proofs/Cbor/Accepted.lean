import Mathlib
import WasmLisp.Proofs.Cbor.Decode

/-!
# Items within the limits are read

`Reads` says what a reader gives if it gives anything. Here is when it does: an item is accepted if no
number in it needs more than 64 bits, its arrays and maps are within the limits, and they are not nested
too deep (`accepts_int`, `accepts_array` and the like, from which `decode_of_accepts`). A value is
restored if what was written of it reads as it (`restores_text`, `restores_list` and the like).
-/

namespace WasmLisp.Cbor

/-! ## Initial bytes -/

/-- The initial bytes of a number of 64 bits are read back. -/
theorem readHead_head_eq {major n : Nat} (hm : major < 6) (hn : n < 0x10000000000000000)
    (rest : List UInt8) :
    ∃ h : Head, readHead (head major n ++ rest) = .ok (h, rest) ∧ h.major = major ∧ h.value = n ∧
      h.indefinite = false := by
  suffices hread : ∃ out, readHead (head major n ++ rest) = .ok out by
    obtain ⟨⟨h, rest'⟩, hread⟩ := hread
    obtain ⟨hmajor, hvalue, hdefinite, rfl⟩ := readHead_head hm hread
    exact ⟨h, hread, hmajor, hvalue, hdefinite⟩
  obtain ⟨hmajor, hinfo⟩ := firstByte_div_mod hm (headInfo_lt n)
  have hsimple : (major = 7) = False := by simp; omega
  rw [head_eq, List.cons_append, readHead]
  simp only [hmajor, hinfo]
  rcases head_forms n with ⟨hn, hi, ht⟩ | ⟨width, hw, -, ht⟩ | hi
  · simp only [hi, hn, if_true]
    exact ⟨_, rfl⟩
  · have htake := takeBytes_append (length_bigEndian width n) rest
    simp only [List.mem_cons, Prod.mk.injEq, List.not_mem_nil, or_false] at hw
    rcases hw with ⟨hi, rfl⟩ | ⟨hi, rfl⟩ | ⟨hi, rfl⟩ | ⟨hi, rfl⟩ <;>
    · simp only [hi, ht, htake, hsimple, bind, Except.bind, pure, Except.pure, Nat.reduceLT,
        Nat.reduceEqDiff, if_true, if_false, decide_false, Bool.false_and, Bool.false_eq_true]
      exact ⟨_, rfl⟩
  · unfold headInfo at hi
    split_ifs at hi <;> omega

/-! ## Items -/

variable {item : List UInt8 → Except Fault (Cbor × List UInt8)} {limits : Limits} {levels : Nat}

/-- The reader takes the item, wherever its encoding stands, if the encoding is no longer than 64 bits
can say. -/
def Accepts (item : List UInt8 → Except Fault (Cbor × List UInt8)) (c : Cbor) : Prop :=
  c.Regular ∧ (c.encode.length < 0x10000000000000000 →
    ∀ rest, item (c.encode ++ rest) = .ok (c.sorted, rest))

theorem length_payload_le {c : Cbor} (h : c.Headed) : c.payload.length ≤ c.encode.length := by
  rw [h.encode_eq, List.length_append]
  exact Nat.le_add_left _ _

theorem length_encode_le_encodeItems {c : Cbor} {items : List Cbor} (h : c ∈ items) :
    c.encode.length ≤ (encodeItems items).length := by
  induction items with
  | nil => cases h
  | cons d items ih =>
    rw [encodeItems, List.length_append]
    obtain rfl | h := List.mem_cons.mp h
    · exact Nat.le_add_right _ _
    · exact (ih h).trans (Nat.le_add_left _ _)

theorem readItems_encodeItems {items : List Cbor}
    (h : ∀ c ∈ items, ∀ rest, item (c.encode ++ rest) = .ok (c.sorted, rest)) (acc : List Cbor)
    (rest : List UInt8) :
    readItems item items.length acc (encodeItems items ++ rest) =
      .ok ((items.map sorted).reverse ++ acc, rest) := by
  induction items generalizing acc with
  | nil => rfl
  | cons c items ih =>
    rw [List.length_cons, readItems, encodeItems, List.append_assoc, h c List.mem_cons_self]
    show readItems item items.length (c.sorted :: acc) (encodeItems items ++ rest) = _
    rw [ih fun d hd => h d (List.mem_cons_of_mem _ hd)]
    simp

/-- An item without tags is read as one that has none. -/
theorem accepts_of_readBare {c : Cbor} (hr : c.Regular)
    (hzero : levels = 0 → Accepts (readBare limits (fun _ => .error .tooDeep) false) c)
    (hsucc : ∀ n, levels = n + 1 → Accepts (readBare limits (readItem limits n) true) c) :
    Accepts (readItem limits levels) c := by
  refine ⟨hr, fun hlen rest => ?_⟩
  cases levels with
  | zero =>
    rw [readItem, readTags_encode hr]
    show (readBare limits _ false (c.encode ++ rest) >>= _) = _
    rw [(hzero rfl).2 hlen rest]
    rfl
  | succ n =>
    rw [readItem, readTags_encode hr]
    show (readBare limits _ true (c.encode ++ rest) >>= _) = _
    rw [(hsucc n rfl).2 hlen rest]
    rfl

theorem accepts_int {v : Int} (hlo : -0x10000000000000000 ≤ v) (hhi : v < 0x10000000000000000) :
    Accepts (readItem limits levels) (int v) := by
  have hbare : ∀ item deeper, Accepts (readBare limits item deeper) (int v) := by
    refine fun item deeper => ⟨trivial, fun _ rest => ?_⟩
    have hn : number (int v) < 0x10000000000000000 := by
      simp only [number]
      split_ifs <;> omega
    obtain ⟨h, hread, hmajor, hvalue, -⟩ := readHead_head_eq (major_lt (int v)) hn rest
    have hheaded : Headed (int v) := trivial
    rw [hheaded.encode_eq, show (int v).payload = [] from rfl, List.append_nil, readBare, hread]
    simp only [bind, Except.bind, hmajor]
    by_cases hv : 0 ≤ v
    · simp only [major, number, if_pos hv] at hvalue ⊢
      rw [hvalue, Int.toNat_of_nonneg hv, sorted_int]
      rfl
    · simp only [major, number, if_neg hv] at hvalue ⊢
      have hneg : -1 - (h.value : Int) = v := by omega
      rw [hneg, sorted_int]
      rfl
  exact accepts_of_readBare trivial (fun _ => hbare _ _) fun _ _ => hbare _ _

/-- A string of bytes, or of characters. -/
theorem accepts_chunk {c : Cbor} (hc : (∃ data, c = bytes data) ∨ ∃ s, c = text s) :
    Accepts (readItem limits levels) c := by
  have hr : c.Regular := by
    obtain ⟨data, rfl⟩ | ⟨s, rfl⟩ := hc <;> trivial
  have hnumber : number c = c.payload.length := by
    obtain ⟨data, rfl⟩ | ⟨s, rfl⟩ := hc <;> rfl
  have hbare : ∀ item deeper, Accepts (readBare limits item deeper) c := by
    refine fun item deeper => ⟨hr, fun hlen rest => ?_⟩
    have hn : number c < 0x10000000000000000 :=
      hnumber ▸ (length_payload_le hr.headed).trans_lt hlen
    obtain ⟨h, hread, hmajor, hvalue, hdefinite⟩ := readHead_head_eq (major_lt c) hn (c.payload ++ rest)
    rw [hr.headed.encode_eq, List.append_assoc, readBare, hread]
    obtain ⟨data, rfl⟩ | ⟨s, rfl⟩ := hc
    · simp only [bind, Except.bind, hmajor, major, hdefinite, hvalue, number, payload,
        Bool.false_eq_true, if_false, takeBytes_append rfl]
      rw [sorted_bytes]
      rfl
    · simp only [bind, Except.bind, hmajor, major, hdefinite, hvalue, number, payload,
        Bool.false_eq_true, if_false, takeBytes_append rfl]
      rw [textOfChunks_single, sorted_text]
      rfl
  exact accepts_of_readBare hr (fun _ => hbare _ _) fun _ _ => hbare _ _

theorem accepts_bytes (data : List UInt8) : Accepts (readItem limits levels) (bytes data) :=
  accepts_chunk (.inl ⟨data, rfl⟩)

theorem accepts_text (s : String) : Accepts (readItem limits levels) (text s) :=
  accepts_chunk (.inr ⟨s, rfl⟩)

/-- An array is accepted one level above its items. -/
theorem accepts_array {items : List Cbor} (hlimit : items.length ≤ limits.arrayItems)
    (hsize : limits.arrayItems < 0x10000000000000000)
    (h : ∀ c ∈ items, Accepts (readItem limits levels) c) :
    Accepts (readItem limits (levels + 1)) (array items) := by
  have hr : Regular (array items) := by
    rw [Regular, allRegular_iff]
    exact fun c hc => (h c hc).1
  refine accepts_of_readBare hr (fun hzero => absurd hzero (Nat.succ_ne_zero _)) ?_
  rintro _ ⟨rfl⟩
  refine ⟨hr, fun hlen rest => ?_⟩
  have hpayload : (encodeItems items).length < 0x10000000000000000 :=
    (length_payload_le hr.headed).trans_lt hlen
  obtain ⟨hd, hread, hmajor, hvalue, hdefinite⟩ := readHead_head_eq (major_lt (array items))
    (show number (array items) < 0x10000000000000000 from hlimit.trans_lt hsize)
    ((array items).payload ++ rest)
  have hitems := @readItems_encodeItems (readItem limits levels) _ (fun c hc =>
    (h c hc).2 ((length_encode_le_encodeItems hc).trans_lt hpayload)) [] rest
  rw [hr.headed.encode_eq, List.append_assoc, readBare, hread]
  simp only [bind, Except.bind, hmajor, major, hdefinite, hvalue, number, payload,
    Bool.not_true, Bool.false_eq_true, if_false, if_neg (Nat.not_lt.mpr hlimit), hitems,
    List.append_nil, List.reverse_reverse]
  rw [sorted, sortedItems_eq_map]
  rfl

/-- A record is accepted one level above its fields. -/
theorem accepts_record {fields : List (String × Cbor)} (hlimit : fields.length ≤ limits.mapEntries)
    (hsize : limits.mapEntries < 0x10000000000000000)
    (h : ∀ f ∈ fields, Accepts (readItem limits levels) f.2) :
    Accepts (readItem limits (levels + 1)) (record fields) := by
  have hr : Regular (record fields) := regular_record fun f hf => (h f hf).1
  refine accepts_of_readBare hr (fun hzero => absurd hzero (Nat.succ_ne_zero _)) ?_
  rintro _ ⟨rfl⟩
  refine ⟨hr, fun hlen rest => ?_⟩
  rw [record_eq] at hlen hr ⊢
  generalize hentries : fields.map toEntry = entries at hlen hr ⊢
  have hcount : entries.length ≤ limits.mapEntries := by
    rw [← hentries, List.length_map]
    exact hlimit
  have hpayload : (encodeItems (flatEntries (entries.mergeSort entryLe))).length <
      0x10000000000000000 := (length_payload_le hr.headed).trans_lt hlen
  have hall : ∀ c ∈ flatEntries (entries.mergeSort entryLe), Accepts (readItem limits levels) c := by
    intro c hc
    obtain ⟨e, he, hce⟩ := List.mem_flatMap.mp hc
    rw [← hentries] at he
    obtain ⟨f, hf, rfl⟩ := List.mem_map.mp ((List.mergeSort_perm _ _).mem_iff.mp he)
    simp only [List.mem_cons, List.not_mem_nil, or_false] at hce
    obtain rfl | rfl := hce
    · exact accepts_text f.1
    · exact h f hf
  obtain ⟨hd, hread, hmajor, hvalue, hdefinite⟩ := readHead_head_eq (major_lt (map entries))
    (show number (map entries) < 0x10000000000000000 from hcount.trans_lt hsize)
    ((map entries).payload ++ rest)
  have hitems := @readItems_encodeItems (readItem limits levels) _ (fun c hc =>
    (hall c hc).2 ((length_encode_le_encodeItems hc).trans_lt hpayload)) [] rest
  rw [length_flatEntries, List.length_mergeSort] at hitems
  rw [hr.headed.encode_eq, List.append_assoc, readBare, hread]
  simp only [bind, Except.bind, hmajor, major, hdefinite, hvalue, number, payload,
    Bool.not_true, Bool.false_eq_true, if_false, if_neg (Nat.not_lt.mpr hcount), hitems,
    List.append_nil, List.reverse_reverse, map_sorted_flatEntries hr, pairUp_flatEntries]
  rw [sorted]
  rfl

/-- What was written of an item that is accepted is decoded to it, its maps sorted. -/
theorem decode_of_accepts {c : Cbor} (h : Accepts (readItem limits limits.nesting) c)
    (hlen : c.encode.length < 0x10000000000000000) : decode limits c.encode = .ok c.sorted := by
  have hread := h.2 hlen []
  rw [List.append_nil] at hread
  unfold decode decodeFirst
  rw [hread]
  rfl

/-! ## Values -/

variable {α : Type} {read : Cbor → Except Fault α} {write : α → Cbor}

/-- The value is read back from what was written of it. -/
def Restores (read : Cbor → Except Fault α) (write : α → Cbor) (a : α) : Prop :=
  read (write a).sorted = .ok a

theorem restores_text (s : String) : Restores asText text s := by
  rw [Restores, sorted_text]
  rfl

theorem restores_bytes (data : List UInt8) : Restores asBytes bytes data := by
  rw [Restores, sorted_bytes]
  rfl

theorem restores_int {lo hi v : Int} (hlo : lo ≤ v) (hhi : v ≤ hi) : Restores (asInt lo hi) int v := by
  rw [Restores, sorted_int]
  exact if_pos (by rw [Bool.and_eq_true, decide_eq_true_eq, decide_eq_true_eq]; exact ⟨hlo, hhi⟩)

theorem restores_int64 (v : Int64) : Restores asInt64 (fun v => int v.toInt) v := by
  have hv : asInt (-0x8000000000000000) 0x7fffffffffffffff (int v.toInt).sorted = .ok v.toInt :=
    restores_int v.le_toInt (Int.le_of_lt_add_one v.toInt_lt)
  rw [Restores, asInt64, hv]
  exact congrArg Except.ok v.ofInt_toInt

theorem restores_list {as : List α} (h : ∀ a ∈ as, Restores read write a) :
    Restores (asList read) (fun as => array (as.map write)) as := by
  rw [Restores, sorted, sortedItems_eq_map, List.map_map]
  show (as.map (sorted ∘ write)).mapM read = .ok as
  rw [List.mapM_map]
  induction as with
  | nil => rfl
  | cons a as ih =>
    have ha : read (write a).sorted = .ok a := h a List.mem_cons_self
    rw [List.mapM_cons, Function.comp_apply, Function.comp_apply, ha]
    show (List.mapM (read ∘ sorted ∘ write) as >>= _) = _
    rw [ih fun b hb => h b (List.mem_cons_of_mem _ hb)]
    rfl

variable {r : List (String × Cbor)} {name : String}

theorem field_eq_ok (write : α → Cbor) {a : α} (hlookup : r.lookup name = some (write a).sorted)
    (h : Restores read write a) : field r name read = .ok a := by
  rw [field, hlookup]
  exact h

theorem textField_eq_ok {s : String}
    (hlookup : r.lookup name = (if s = "" then none else some (text s)).map sorted) :
    field r name asText = .ok s := by
  rw [field, hlookup]
  by_cases hs : s = ""
  · rw [if_pos hs, hs]
    rfl
  · rw [if_neg hs]
    exact restores_text s

theorem listField_eq_ok (write : α → Cbor) {as : List α}
    (hlookup : r.lookup name =
      (if as.isEmpty then none else some (array (as.map write))).map sorted)
    (h : ∀ a ∈ as, Restores read write a) : field r name (asList read) = .ok as := by
  rw [field, hlookup]
  cases as with
  | nil => rfl
  | cons a as => exact restores_list h

end WasmLisp.Cbor
