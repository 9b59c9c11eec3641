import Mathlib
import WasmLisp.Proofs.Cbor
import WasmLisp.Proofs.Results

/-!
# Items are read back as they were written

* `readItem_encode`: an item that is decoded from what was written of it is the item, apart from
  the order in which the entries of its maps stand;
* `asRecord_sorted`: that order makes no difference to the fields of a record.
-/

namespace WasmLisp.Cbor

/-! ## Initial bytes -/

theorem takeBytes_append {n : Nat} {data : List UInt8} (h : data.length = n) (rest : List UInt8) :
    takeBytes n (data ++ rest) = .ok (data, rest) := by
  unfold takeBytes
  rw [List.take_left' h, List.drop_left' h, if_pos h]

theorem firstByte_div_mod {major info : Nat} (hm : major < 6) (hi : info < 32) :
    (UInt8.ofNat (major * 32 + info)).toNat / 32 = major ∧
      (UInt8.ofNat (major * 32 + info)).toNat % 32 = info := by
  rw [UInt8.toNat_ofNat', Nat.mod_eq_of_lt (by omega)]
  omega

/-- The forms that the initial bytes of a number can have: in the first byte, in bytes of their
own, or beyond what a decoder reads. -/
theorem head_forms (n : Nat) :
    (n < 24 ∧ headInfo n = n ∧ headTail n = []) ∨
      (∃ width, (headInfo n, width) ∈ [(24, 1), (25, 2), (26, 4), (27, 8)] ∧ n < 256 ^ width ∧
        headTail n = bigEndian width n) ∨
      headInfo n = 28 := by
  unfold headInfo headTail
  split_ifs with h₁ h₂ h₃ h₄ h₅
  · exact .inl ⟨h₁, rfl, rfl⟩
  · exact .inr (.inl ⟨1, by simp, by omega, rfl⟩)
  · exact .inr (.inl ⟨2, by simp, by omega, rfl⟩)
  · exact .inr (.inl ⟨4, by simp, by omega, rfl⟩)
  · exact .inr (.inl ⟨8, by simp, by omega, rfl⟩)
  · exact .inr (.inr rfl)

/-- The initial bytes of an item are read back, if they are read at all. -/
theorem readHead_head {major n : Nat} (hm : major < 6) {rest rest' : List UInt8} {h : Head}
    (hread : readHead (head major n ++ rest) = .ok (h, rest')) :
    h.major = major ∧ h.value = n ∧ h.indefinite = false ∧ rest' = rest := by
  obtain ⟨hmajor, hinfo⟩ := firstByte_div_mod hm (headInfo_lt n)
  have hsimple : (major = 7) = False := by simp; omega
  rw [head_eq, List.cons_append, readHead] at hread
  simp only [hmajor, hinfo] at hread
  rcases head_forms n with ⟨hn, hi, ht⟩ | ⟨width, hw, hn, ht⟩ | hi
  · simp only [hi, ht, hn, if_true, List.nil_append] at hread
    cases hread
    exact ⟨rfl, rfl, by simp [Head.indefinite]; omega, rfl⟩
  · have htake := takeBytes_append (length_bigEndian width n) rest
    have hvalue := ofBigEndian_bigEndian hn
    simp only [List.mem_cons, Prod.mk.injEq, List.not_mem_nil, or_false] at hw
    rcases hw with ⟨hi, rfl⟩ | ⟨hi, rfl⟩ | ⟨hi, rfl⟩ | ⟨hi, rfl⟩ <;>
    · simp only [hi, ht, htake, hvalue, hsimple, bind, Except.bind, pure, Except.pure,
        Nat.reduceLT, Nat.reduceEqDiff, if_true, if_false, decide_false,
        Bool.false_and, Bool.false_eq_true] at hread
      cases hread
      exact ⟨rfl, rfl, rfl, rfl⟩
  · simp [hi] at hread

/-! ## Items -/

mutual

/-- The item is made of integers, strings of bytes, texts, arrays, and maps whose keys are texts. -/
def Regular : Cbor → Prop
  | .int _ => True
  | .bytes _ => True
  | .text _ => True
  | .array items => AllRegular items
  | .map entries => EntriesRegular entries
  | _ => False

def AllRegular : List Cbor → Prop
  | [] => True
  | c :: rest => c.Regular ∧ AllRegular rest

def EntriesRegular : List (Cbor × Cbor) → Prop
  | [] => True
  | (k, v) :: rest => (∃ s, k = .text s) ∧ v.Regular ∧ EntriesRegular rest

end

theorem allRegular_iff {items : List Cbor} : AllRegular items ↔ ∀ c ∈ items, c.Regular := by
  induction items with
  | nil => simp [AllRegular]
  | cons c items ih => simp [AllRegular, ih]

theorem entriesRegular_iff {entries : List (Cbor × Cbor)} :
    EntriesRegular entries ↔ ∀ e ∈ entries, (∃ s, e.1 = .text s) ∧ e.2.Regular := by
  induction entries with
  | nil => simp [EntriesRegular]
  | cons e entries ih => simp [EntriesRegular, ih, and_assoc]

theorem Regular.headed {c : Cbor} (h : c.Regular) : c.Headed := by
  cases c with
  | int | bytes | text | array | map => trivial
  | _ => exact absurd h id

mutual

/-- The item with the entries of its maps in the order in which they are written. -/
def sorted : Cbor → Cbor
  | .array items => .array (sortedItems items)
  | .map entries => .map ((sortedValues entries).mergeSort entryLe)
  | c => c

def sortedItems : List Cbor → List Cbor
  | [] => []
  | c :: rest => c.sorted :: sortedItems rest

def sortedValues : List (Cbor × Cbor) → List (Cbor × Cbor)
  | [] => []
  | (k, v) :: rest => (k, v.sorted) :: sortedValues rest

end

@[simp]
theorem sorted_int (v : Int) : (int v).sorted = int v := by simp [sorted]

@[simp]
theorem sorted_bytes (data : List UInt8) : (bytes data).sorted = bytes data := by simp [sorted]

@[simp]
theorem sorted_text (s : String) : (text s).sorted = text s := by simp [sorted]

theorem sortedItems_eq_map (items : List Cbor) : sortedItems items = items.map sorted := by
  induction items with
  | nil => rfl
  | cons c items ih => rw [sortedItems, ih, List.map_cons]

theorem sortedValues_eq_map (entries : List (Cbor × Cbor)) :
    sortedValues entries = entries.map fun e => (e.1, e.2.sorted) := by
  induction entries with
  | nil => rfl
  | cons e entries ih => rw [sortedValues, ih, List.map_cons]

/-- The reader gives of a written item, if anything, the item and what follows it. -/
def Reads (item : List UInt8 → Except Fault (Cbor × List UInt8)) : Prop :=
  ∀ {c c' : Cbor} {rest rest' : List UInt8}, c.Regular →
    item (c.encode ++ rest) = .ok (c', rest') → c' = c.sorted ∧ rest' = rest

theorem Reads.readItems {item : List UInt8 → Except Fault (Cbor × List UInt8)} (hitem : Reads item)
    {items : List Cbor} (hr : ∀ c ∈ items, c.Regular) {acc out : List Cbor}
    {rest rest' : List UInt8}
    (h : readItems item items.length acc (encodeItems items ++ rest) = .ok (out, rest')) :
    out = (items.map sorted).reverse ++ acc ∧ rest' = rest := by
  induction items generalizing acc with
  | nil =>
    cases h
    exact ⟨rfl, rfl⟩
  | cons c items ih =>
    rw [List.length_cons, Cbor.readItems, encodeItems, List.append_assoc] at h
    obtain ⟨⟨c', more⟩, hc, h⟩ := Except.bind_eq_ok h
    obtain ⟨rfl, rfl⟩ := hitem (hr c List.mem_cons_self) hc
    obtain ⟨rfl, rfl⟩ := ih (fun d hd => hr d (List.mem_cons_of_mem _ hd)) h
    simp

theorem length_flatEntries (entries : List (Cbor × Cbor)) :
    (flatEntries entries).length = 2 * entries.length := by
  induction entries with
  | nil => rfl
  | cons e entries ih =>
    simp only [flatEntries, List.flatMap_cons, List.length_append] at ih ⊢
    simp only [ih, List.length_cons, List.length_nil]
    omega

theorem pairUp_flatEntries (entries : List (Cbor × Cbor)) :
    pairUp (flatEntries entries) = some entries := by
  induction entries with
  | nil => rfl
  | cons e entries ih =>
    simp only [flatEntries, List.flatMap_cons, List.cons_append, List.nil_append] at ih ⊢
    rw [pairUp, ih]
    rfl

/-- A map's sorted entries are its entries, sorted, with their values so. -/
theorem map_sorted_flatEntries {entries : List (Cbor × Cbor)} (hr : EntriesRegular entries) :
    (flatEntries (entries.mergeSort entryLe)).map sorted =
      flatEntries ((sortedValues entries).mergeSort entryLe) := by
  rw [entriesRegular_iff] at hr
  have hkeys : ∀ e ∈ entries.mergeSort entryLe, e.1.sorted = e.1 := by
    intro e he
    obtain ⟨s, hs⟩ := (hr e ((List.mergeSort_perm _ _).mem_iff.mp he)).1
    rw [hs, sorted_text]
  have hmap : (sortedValues entries).mergeSort entryLe =
      (entries.mergeSort entryLe).map fun e => (e.1, e.2.sorted) := by
    rw [sortedValues_eq_map]
    symm
    apply List.map_mergeSort
    intro a _ b _
    rfl
  rw [hmap, flatEntries, flatEntries, List.map_flatMap, List.flatMap_map]
  apply List.flatMap_congr
  intro e he
  simp [hkeys e he]

theorem textOfChunks_single (s : String) : textOfChunks [s.toUTF8.toList] = .text s := by
  have hread : [s.toUTF8.toList].mapM (fun c => String.fromUTF8? ⟨c.toArray⟩) = some [s] := by
    rw [List.mapM_cons, Text.fromUTF8?_toUTF8]
    rfl
  rw [textOfChunks, hread]
  simp [String.join]

theorem Reads.readBare {item : List UInt8 → Except Fault (Cbor × List UInt8)} (hitem : Reads item)
    (limits : Limits) (deeper : Bool) : Reads (readBare limits item deeper) := by
  intro c c' rest rest' hr hread
  rw [hr.headed.encode_eq, List.append_assoc, Cbor.readBare] at hread
  obtain ⟨⟨hd, after⟩, hhead, hbody⟩ := Except.bind_eq_ok hread
  obtain ⟨hmajor, hvalue, hdefinite, rfl⟩ := readHead_head (major_lt c) hhead
  clear hread hhead
  dsimp only at hbody
  rw [hmajor] at hbody
  cases c with
  | int v =>
    by_cases hv : 0 ≤ v
    · simp only [major, number, if_pos hv] at hbody hvalue
      cases hbody
      exact ⟨by rw [hvalue, Int.toNat_of_nonneg hv, sorted_int], rfl⟩
    · simp only [major, number, if_neg hv] at hbody hvalue
      cases hbody
      have hneg : -1 - (hd.value : Int) = v := by omega
      exact ⟨by rw [hneg, sorted_int], rfl⟩
  | bytes data =>
    simp only [major, hdefinite, hvalue, number, payload, Bool.false_eq_true, if_false] at hbody
    rw [takeBytes_append rfl] at hbody
    cases hbody
    exact ⟨by rw [sorted_bytes], rfl⟩
  | text s =>
    simp only [major, hdefinite, hvalue, number, payload, Bool.false_eq_true, if_false] at hbody
    rw [takeBytes_append rfl] at hbody
    cases hbody
    exact ⟨by rw [textOfChunks_single, sorted_text], rfl⟩
  | array items =>
    simp only [major, hdefinite, hvalue, number, payload, Bool.false_eq_true, if_false] at hbody
    split_ifs at hbody
    obtain ⟨⟨out, more⟩, hitems, hend⟩ := Except.bind_eq_ok hbody
    obtain ⟨rfl, rfl⟩ := hitem.readItems (allRegular_iff.mp hr) hitems
    cases hend
    exact ⟨by simp [sorted, sortedItems_eq_map], rfl⟩
  | map entries =>
    simp only [major, hdefinite, hvalue, number, payload, Bool.false_eq_true, if_false] at hbody
    split_ifs at hbody
    · cases hbody
    · have hlen : 2 * entries.length = (flatEntries (entries.mergeSort entryLe)).length := by
        rw [length_flatEntries, List.length_mergeSort]
      have hregular : ∀ c ∈ flatEntries (entries.mergeSort entryLe), c.Regular := by
        intro c hc
        obtain ⟨e, he, hce⟩ := List.mem_flatMap.mp hc
        obtain ⟨⟨s, hs⟩, hv⟩ :=
          entriesRegular_iff.mp hr e ((List.mergeSort_perm _ _).mem_iff.mp he)
        simp only [List.mem_cons, List.not_mem_nil, or_false] at hce
        rcases hce with rfl | rfl
        · rw [hs]
          trivial
        · exact hv
      rw [hlen] at hbody
      obtain ⟨⟨out, more⟩, hitems, hend⟩ := Except.bind_eq_ok hbody
      obtain ⟨rfl, rfl⟩ := hitem.readItems hregular hitems
      rw [map_sorted_flatEntries hr] at hend
      simp only [List.append_nil, List.reverse_reverse, pairUp_flatEntries] at hend
      cases hend
      exact ⟨by rw [sorted], rfl⟩
  | _ => exact absurd hr id

/-- Items that are written without tags are read so. -/
theorem readTags_encode {c : Cbor} (hr : c.Regular) (fuel : Nat) (rest : List UInt8) :
    readTags fuel (c.encode ++ rest) = .ok ([], c.encode ++ rest) := by
  cases fuel with
  | zero => rfl
  | succ fuel =>
    rw [hr.headed.encode_eq, head_eq, List.cons_append, List.cons_append, readTags]
    have hfirst := (firstByte_div_mod (major_lt c) (headInfo_lt c.number)).1
    have hmajor := major_lt c
    rw [hfirst, if_neg (by omega)]

theorem Reads.readItem (limits : Limits) (levels : Nat) : Reads (readItem limits levels) := by
  induction levels with
  | zero =>
    intro c c' rest rest' hr h
    rw [Cbor.readItem, readTags_encode hr] at h
    obtain ⟨⟨tags, after⟩, htags, hitem⟩ := Except.bind_eq_ok h
    cases htags
    simp only [List.length_nil, Nat.not_lt_zero, if_false] at hitem
    obtain ⟨⟨d, more⟩, hbare, hend⟩ := Except.bind_eq_ok hitem
    have hnone : Reads fun _ => .error .tooDeep := by
      intro c c' rest rest' _ hread
      cases hread
    obtain ⟨rfl, rfl⟩ := hnone.readBare limits false hr hbare
    cases hend
    exact ⟨rfl, rfl⟩
  | succ levels ih =>
    intro c c' rest rest' hr h
    rw [Cbor.readItem, readTags_encode hr] at h
    obtain ⟨⟨tags, after⟩, htags, hitem⟩ := Except.bind_eq_ok h
    cases htags
    simp only [List.length_nil, Nat.not_lt_zero, if_false] at hitem
    obtain ⟨⟨d, more⟩, hbare, hend⟩ := Except.bind_eq_ok hitem
    obtain ⟨rfl, rfl⟩ := ih.readBare limits true hr hbare
    cases hend
    exact ⟨rfl, rfl⟩

/-- What is decoded from a written item is the item, its maps sorted. -/
theorem decode_encode {limits : Limits} {c c' : Cbor} (hr : c.Regular)
    (h : decode limits c.encode = .ok c') : c' = c.sorted := by
  rw [← List.append_nil c.encode] at h
  obtain ⟨⟨d, rest⟩, hread, hend⟩ := Except.bind_eq_ok h
  obtain ⟨rfl, rfl⟩ := Reads.readItem limits limits.nesting hr hread
  cases hend
  rfl

/-! ## Records -/

/-- The entry that a field of a record is written as. -/
def toEntry (f : String × Cbor) : Cbor × Cbor := (.text f.1, f.2)

theorem record_eq (fields : List (String × Cbor)) : record fields = .map (fields.map toEntry) := rfl

theorem regular_record {fields : List (String × Cbor)} (h : ∀ f ∈ fields, f.2.Regular) :
    (record fields).Regular := by
  rw [record_eq, Regular, entriesRegular_iff]
  intro e he
  obtain ⟨f, hf, rfl⟩ := List.mem_map.mp he
  exact ⟨⟨f.1, rfl⟩, h f hf⟩

/-- Entries whose keys are different names of fields are all assigned. -/
theorem assign_toEntry {names : List String} {fields : List (String × Cbor)}
    (hnames : ∀ f ∈ fields, f.1 ∈ names) (hnodup : (fields.map Prod.fst).Nodup) :
    assign names (fields.map toEntry) = .ok fields := by
  induction fields generalizing names with
  | nil => rfl
  | cons f fields ih =>
    obtain ⟨key, v⟩ := f
    rw [List.map_cons, List.nodup_cons] at hnodup
    have hfind : names.find? (· == key) = some key := by
      have hkey := hnames _ List.mem_cons_self
      cases hf : names.find? (· == key) with
      | none => simpa using List.find?_eq_none.mp hf key hkey
      | some found => rw [show found = key by simpa using List.find?_some hf]
    have hrest : assign (names.filter (· != key)) (fields.map toEntry) = .ok fields := by
      apply ih _ hnodup.2
      intro f hf
      rw [List.mem_filter, bne_iff_ne]
      refine ⟨hnames f (List.mem_cons_of_mem _ hf), ?_⟩
      intro hkey
      exact hnodup.1 (List.mem_map.mpr ⟨f, hf, hkey⟩)
    rw [List.map_cons, toEntry, assign]
    simp only [hfind, Option.some_or, hrest]
    rfl

theorem lookup_eq_some_iff_mem {α : Type} {fields : List (String × α)}
    (hnodup : (fields.map Prod.fst).Nodup) {name : String} {v : α} :
    fields.lookup name = some v ↔ (name, v) ∈ fields := by
  induction fields with
  | nil => simp
  | cons f fields ih =>
    obtain ⟨key, w⟩ := f
    rw [List.map_cons, List.nodup_cons] at hnodup
    rw [List.lookup_cons, List.mem_cons, Prod.mk.injEq]
    by_cases hkey : name = key
    · subst hkey
      have hnot : (name, v) ∉ fields :=
        fun h => hnodup.1 (List.mem_map.mpr ⟨(name, v), h, rfl⟩)
      simp [hnot, eq_comm]
    · rw [beq_false_of_ne hkey]
      simp [hkey, ih hnodup.2]

/-- A record that was written is read back as the fields that it was written from, whatever their
order. -/
theorem asRecord_sorted {names : List String} {fields : List (String × Cbor)}
    (hnames : ∀ f ∈ fields, f.1 ∈ names) (hnodup : (fields.map Prod.fst).Nodup) :
    ∃ r, asRecord names (record fields).sorted = .ok r ∧
      ∀ name, r.lookup name = (fields.lookup name).map sorted := by
  let values := fields.map fun f => (f.1, f.2.sorted)
  let r := values.mergeSort fun a b => entryLe (toEntry a) (toEntry b)
  have hperm : r.Perm values := List.mergeSort_perm _ _
  have hkeys : values.map Prod.fst = fields.map Prod.fst := by simp [values]
  have hnodup' : (r.map Prod.fst).Nodup :=
    (hperm.map Prod.fst).nodup_iff.mpr (hkeys ▸ hnodup)
  have hsorted : (record fields).sorted = .map (r.map toEntry) := by
    rw [record_eq, sorted, sortedValues_eq_map, List.map_map]
    congr 1
    rw [show fields.map ((fun e => (e.1, e.2.sorted)) ∘ toEntry) = values.map toEntry by
      simp [values, toEntry]]
    symm
    apply List.map_mergeSort
    intro a _ b _
    rfl
  refine ⟨r, ?_, fun name => ?_⟩
  · rw [hsorted]
    apply assign_toEntry _ hnodup'
    intro f hf
    obtain ⟨g, hg, rfl⟩ := List.mem_map.mp (hperm.mem_iff.mp hf)
    exact hnames g hg
  · apply Option.ext
    intro v
    rw [lookup_eq_some_iff_mem hnodup', hperm.mem_iff, Option.map_eq_some_iff]
    simp only [values, List.mem_map, Prod.mk.injEq, Prod.exists, lookup_eq_some_iff_mem hnodup]
    constructor
    · rintro ⟨key, c, hmem, rfl, rfl⟩
      exact ⟨c, hmem, rfl⟩
    · rintro ⟨c, hmem, rfl⟩
      exact ⟨name, c, hmem, rfl, rfl⟩

/-! ## Values -/

/-- Whatever is read from what was written of a value is the value. -/
def Recovers {α : Type} (read : Cbor → Except Fault α) (write : α → Cbor) : Prop :=
  ∀ {a b : α}, read (write a).sorted = .ok b → b = a

theorem recovers_text : Recovers asText text := by
  intro a b h
  rw [sorted_text] at h
  cases h
  rfl

theorem recovers_int (lo hi : Int) : Recovers (asInt lo hi) int := by
  intro a b h
  rw [sorted_int] at h
  simp only [asInt, untag, bind, Except.bind] at h
  split at h
  · cases h
    rfl
  · cases h

theorem recovers_int64 : Recovers asInt64 fun v => int v.toInt := by
  intro a b h
  unfold asInt64 at h
  cases hv : asInt (-0x8000000000000000) 0x7fffffffffffffff (int a.toInt).sorted with
  | error e =>
    rw [hv] at h
    cases h
  | ok v =>
    rw [hv] at h
    cases h
    rw [recovers_int _ _ hv, Int64.ofInt_toInt]

theorem Recovers.list {α : Type} {read : Cbor → Except Fault α} {write : α → Cbor}
    (h : Recovers read write) : Recovers (asList read) fun as => array (as.map write) := by
  intro as bs hread
  rw [sorted, sortedItems_eq_map, List.map_map] at hread
  have hitems : (as.map (sorted ∘ write)).mapM read = .ok bs := hread
  rw [List.mapM_map] at hitems
  have hall := mapM_eq_ok hitems
  clear hread hitems
  induction hall with
  | nil => rfl
  | cons hab _ ih => rw [h hab, ih]

end WasmLisp.Cbor
