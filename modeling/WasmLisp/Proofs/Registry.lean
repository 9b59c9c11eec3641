import Mathlib
import WasmLisp.Registry
import WasmLisp.Table

/-!
# Records of registered symbols

A registration finds the record of a name or adds the next one. The records stay in the order of their
registration, which numbers them and gives them their addresses.

* `Registry.register_eq_ok`: what a registration does;
* `Registry.Orderly`: records are numbered in their order and have names of their own, so that no two have
  one address (`Registry.Orderly.address_ne`);
* `Registry.Binds`: a table of the addresses that registered names have.
-/

namespace WasmLisp

namespace Registry

variable {r r' : Registry} {s : Foreign} {origin x : String} {record : Record}

/-! ## Registration -/

/-- The names of the records. -/
def recorded (records : List Record) : List String := records.map (·.symbol.name)

theorem resolve?_eq_none : r.resolve? x = none ↔ x ∉ recorded r.records := by
  simp [resolve?, recorded]

/-- A name that is not registered can be added. -/
theorem nodup_recorded_append (h : (recorded r.records).Nodup)
    (hnew : r.resolve? record.symbol.name = none) : (recorded (r.records ++ [record])).Nodup := by
  rw [recorded, List.map_append, List.nodup_append]
  refine ⟨h, List.nodup_singleton _, ?_⟩
  rintro x hx y hy rfl
  rw [List.map_singleton, List.mem_singleton] at hy
  exact resolve?_eq_none.mp hnew (hy ▸ hx)

/-- The record that a new symbol gets. -/
def next (r : Registry) (s : Foreign) (origin : String) : Record :=
  { symbol := s, origin, address := addressOf (r.records.length + 1), seq := r.records.length + 1 }

/-- A registration finds the record of the name, or adds the next one. -/
theorem register_eq_ok (h : r.register s origin = .ok (record, r')) :
    r.resolve? s.name = some record ∧ r' = r ∨
      r.resolve? s.name = none ∧ record = r.next s origin ∧
        r' = { records := r.records ++ [r.next s origin] } := by
  unfold register at h
  split at h
  · cases h
  split at h
  · rename_i known hknown
    split at h
    · cases h
      exact .inl ⟨hknown, rfl⟩
    · cases h
  · rename_i hnone
    cases h
    exact .inr ⟨hnone, rfl, rfl⟩

theorem register_cases (h : r.register s origin = .ok (record, r')) :
    r' = r ∨ r.resolve? s.name = none ∧ ∃ added : Record, added.symbol = s ∧
      r'.records = r.records ++ [added] := by
  obtain ⟨-, hsame⟩ | ⟨hnone, -, rfl⟩ := register_eq_ok h
  · exact .inl hsame
  · exact .inr ⟨hnone, _, rfl, rfl⟩

/-! ## Symbols that can be registered -/

/-- What registration adds has nothing wrong with it. -/
theorem problem?_of_register (h : r.register s origin = .ok (record, r')) : problem? s = none := by
  unfold Registry.register at h
  split at h
  · cases h
  · assumption

/-- A symbol that nothing is wrong with has no slash in its name. -/
theorem slash_notMem_of_problem? (h : problem? s = none) : '/' ∉ s.name.toList := by
  intro hslash
  unfold problem? at h
  split at h
  · cases h
  · rw [if_pos (List.contains_iff_mem.mpr hslash)] at h
    cases h

/-- Nothing is wrong with what is registered. -/
def Proper (r : Registry) : Prop := ∀ record ∈ r.records, problem? record.symbol = none

theorem proper_empty : Proper {} := fun _ h => absurd h List.not_mem_nil

theorem Proper.slash_notMem (h : r.Proper) (hx : r.resolve? x = some record) : '/' ∉ x.toList := by
  have hname : record.symbol.name = x := by simpa using List.find?_some hx
  exact hname ▸ slash_notMem_of_problem? (h record (List.mem_of_find?_eq_some hx))

theorem Proper.register (h : r.Proper) (hr : r.register s origin = .ok (record, r')) : r'.Proper := by
  obtain rfl | ⟨-, added, hadded, hrecords⟩ := register_cases hr
  · exact h
  · intro record' hmem
    rw [hrecords, List.mem_append, List.mem_singleton] at hmem
    obtain hold | rfl := hmem
    · exact h record' hold
    · rw [hadded]
      exact problem?_of_register hr

theorem Proper.registerSymbols (h : r.Proper) (name : String) (symbols : List Foreign) :
    (r.registerSymbols name symbols).1.Proper := by
  induction symbols generalizing r with
  | nil => exact h
  | cons s symbols ih =>
    unfold Registry.registerSymbols
    split
    · rename_i r' hr
      exact ih (h.register hr)
    · exact h

/-! ## Order -/

/-- Records are numbered in the order of their registration, and have names of their own. -/
structure Orderly (r : Registry) : Prop where
  numbered : ∀ i record, r.records[i]? = some record →
    record.seq = i + 1 ∧ record.address = addressOf (i + 1)
  distinct : (recorded r.records).Nodup

theorem orderly_empty : Orderly {} := ⟨nofun, .nil⟩

theorem Orderly.next (h : r.Orderly) (hnew : r.resolve? s.name = none) :
    Orderly { records := r.records ++ [r.next s origin] } := by
  constructor
  · intro i record hi
    rw [List.getElem?_append] at hi
    split at hi
    · exact h.numbered i record hi
    · rename_i hle
      have hlast : i - r.records.length = 0 := by
        have hlt := (List.getElem?_eq_some_iff.mp hi).1
        simpa using hlt
      rw [hlast] at hi
      cases hi
      have heq : i = r.records.length := by omega
      subst heq
      exact ⟨rfl, rfl⟩
  · exact nodup_recorded_append h.distinct hnew

theorem Orderly.register (h : r.Orderly) (hr : r.register s origin = .ok (record, r')) :
    r'.Orderly ∧ r.records <+: r'.records := by
  obtain ⟨-, rfl⟩ | ⟨hnew, -, rfl⟩ := register_eq_ok hr
  · exact ⟨h, List.prefix_rfl⟩
  · exact ⟨h.next hnew, List.prefix_append _ _⟩

/-- Records of different names have different addresses. -/
theorem Orderly.address_ne (h : r.Orderly) {record' : Record} (hr : record ∈ r.records)
    (hr' : record' ∈ r.records) (hne : record.symbol.name ≠ record'.symbol.name) :
    record.address ≠ record'.address := by
  obtain ⟨i, hi⟩ := List.getElem?_of_mem hr
  obtain ⟨j, hj⟩ := List.getElem?_of_mem hr'
  intro heq
  rw [(h.numbered i _ hi).2, (h.numbered j _ hj).2] at heq
  have hvalue : 0x10000 + (i + 1) * 8 = 0x10000 + (j + 1) * 8 := congrArg Address.value heq
  have hij : i = j := by omega
  subst hij
  cases hi.symm.trans hj
  exact hne rfl

/-- The record of a name stays the record of the name. -/
theorem resolve?_of_prefix (h : r.records <+: r'.records) (hx : r.resolve? x = some record) :
    r'.resolve? x = some record := by
  obtain ⟨more, hmore⟩ := h
  unfold resolve? at hx ⊢
  rw [← hmore, List.find?_append, hx]
  rfl

/-- Only the name of the symbol is resolved in another way. -/
theorem resolve?_register_of_ne (h : r.register s origin = .ok (record, r')) (hx : x ≠ s.name) :
    r'.resolve? x = r.resolve? x := by
  obtain ⟨-, rfl⟩ | ⟨-, -, rfl⟩ := register_eq_ok h
  · rfl
  · have hne : (r.next s origin).symbol.name ≠ x := hx.symm
    unfold resolve?
    rw [List.find?_append, List.find?_singleton, if_neg (by simpa using hne), Option.or_none]

theorem Orderly.registerSymbols (h : r.Orderly) (name : String) (symbols : List Foreign) :
    (r.registerSymbols name symbols).1.Orderly ∧
      r.records <+: (r.registerSymbols name symbols).1.records := by
  induction symbols generalizing r with
  | nil => exact ⟨h, List.prefix_rfl⟩
  | cons s symbols ih =>
    unfold Registry.registerSymbols
    split
    · rename_i r' hr
      obtain ⟨h', hpre⟩ := h.register hr
      obtain ⟨hlast, hpre'⟩ := ih h'
      exact ⟨hlast, hpre.trans hpre'⟩
    · exact ⟨h, List.prefix_rfl⟩

/-! ## Addresses -/

/-- The table has the address of each of the names that is registered, and nothing else. -/
def Binds (r : Registry) (names : List String) (t : Table Address) : Prop :=
  ∀ x a, t.get? x = some a ↔ x ∈ names ∧ ∃ record, r.resolve? x = some record ∧ record.address = a

/-- A name that is registered is bound. -/
theorem Binds.insert {names : List String} {t : Table Address} (h : r.Binds names t)
    (hx : r'.resolve? x = some record) (hsame : ∀ y, y ≠ x → r'.resolve? y = r.resolve? y) :
    r'.Binds (names ++ [x]) (t.insert x record.address) := by
  intro y a
  rw [Table.get?_insert, List.mem_append, List.mem_singleton]
  by_cases hy : y = x
  · subst hy
    rw [if_pos rfl, hx]
    simp
  · rw [if_neg hy, h y a, hsame y hy]
    simp [hy]

/-- A name that is not registered is not bound. -/
theorem Binds.skip {names : List String} {t : Table Address} (h : r.Binds names t)
    (hx : r.resolve? x = none) : r.Binds (names ++ [x]) t := by
  intro y a
  rw [h y a, List.mem_append, List.mem_singleton]
  constructor
  · exact fun ⟨hy, hrecord⟩ => ⟨.inl hy, hrecord⟩
  · rintro ⟨hy | rfl, record, hrecord, ha⟩
    · exact ⟨hy, record, hrecord, ha⟩
    · rw [hx] at hrecord
      cases hrecord

end Registry

end WasmLisp
