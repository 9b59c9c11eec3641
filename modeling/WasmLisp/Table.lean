/-!
Tables: finite maps from texts, kept in ascending order of the keys. Two tables that are built by
`insert` and `erase` and hold the same entries are therefore equal, and listing one needs no sorting.
-/

namespace WasmLisp

/-- A finite map from texts. -/
abbrev Table (α : Type) := List (String × α)

namespace Table

variable {α : Type}

/-- The value at a key. -/
def get? (t : Table α) (k : String) : Option α := t.lookup k

/-- Whether there is a value at a key. -/
def contains (t : Table α) (k : String) : Bool := (t.get? k).isSome

/-- Puts a value at a key, in place of the one there. -/
def insert (k : String) (v : α) : Table α → Table α
  | [] => [(k, v)]
  | (k', v') :: rest =>
    if k = k' then (k, v) :: rest
    else if k < k' then (k, v) :: (k', v') :: rest
    else (k', v') :: insert k v rest

/-- Removes the value at a key. -/
def erase (t : Table α) (k : String) : Table α := t.filter (·.1 != k)

/-- The keys in ascending order. -/
def keys (t : Table α) : List String := t.map (·.1)

/-- What was put at a key is there, and the other keys keep their values. -/
theorem get?_insert (t : Table α) (k k' : String) (v : α) :
    (insert k v t).get? k' = if k' = k then some v else t.get? k' := by
  induction t with
  | nil =>
    by_cases h : k' = k
    · simp [insert, get?, h]
    · have hb : (k' == k) = false := by simp [h]
      simp [insert, get?, List.lookup_cons, h, hb]
  | cons e rest ih =>
    obtain ⟨a, b⟩ := e
    by_cases h : k' = k
    · subst h
      simp only [get?] at ih
      by_cases ha : k' = a
      · simp [insert, get?, ha]
      · have hb : (k' == a) = false := by simp [ha]
        simp only [insert, if_neg ha]
        split <;> simp [get?, List.lookup_cons, hb, ih]
    · have hb : (k' == k) = false := by simp [h]
      simp only [get?, if_neg h] at ih
      simp only [insert, get?, if_neg h]
      split
      · next hka => subst hka; simp [List.lookup_cons, hb]
      · split <;> simp [List.lookup_cons, hb, ih]

end Table

end WasmLisp
