import Mathlib
import WasmLisp.Service.Client

/-!
# The tables of a client

Calls and the reader of responses share the tables of a client. This is what each of them does to the
tables in one go:

* `Client.issue` and `Client.register`: a request gets its number, and then a place among those that
  wait; `Client.send` does both (`Client.send_eq`);
* `Client.sort`: the number of a response is looked up and struck out; `Client.take` goes on from
  there (`Client.take_eq`);
* `Client.fail`, `Client.forget`: the connection ends, a request is given up.

All of them keep the tables tidy (`Client.Tidy`), and none puts a number into them that is not its own
(`Client.Steady`).
-/

namespace WasmLisp.Service

namespace Client

variable {c : Client} {id : Nat}

/-! ## Actions -/

/-- Takes the next number. -/
def issue (c : Client) : Client := { c with issued := c.issued + 1 }

/-- Enters a number among those that wait, unless the connection has ended. -/
def register (c : Client) (id : Nat) : Client × Option Failure :=
  match c.failure with
  | some e => (c, some e)
  | none => ({ c with pending := id :: c.pending }, none)

theorem send_eq (c : Client) (r : Request) :
    c.send r = match c.issue.register (c.issued + 1) with
      | (c', some e) => (c', .error e)
      | (c', none) => (c', .ok { r with id := c.issued + 1 }) := by
  unfold send register issue
  cases c.failure <;> rfl

/-- What the number of a response turns out to be: of a request that waits, of one that was given
up, or of none. -/
inductive Sorted where
  | awaited
  | late
  | stray
  deriving DecidableEq, Repr

/-- Looks up the number of a response, and strikes it out. -/
def sort (c : Client) (id : Nat) : Client × Sorted :=
  ({ c with pending := c.pending.filter (· != id), abandoned := c.abandoned.filter (· != id) },
    if id ∈ c.abandoned then .late else if id ∈ c.pending then .awaited else .stray)

/-- Why a response that nothing waits for ends the connection. -/
def strayFailure (r : Response) : Failure :=
  match r.failure? with
  | some e =>
    if r.id = 0 then e
    else .transport .protocolViolation s!"response for unknown request {r.id}" none
  | none => .transport .protocolViolation s!"response for unknown request {r.id}" none

/-! ## Tidy tables -/

/-- No number is twice in the tables, no more are remembered than allowed, and none is left once the
connection has ended. -/
structure Tidy (c : Client) : Prop where
  pending : c.pending.Nodup
  abandoned : c.abandoned.Nodup
  disjoint : c.pending.Disjoint c.abandoned
  bounded : c.abandoned.length ≤ maxAbandoned
  ended : c.failure.isSome → c.pending = [] ∧ c.abandoned = []

theorem tidy_new : ({} : Client).Tidy :=
  ⟨.nil, .nil, List.disjoint_nil_left _, Nat.zero_le _, fun h => nomatch h⟩

/-- A connection that has ended waits for nothing. -/
theorem Tidy.notMem_pending (h : c.Tidy) (hended : c.failure.isSome) : id ∉ c.pending := by
  intro hmem
  rw [(h.ended hended).1] at hmem
  cases hmem

theorem Tidy.issue (h : c.Tidy) : c.issue.Tidy :=
  ⟨h.pending, h.abandoned, h.disjoint, h.bounded, h.ended⟩

theorem Tidy.register (h : c.Tidy) (hpending : id ∉ c.pending) (habandoned : id ∉ c.abandoned) :
    (c.register id).1.Tidy := by
  unfold Client.register
  split
  · exact h
  · rename_i hup
    refine ⟨h.pending.cons hpending, h.abandoned, ?_, h.bounded, fun hended => ?_⟩
    · exact List.disjoint_cons_left.mpr ⟨habandoned, h.disjoint⟩
    · rw [hup] at hended
      cases hended

theorem Tidy.sort (h : c.Tidy) (id : Nat) : (c.sort id).1.Tidy where
  pending := h.pending.filter _
  abandoned := h.abandoned.filter _
  disjoint := List.disjoint_of_subset_left (List.filter_subset_self _)
    (List.disjoint_of_subset_right (List.filter_subset_self _) h.disjoint)
  bounded := (List.length_filter_le _ _).trans h.bounded
  ended := by
    intro hended
    obtain ⟨hpending, habandoned⟩ := h.ended hended
    simp [Client.sort, hpending, habandoned]

theorem Tidy.fail (h : c.Tidy) (e : Failure) : (c.fail e).Tidy := by
  unfold Client.fail
  split
  · exact h
  · exact ⟨.nil, .nil, List.disjoint_nil_left _, Nat.zero_le _, fun _ => ⟨rfl, rfl⟩⟩

/-! ## Giving a request up -/

/-- The numbers that stay remembered when one more is to be. -/
def kept (c : Client) : List Nat :=
  if c.abandoned.length < maxAbandoned then c.abandoned
  else match c.abandoned.min? with
    | some least => c.abandoned.erase least
    | none => c.abandoned

theorem forget_of_mem (h : id ∈ c.pending) :
    c.forget id = { c with pending := c.pending.filter (· != id), abandoned := id :: c.kept } := by
  cases hleast : c.abandoned.min? <;>
    simp only [forget, kept, h, hleast, List.contains_eq_mem, decide_true, Bool.not_true,
      Bool.false_eq_true, if_false]

theorem forget_of_notMem (h : id ∉ c.pending) : c.forget id = c := by
  simp [forget, h]

theorem notMem_pending_forget (c : Client) (id : Nat) : id ∉ (c.forget id).pending := by
  by_cases h : id ∈ c.pending
  · simp [forget_of_mem h]
  · rwa [forget_of_notMem h]

theorem pending_forget_subset (c : Client) (id : Nat) : (c.forget id).pending ⊆ c.pending := by
  by_cases h : id ∈ c.pending
  · rw [forget_of_mem h]
    exact List.filter_subset_self _
  · rw [forget_of_notMem h]
    exact List.Subset.refl _

theorem issued_forget (c : Client) (id : Nat) : (c.forget id).issued = c.issued := by
  by_cases h : id ∈ c.pending
  · rw [forget_of_mem h]
  · rw [forget_of_notMem h]

theorem issued_fail (c : Client) (e : Failure) : (c.fail e).issued = c.issued := by
  unfold fail
  split <;> rfl

theorem kept_subset (c : Client) : c.kept ⊆ c.abandoned := by
  unfold kept
  split
  · exact List.Subset.refl _
  split
  · exact List.erase_subset
  · exact List.Subset.refl _

/-- If there is no room for one more, the least of those remembered is forgotten. -/
theorem kept_of_full (h : maxAbandoned ≤ c.abandoned.length) :
    ∃ least ∈ c.abandoned, (∀ a ∈ c.abandoned, least ≤ a) ∧ c.kept = c.abandoned.erase least := by
  cases hmin : c.abandoned.min? with
  | none =>
    -- a full table has a least number
    rw [List.min?_eq_none_iff] at hmin
    rw [hmin] at h
    cases h
  | some least =>
    obtain ⟨hmem, hle⟩ := List.min?_eq_some_iff.mp hmin
    refine ⟨least, hmem, hle, ?_⟩
    simp [kept, Nat.not_lt.mpr h, hmin]

theorem length_kept_lt (h : c.abandoned.length ≤ maxAbandoned) :
    c.kept.length < maxAbandoned := by
  by_cases hroom : c.abandoned.length < maxAbandoned
  · simp [kept, hroom]
  · obtain ⟨least, hmem, -, hkept⟩ := kept_of_full (Nat.not_lt.mp hroom)
    rw [hkept, List.length_erase_of_mem hmem]
    have hpos := List.length_pos_of_mem hmem
    omega

theorem nodup_kept (h : c.abandoned.Nodup) : c.kept.Nodup := by
  unfold kept
  split
  · exact h
  split
  · exact h.erase _
  · exact h

theorem Tidy.forget (h : c.Tidy) (id : Nat) : (c.forget id).Tidy := by
  by_cases hmem : id ∈ c.pending
  · rw [forget_of_mem hmem]
    have hnew : id ∉ c.abandoned := List.disjoint_left.mp h.disjoint hmem
    -- the number moves from one table to the other, which has room for it
    refine ⟨h.pending.filter _, (nodup_kept h.abandoned).cons (hnew <| c.kept_subset ·), ?_, ?_, ?_⟩
    · apply List.disjoint_cons_right.mpr
      refine ⟨by simp, ?_⟩
      exact List.disjoint_of_subset_left (List.filter_subset_self _)
        (List.disjoint_of_subset_right c.kept_subset h.disjoint)
    · exact length_kept_lt h.bounded
    · intro hended
      rw [(h.ended hended).1] at hmem
      cases hmem
  · rwa [forget_of_notMem hmem]

/-! ## What the others see -/

/-- For a number, no more is in the tables than before, and a failure is still the same. -/
structure Steady (id : Nat) (c c' : Client) : Prop where
  issued : c.issued ≤ c'.issued
  pending : id ∈ c'.pending → id ∈ c.pending
  abandoned : id ∈ c'.abandoned → id ∈ c.abandoned
  failure : ∀ e, c.failure = some e → c'.failure = some e

theorem steady_rfl : Steady id c c :=
  ⟨Nat.le_refl _, fun h => h, fun h => h, fun _ h => h⟩

theorem steady_issue (id : Nat) (c : Client) : Steady id c c.issue :=
  ⟨Nat.le_succ _, fun h => h, fun h => h, fun _ h => h⟩

theorem steady_register {own : Nat} (h : id ≠ own) (c : Client) :
    Steady id c (c.register own).1 := by
  unfold register
  split
  · exact steady_rfl
  · rename_i hup
    refine ⟨Nat.le_refl _, fun hmem => ?_, fun hmem => hmem, fun e he => ?_⟩
    · exact List.mem_of_ne_of_mem h hmem
    · exact he

theorem steady_sort (id own : Nat) (c : Client) : Steady id c (c.sort own).1 :=
  ⟨Nat.le_refl _, List.mem_of_mem_filter, List.mem_of_mem_filter, fun _ h => h⟩

theorem steady_forget {own : Nat} (h : id ≠ own) (c : Client) : Steady id c (c.forget own) := by
  by_cases hown : own ∈ c.pending
  · rw [forget_of_mem hown]
    refine ⟨Nat.le_refl _, List.mem_of_mem_filter, fun hmem => ?_, fun _ he => he⟩
    exact c.kept_subset (List.mem_of_ne_of_mem h hmem)
  · rw [forget_of_notMem hown]
    exact steady_rfl

theorem steady_fail (id : Nat) (c : Client) (e : Failure) : Steady id c (c.fail e) := by
  unfold fail
  split
  · exact steady_rfl
  · rename_i hup
    refine ⟨Nat.le_refl _, (absurd · List.not_mem_nil), (absurd · List.not_mem_nil), fun e' he => ?_⟩
    cases hup.symm.trans he

/-! ## Taking a response -/

theorem filter_ne_of_notMem {ids : List Nat} (h : id ∉ ids) : ids.filter (· != id) = ids := by
  apply List.filter_eq_self.mpr
  intro a ha
  simpa using ne_of_mem_of_not_mem ha h

theorem sort_of_pending (h : c.Tidy) (hpending : id ∈ c.pending) :
    c.sort id = ({ c with pending := c.pending.filter (· != id) }, .awaited) := by
  have habandoned : id ∉ c.abandoned := List.disjoint_left.mp h.disjoint hpending
  simp [sort, hpending, habandoned, filter_ne_of_notMem habandoned]

theorem sort_of_abandoned (h : c.Tidy) (habandoned : id ∈ c.abandoned) :
    c.sort id = ({ c with abandoned := c.abandoned.filter (· != id) }, .late) := by
  have hpending : id ∉ c.pending := List.disjoint_right.mp h.disjoint habandoned
  simp [sort, habandoned, filter_ne_of_notMem hpending]

theorem sort_of_notMem (hpending : id ∉ c.pending) (habandoned : id ∉ c.abandoned) :
    c.sort id = (c, .stray) := by
  simp [sort, hpending, habandoned, filter_ne_of_notMem hpending, filter_ne_of_notMem habandoned]

theorem fail_of_failure {e : Failure} (h : c.failure = some e) (e' : Failure) : c.fail e' = c := by
  unfold fail
  rw [h]

/-- What is done with a response once its number is looked up. -/
theorem take_eq (h : c.Tidy) (r : Response) :
    c.take r = match c.sort r.id with
      | (c', .awaited) => (c', some r)
      | (c', .late) => (c', none)
      | (c', .stray) => (c'.fail (strayFailure r), none) := by
  unfold take
  split
  · -- the tables of a connection that has ended are empty
    rename_i hended
    obtain ⟨hpending, habandoned⟩ := h.ended hended
    obtain ⟨e, he⟩ := Option.isSome_iff_exists.mp hended
    rw [sort_of_notMem (by simp [hpending]) (by simp [habandoned])]
    simp only [fail_of_failure he]
  by_cases hlate : r.id ∈ c.abandoned
  · rw [sort_of_abandoned h hlate]
    simp [hlate]
  by_cases hawaited : r.id ∈ c.pending
  · rw [sort_of_pending h hawaited]
    simp [hlate, hawaited]
  · rw [sort_of_notMem hawaited hlate]
    simp only [List.contains_eq_mem, hlate, hawaited, decide_false, Bool.false_eq_true, if_false,
      strayFailure]
    cases r.failure? <;> rfl

end Client

end WasmLisp.Service
