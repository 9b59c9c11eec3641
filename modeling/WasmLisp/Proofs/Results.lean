import Mathlib
import WasmLisp.Failure

/-!
# Computations that can fail

* `Except.bind_eq_ok`: what a success says about the parts of a computation;
* `Result.Rel`: two computations that fail alike, or give related values; `Result.RelUpTo` if the
  failures are related too;
* `Failure.SameSort`: failures of one phase and kind; `Result.Reports`: a failure, if there is one, has a
  phase and a kind.
-/

namespace WasmLisp

/-- A computation that succeeds has succeeded in both its parts. -/
theorem Except.bind_eq_ok {ε α β : Type} {x : Except ε α} {f : α → Except ε β} {b : β}
    (h : x >>= f = .ok b) : ∃ a, x = .ok a ∧ f a = .ok b := by
  cases x with
  | error e => cases h
  | ok a => exact ⟨a, rfl, h⟩

theorem Except.bind_eq_ok_iff {ε α β : Type} {x : Except ε α} {f : α → Except ε β} {b : β} :
    x >>= f = .ok b ↔ ∃ a, x = .ok a ∧ f a = .ok b := by
  constructor
  · exact Except.bind_eq_ok
  · rintro ⟨a, rfl, h⟩
    exact h

theorem Except.eq_ok_of_toOption {ε α : Type} {r : Except ε α} {a : α} (h : r.toOption = some a) :
    r = .ok a := by
  cases r with
  | error _ => cases h
  | ok _ => exact congrArg Except.ok (Option.some.inj h)

theorem mapM_eq_ok {ε α β : Type} {f : α → Except ε β} {xs : List α} {ys : List β}
    (h : xs.mapM f = .ok ys) : List.Forall₂ (fun x y => f x = .ok y) xs ys := by
  induction xs generalizing ys with
  | nil =>
    rw [List.mapM_nil] at h
    cases h
    exact .nil
  | cons x xs ih =>
    rw [List.mapM_cons] at h
    obtain ⟨y, hy, h⟩ := Except.bind_eq_ok h
    obtain ⟨ys, hys, h⟩ := Except.bind_eq_ok h
    cases h
    exact .cons hy (ih hys)

theorem Result.isOk_map {α β : Type} (f : α → β) (x : Result α) : (x.map f).isOk = x.isOk := by
  cases x <;> rfl

/-- The computations fail with the same failure, or give values that are related. -/
def Result.Rel {α β : Type} (R : α → β → Prop) : Result α → Result β → Prop
  | .ok a, .ok b => R a b
  | .error e, .error e' => e = e'
  | _, _ => False

namespace Result.Rel

variable {α β γ δ : Type} {R : α → β → Prop} {S : γ → δ → Prop}

theorem bind {x : Result α} {y : Result β} {f : α → Result γ} {g : β → Result δ}
    (h : Result.Rel R x y) (hf : ∀ a b, R a b → Result.Rel S (f a) (g b)) :
    Result.Rel S (x >>= f) (y >>= g) := by
  cases x with
  | error e =>
    cases y with
    | error e' => exact h
    | ok b => exact h.elim
  | ok a =>
    cases y with
    | error e' => exact h.elim
    | ok b => exact hf a b h

theorem refl (x : Result α) : Result.Rel Eq x x := by
  cases x <;> exact rfl

theorem eq {x y : Result α} (h : Result.Rel Eq x y) : x = y := by
  cases x <;> cases y
  · exact congrArg Except.error h
  · exact h.elim
  · exact h.elim
  · exact congrArg Except.ok h

theorem foldlM {xs : List α} {ys : List β} {f : γ → α → Result γ} {g : δ → β → Result δ}
    (hxs : List.Forall₂ R xs ys)
    (hf : ∀ c d a b, S c d → R a b → Result.Rel S (f c a) (g d b)) {c : γ} {d : δ} (h : S c d) :
    Result.Rel S (xs.foldlM f c) (ys.foldlM g d) := by
  induction hxs generalizing c d with
  | nil => exact h
  | cons hab _ ih =>
    rw [List.foldlM_cons, List.foldlM_cons]
    exact bind (hf _ _ _ _ h hab) fun _ _ hcd => ih hcd

end Result.Rel

/-- The computations fail with failures that are related, or give values that are related. -/
def Result.RelUpTo {α β : Type} (E : Failure → Failure → Prop) (R : α → β → Prop) :
    Result α → Result β → Prop
  | .ok a, .ok b => R a b
  | .error e, .error e' => E e e'
  | _, _ => False

namespace Result.RelUpTo

variable {α β γ δ : Type} {E : Failure → Failure → Prop} {R : α → β → Prop} {S : γ → δ → Prop}

theorem bind {x : Result α} {y : Result β} {f : α → Result γ} {g : β → Result δ}
    (h : Result.RelUpTo E R x y) (hf : ∀ a b, R a b → Result.RelUpTo E S (f a) (g b)) :
    Result.RelUpTo E S (x >>= f) (y >>= g) := by
  cases x <;> cases y
  · exact h
  · exact h.elim
  · exact h.elim
  · exact hf _ _ h

theorem map {x : Result α} {y : Result β} {f : α → γ} {g : β → δ} (h : Result.RelUpTo E R x y)
    (hfg : ∀ a b, R a b → S (f a) (g b)) : Result.RelUpTo E S (x.map f) (y.map g) := by
  cases x <;> cases y
  · exact h
  · exact h.elim
  · exact h.elim
  · exact hfg _ _ h

theorem refl {x : Result α} (hE : ∀ e, E e e) : Result.RelUpTo E Eq x x := by
  cases x
  · exact hE _
  · exact rfl

end Result.RelUpTo

theorem Result.Rel.isOk_eq {α β : Type} {R : α → β → Prop} {x : Result α} {y : Result β}
    (h : Result.Rel R x y) : x.isOk = y.isOk := by
  cases x <;> cases y
  · rfl
  · exact h.elim
  · exact h.elim
  · rfl

theorem Result.Rel.map {α β γ δ : Type} {R : α → β → Prop} {S : γ → δ → Prop} {f : α → γ}
    {g : β → δ} {x : Result α} {y : Result β} (h : Result.Rel R x y)
    (hfg : ∀ a b, R a b → S (f a) (g b)) : Result.Rel S (x.map f) (y.map g) := by
  cases x <;> cases y
  · exact h
  · exact h.elim
  · exact h.elim
  · exact hfg _ _ h

theorem Result.RelUpTo.rel {α β : Type} {E : Failure → Failure → Prop} {R : α → β → Prop}
    {x : Result α} {y : Result β} (h : Result.RelUpTo E R x y) (hE : ∀ e e', E e e' → e = e') :
    Result.Rel R x y := by
  cases x <;> cases y
  · exact hE _ _ h
  · exact h.elim
  · exact h.elim
  · exact h

/-- Computations that are related to the same one are related to each other. -/
theorem Result.Rel.relUpTo {α : Type} {E : Failure → Failure → Prop} {R : α → α → Prop}
    (hE : ∀ e, E e e) (hR : ∀ a b c, R a c → R b c → R a b) {x y z : Result α}
    (hx : Result.Rel R x z) (hy : Result.Rel R y z) : Result.RelUpTo E R x y := by
  cases z with
  | error e =>
    cases x with
    | ok a => exact hx.elim
    | error e' =>
      cases y with
      | ok b => exact hy.elim
      | error e'' =>
        cases hx
        cases hy
        exact hE _
  | ok c =>
    cases x with
    | error e' => exact hx.elim
    | ok a =>
      cases y with
      | error e'' => exact hy.elim
      | ok b => exact hR a b c hx hy

/-! ## Failures of one sort -/

/-- The phase and the kind that a failure reports. -/
def Failure.sort (e : Failure) : Option (Phase × FailureKind) :=
  e.report?.map fun r => (r.1.phase, r.1.kind)

/-- The failures report one phase and kind. -/
def Failure.SameSort (e e' : Failure) : Prop := e.sort = e'.sort

theorem Failure.hasKind_eq (e : Failure) (phase : Phase) (kind : FailureKind) :
    e.hasKind phase kind = match e.sort with
      | some (p, k) => p == phase && k == kind
      | none => false := by
  unfold hasKind sort
  cases e.report? <;> rfl

theorem Failure.SameSort.hasKind {e e' : Failure} (h : e.SameSort e') (phase : Phase)
    (kind : FailureKind) : e.hasKind phase kind = e'.hasKind phase kind := by
  rw [hasKind_eq, hasKind_eq, h]

/-- The computation does not fail without saying in which phase and of what kind the failure is. -/
def Result.Reports {α : Type} (x : Result α) : Prop := ∀ e, x = .error e → e.sort.isSome

namespace Result.Reports

variable {α β : Type}

@[simp]
theorem ok (a : α) : Result.Reports (.ok a : Result α) := nofun

@[simp]
theorem error {e : Failure} : Result.Reports (.error e : Result α) ↔ e.sort.isSome :=
  ⟨fun h => h e rfl, fun h _ he => by cases he; exact h⟩

theorem bind {x : Result α} {f : α → Result β} (h : Result.Reports x)
    (hf : ∀ a, Result.Reports (f a)) : Result.Reports (x >>= f) := by
  cases x with
  | error e => exact error.mpr (error.mp h)
  | ok a => exact hf a

theorem map {x : Result α} {f : α → β} (h : Result.Reports x) : Result.Reports (x.map f) := by
  cases x with
  | error e => exact error.mpr (error.mp h)
  | ok a => exact ok _

theorem mapError {ε : Type} {x : Except ε α} {f : ε → Failure} (h : ∀ e, (f e).sort.isSome) :
    Result.Reports (x.mapError f) := by
  cases x with
  | error e => exact error.mpr (h e)
  | ok a => exact ok _

theorem mapM {f : α → Result β} (h : ∀ a, Result.Reports (f a)) (xs : List α) :
    Result.Reports (xs.mapM f) := by
  induction xs with
  | nil => exact ok _
  | cons x xs ih =>
    rw [List.mapM_cons]
    exact (h x).bind fun _ => ih.bind fun _ => ok _

theorem foldlM {f : β → α → Result β} (h : ∀ b a, Result.Reports (f b a)) (xs : List α) (b : β) :
    Result.Reports (xs.foldlM f b) := by
  induction xs generalizing b with
  | nil => exact ok _
  | cons x xs ih =>
    rw [List.foldlM_cons]
    exact (h b x).bind ih

end Result.Reports

theorem map_eq_of_forall₂ {α β γ : Type} {R : α → β → Prop} {xs : List α} {ys : List β}
    {f : α → γ} {g : β → γ} (hxs : List.Forall₂ R xs ys) (hf : ∀ a b, R a b → f a = g b) :
    xs.map f = ys.map g := by
  induction hxs with
  | nil => rfl
  | cons hab _ ih => rw [List.map_cons, List.map_cons, hf _ _ hab, ih]

theorem filterMap_zipIdx_eq_of_forall₂ {α β γ : Type} {R : α → β → Prop} {xs : List α}
    {ys : List β} {f : α × Nat → Option γ} {g : β × Nat → Option γ} (hxs : List.Forall₂ R xs ys)
    (hf : ∀ a b i, R a b → f (a, i) = g (b, i)) (k : Nat) :
    (xs.zipIdx k).filterMap f = (ys.zipIdx k).filterMap g := by
  induction hxs generalizing k with
  | nil => rfl
  | cons hab _ ih =>
    rw [List.zipIdx_cons, List.zipIdx_cons, List.filterMap_cons, List.filterMap_cons, hf _ _ _ hab,
      ih]

/-- A walk over items with their places, if it finds what a walk over the items alone does. -/
theorem filterMap_zipIdx {α β : Type} {xs : List α} {f : α × Nat → Option β} {g : α → Option β}
    (h : ∀ i x, xs[i]? = some x → f (x, i) = g x) : xs.zipIdx.filterMap f = xs.filterMap g := by
  conv_rhs => rw [← List.zipIdx_map_fst 0 xs, List.filterMap_map]
  exact List.filterMap_congr fun ⟨x, i⟩ hx => h i x (List.mk_mem_zipIdx_iff_getElem?.1 hx)

/-- Numbers beside pairs leave the first components as they are. -/
theorem map_fst_zipIdx {α β γ : Type} (f : Nat → γ) (xs : List (α × β)) :
    (xs.zipIdx.map fun y => (y.1.1, f y.2)).map (·.1) = xs.map (·.1) := by
  conv_rhs => rw [← List.zipIdx_map_fst 0 xs]
  rw [List.map_map, List.map_map]
  rfl

theorem mapM_eq_of_forall₂ {α β γ : Type} {R : α → β → Prop} {xs : List α} {ys : List β}
    {f : α → Result γ} {g : β → Result γ} (hxs : List.Forall₂ R xs ys)
    (hf : ∀ a b, R a b → f a = g b) : xs.mapM f = ys.mapM g := by
  induction hxs with
  | nil => rfl
  | cons hab _ ih => rw [List.mapM_cons, List.mapM_cons, hf _ _ hab, ih]

end WasmLisp
