import Mathlib
import WasmLisp.Proofs.Engine.Renamed
import WasmLisp.Proofs.Lisp.Calls

/-!
# Module names of another stem

* `Evaluator.restem`: the renaming that gives the modules of an evaluator the names that they get from
  another stem, and `Evaluator.renaming_restem`, `Evaluator.renames_moduleName` and the like: modules can
  be loaded under these names instead.
-/

namespace WasmLisp.Evaluator

open Engine (Loadable)

variable {stem stem' : String} {n i : Nat}

/-- The name with the second stem in place of the first. Other names are told apart by a dot; those of
the engine itself stay as they are. -/
def restem (stem stem' name : String) : String :=
  if name.toList.head? = some '#' then name
  else if stem.toList ++ ['$'] <+: name.toList then
    .ofList (stem'.toList ++ '$' :: name.toList.drop (stem.toList.length + 1))
  else .ofList (stem'.toList ++ '.' :: name.toList)

/-- The names of a stem that can be loaded are not names that engines make. -/
theorem head?_append_of_loadable (h : Loadable stem) (rest : List Char) :
    (stem.toList ++ rest).head? ≠ some '#' := by
  obtain ⟨hne, hhash⟩ := h
  cases hs : stem.toList with
  | nil => exact absurd (String.toList_inj.mp hs) hne
  | cons c cs =>
    rintro ⟨rfl⟩
    exact hhash (hs ▸ List.mem_cons_self)

/-- A name of one stem gets the same rest after the other stem. -/
theorem toList_restem_of_append (h : Loadable stem) {name : String} {rest : List Char}
    (hname : name.toList = stem.toList ++ '$' :: rest) :
    (restem stem stem' name).toList = stem'.toList ++ '$' :: rest := by
  have happ : stem.toList ++ '$' :: rest = stem.toList ++ ['$'] ++ rest := by simp
  unfold restem
  rw [hname, if_neg (head?_append_of_loadable h _), if_pos ⟨rest, happ.symm⟩, String.toList_ofList, happ]
  rw [List.drop_left' (by simp)]

/-- Different names stay different: what begins with the new stem has been moved out of the way. -/
theorem restem_injective (h : Loadable stem') : (restem stem stem').Injective := by
  intro x y hxy
  have hlist := congrArg String.toList hxy
  -- the three forms are told apart by the first character, or by the one after the stem
  by_cases hx : x.toList.head? = some '#' <;> by_cases hy : y.toList.head? = some '#' <;>
    simp only [restem, if_pos, if_neg, hx, hy, not_false_eq_true] at hlist
  · exact String.toList_inj.mp hlist
  · exfalso
    split at hlist <;>
    · rw [String.toList_ofList] at hlist
      exact head?_append_of_loadable h _ (hlist ▸ hx)
  · exfalso
    split at hlist <;>
    · rw [String.toList_ofList] at hlist
      exact head?_append_of_loadable h _ (hlist ▸ hy)
  · apply String.toList_inj.mp
    split_ifs at hlist with hx' hy' hy' <;>
      rw [String.toList_ofList, String.toList_ofList, List.append_cancel_left_eq, List.cons.injEq] at hlist
    · obtain ⟨r, hr⟩ := hx'
      obtain ⟨t, ht⟩ := hy'
      rw [← hr, ← ht, List.drop_left' (by simp), List.drop_left' (by simp)] at hlist
      rw [← hr, ← ht, hlist.2]
    · exact absurd hlist.1 (by decide)
    · exact absurd hlist.1 (by decide)
    · exact hlist.2

/-- The modules of an evaluator can be renamed. -/
theorem renaming_restem (h : Loadable stem') : Renaming (restem stem stem') where
  injective := restem_injective h
  foreign n := if_pos (by rw [Engine.toList_foreign]; rfl)
  foreignData n := if_pos (by rw [Engine.toList_foreignData]; rfl)

/-- The module of an evaluation has the name that the new stem gives it. -/
theorem restem_moduleName (h : Loadable stem) (n : Nat) :
    restem stem stem' (moduleName stem n) = moduleName stem' n :=
  String.toList_inj.mp (by rw [toList_restem_of_append h (toList_moduleName stem n), toList_moduleName])

/-- A module that is required has a name of its stem, with two numbers. -/
theorem toList_requiredName (stem : String) (n i : Nat) : (Session.moduleName stem n i).toList =
    stem.toList ++ '$' :: ((toString n).toList ++ '.' :: (toString i).toList) := by
  have hlist : (Session.moduleName stem n i).toList = (s!"{moduleName stem n}.{i}").toList := rfl
  rw [hlist, toList_numbered, toList_moduleName, List.append_assoc, List.cons_append]

/-- It has the name that the new stem gives it. -/
theorem restem_requiredName (h : Loadable stem) (n i : Nat) :
    restem stem stem' (Session.moduleName stem n i) = Session.moduleName stem' n i :=
  String.toList_inj.mp (by
    rw [toList_restem_of_append h (toList_requiredName stem n i), toList_requiredName])

/-- Names that start with the stem can be loaded under the other. -/
theorem renames_of_append (h : Loadable stem) (h' : Loadable stem') {name : String} {rest : List Char}
    (hname : name.toList = stem.toList ++ '$' :: rest) (hrest : '#' ∉ rest) :
    Renames (restem stem stem') name := by
  have hloadable : ∀ {stem name : String}, Loadable stem → name.toList = stem.toList ++ '$' :: rest →
      Loadable name := by
    intro stem name hstem hlist
    refine ⟨?_, ?_⟩
    · rintro rfl
      simp at hlist
    · rw [hlist]
      simp only [List.mem_append, List.mem_cons, not_or]
      exact ⟨hstem.2, by decide, hrest⟩
  have hsuffix : ∀ suffix : String,
      restem stem stem' (name ++ suffix) = restem stem stem' name ++ suffix := by
    intro suffix
    have happ : (name ++ suffix).toList = stem.toList ++ '$' :: (rest ++ suffix.toList) := by
      rw [String.toList_append, hname, List.append_assoc, List.cons_append]
    apply String.toList_inj.mp
    rw [toList_restem_of_append h happ, String.toList_append, toList_restem_of_append h hname,
      List.append_assoc, List.cons_append]
  exact ⟨hloadable h hname, hloadable h' (toList_restem_of_append h hname), hsuffix _, hsuffix _⟩

/-- The module of an evaluation can be loaded under both names. -/
theorem renames_moduleName (h : Loadable stem) (h' : Loadable stem') (n : Nat) :
    Renames (restem stem stem') (moduleName stem n) :=
  renames_of_append h h' (toList_moduleName stem n) (notMem_toString (by decide) n)

/-- So can a module that is required. -/
theorem renames_requiredName (h : Loadable stem) (h' : Loadable stem') (n i : Nat) :
    Renames (restem stem stem') (Session.moduleName stem n i) := by
  refine renames_of_append h h' (toList_requiredName stem n i) ?_
  simp only [List.mem_append, List.mem_cons, not_or]
  exact ⟨notMem_toString (by decide) n, by decide, notMem_toString (by decide) i⟩

end WasmLisp.Evaluator
