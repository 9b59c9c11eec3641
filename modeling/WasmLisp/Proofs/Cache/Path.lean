import Mathlib
import WasmLisp.Cache.FileTree

/-!
# Paths below a path

A path that was put together from texts has its `..` first, so it is read back from its text
(`Path.join_text`). What is joined to it is then below it, if it is plain names that are joined.
-/

namespace WasmLisp.Path

/-- A name that leads from a directory to an entry of that directory. -/
structure Plain (name : String) : Prop where
  ne_empty : name ≠ ""
  ne_dot : name ≠ "."
  ne_up : name ≠ ".."
  slashless : '/' ∉ name.toList

theorem Plain.ne_top {name : String} (h : Plain name) : name ≠ top := by
  intro htop
  apply h.slashless
  rw [htop]
  decide

theorem push_plain {name : String} (h : Plain name) (done : Path) : push done name = name :: done := by
  unfold push
  rw [if_neg (by simp [h.ne_empty, h.ne_dot]), if_neg h.ne_up]

theorem foldl_push_plain {names : List String} (h : ∀ n ∈ names, Plain n) (done : Path) :
    names.foldl push done = names.reverse ++ done := by
  induction names generalizing done with
  | nil => rfl
  | cons name names ih =>
    rw [List.foldl_cons, push_plain (h name List.mem_cons_self),
      ih fun n hn => h n (List.mem_cons_of_mem _ hn)]
    simp

theorem foldl_push_ups (k : Nat) : (List.replicate k "..").foldl push [] = List.replicate k ".." := by
  induction k with
  | zero => rfl
  | succ k ih =>
    rw [List.replicate_succ', List.foldl_append, ih, ← List.replicate_succ', List.replicate_succ]
    cases k <;> rfl

/-- The components so far, in reverse: plain names, and under them what no name can cancel. -/
inductive Stacked : Path → Prop where
  | relative {names : List String} (h : ∀ n ∈ names, Plain n) (k : Nat) :
      Stacked (names ++ List.replicate k "..")
  | absolute {names : List String} (h : ∀ n ∈ names, Plain n) : Stacked (names ++ [top])

theorem stacked_nil : Stacked [] :=
  .relative (fun n (hn : n ∈ []) => absurd hn List.not_mem_nil) 0

theorem stacked_top : Stacked [top] :=
  .absolute fun n (hn : n ∈ []) => absurd hn List.not_mem_nil

theorem Stacked.not_mem_empty {done : Path} (h : Stacked done) : "" ∉ done := by
  have hnames : ∀ {names : List String}, (∀ n ∈ names, Plain n) → "" ∉ names :=
    fun hall hmem => (hall "" hmem).ne_empty rfl
  cases h with
  | relative h k => simp [hnames h]
  | absolute h => simp [hnames h, top]

/-- One component more keeps the shape. -/
theorem Stacked.push {done : Path} (hd : Stacked done) {part : String} (hpart : '/' ∉ part.toList) :
    Stacked (push done part) := by
  by_cases hskip : part = "" ∨ part = "."
  · have heq : Path.push done part = done := by simp [Path.push, hskip]
    rw [heq]
    exact hd
  by_cases hup : part = ".."
  · subst hup
    have hrest : ∀ {name : String} {names : List String}, (∀ n ∈ name :: names, Plain n) →
        (∀ n ∈ names, Plain n) ∧ ∀ under : Path,
          Path.push (name :: names ++ under) ".." = names ++ under := by
      intro name names h
      have hname := h name List.mem_cons_self
      refine ⟨fun n hn => h n (List.mem_cons_of_mem _ hn), fun under => ?_⟩
      simp [Path.push, hname.ne_up, hname.ne_top]
    cases hd with
    | @relative names h k =>
      cases names with
      | nil =>
        have hone := foldl_push_ups (k + 1)
        rw [List.replicate_succ', List.foldl_append, foldl_push_ups, ← List.replicate_succ'] at hone
        show Stacked (Path.push (List.replicate k "..") "..")
        rw [show Path.push (List.replicate k "..") ".." = [] ++ List.replicate (k + 1) ".." from hone]
        exact .relative (by simp) (k + 1)
      | cons name names =>
        rw [(hrest h).2]
        exact .relative (hrest h).1 k
    | @absolute names h =>
      cases names with
      | nil => exact stacked_top
      | cons name names =>
        rw [(hrest h).2]
        exact .absolute (hrest h).1
  · have hplain : Plain part :=
      ⟨fun h => hskip (.inl h), fun h => hskip (.inr h), hup, hpart⟩
    rw [push_plain hplain]
    have hmore : ∀ {names : List String}, (∀ n ∈ names, Plain n) → ∀ n ∈ part :: names, Plain n := by
      intro names h n hn
      rcases List.mem_cons.mp hn with rfl | hn
      · exact hplain
      · exact h n hn
    cases hd with
    | relative h k => exact .relative (hmore h) k
    | absolute h => exact .absolute (hmore h)

/-! ## Texts of paths -/

theorem not_mem_of_mem_splitOn {cs part : List Char} {c : Char} (h : part ∈ cs.splitOn c) :
    c ∉ part := by
  induction cs generalizing part with
  | nil =>
    rw [List.splitOn_nil, List.mem_singleton] at h
    simp [h]
  | cons d cs ih =>
    rw [List.splitOn_cons_eq_if_modifyHead] at h
    split at h
    · rcases List.mem_cons.mp h with rfl | h
      · simp
      · exact ih h
    · -- the first part begins with `d` now, the others are as they were
      rename_i hne
      obtain ⟨first, rest, hfirst⟩ := List.exists_cons_of_ne_nil (List.splitOn_ne_nil c cs)
      rw [hfirst] at h ih
      rcases List.mem_cons.mp h with rfl | h
      · intro hmem
        rcases List.mem_cons.mp hmem with rfl | hmem
        · exact hne (beq_self_eq_true _)
        · exact ih List.mem_cons_self hmem
      · exact ih (List.mem_cons_of_mem _ h)

theorem slashless_of_mem_parts {text part : String} (h : part ∈ parts text) : '/' ∉ part.toList := by
  obtain ⟨cs, hcs, rfl⟩ := List.mem_map.mp h
  rw [String.toList_ofList]
  exact not_mem_of_mem_splitOn hcs

theorem parts_of_slashless {text : String} (h : '/' ∉ text.toList) : parts text = [text] := by
  rw [parts, List.splitOn_eq_singleton h]
  simp

theorem parts_intercalate {names : List String} (hne : names ≠ []) (h : ∀ n ∈ names, '/' ∉ n.toList) :
    parts ("/".intercalate names) = names := by
  have hslash : "/".toList = ['/'] := rfl
  rw [parts, String.toList_intercalate, hslash, List.splitOn_intercalate]
  · simp [Function.comp_def]
  · intro cs hcs
    obtain ⟨n, hn, rfl⟩ := List.mem_map.mp hcs
    exact h n hn
  · simpa using hne

/-- Where joining texts starts. -/
def base (texts : List String) : Path :=
  match texts with
  | t :: _ => if t.toList.head? = some '/' then [top] else []
  | [] => []

theorem join_eq (texts : List String) :
    join texts = (((texts.filter (· ≠ "")).flatMap parts).foldl push
      (base (texts.filter (· ≠ "")))).reverse := rfl

/-- What is put together has the shape of a path. -/
theorem stacked_join (texts : List String) : Stacked (join texts).reverse := by
  rw [join_eq, List.reverse_reverse]
  refine List.foldlRecOn _ _ ?_ fun done hd part hpart => ?_
  · unfold base
    split
    · split
      · exact stacked_top
      · exact stacked_nil
    · exact stacked_nil
  · obtain ⟨t, -, ht⟩ := List.mem_flatMap.mp hpart
    exact hd.push (slashless_of_mem_parts ht)

theorem flatMap_parts_plain {names : List String} (h : ∀ n ∈ names, Plain n) :
    (names.filter (· ≠ "")).flatMap parts = names := by
  rw [List.filter_eq_self.mpr fun n hn => by simpa using (h n hn).ne_empty]
  induction names with
  | nil => rfl
  | cons name names ih =>
    rw [List.flatMap_cons, parts_of_slashless (h name List.mem_cons_self).slashless,
      ih fun n hn => h n (List.mem_cons_of_mem _ hn)]
    rfl

/-- Joining starts from what the first text leads to. -/
theorem join_cons {text : String} (ht : text ≠ "") {names : List String} (h : ∀ n ∈ names, Plain n) :
    join (text :: names) = ((parts text).foldl push (base [text])).reverse ++ names := by
  have hfilter : (text :: names).filter (· ≠ "") = text :: names.filter (· ≠ "") := by simp [ht]
  rw [join_eq, hfilter, List.flatMap_cons, flatMap_parts_plain h, List.foldl_append,
    foldl_push_plain h, List.reverse_append, List.reverse_reverse]
  rfl

theorem text_eq_intercalate {p : Path} (hne : p ≠ []) (h : ∀ n ∈ p, n ≠ top) :
    p.text = "/".intercalate p := by
  obtain ⟨first, rest, rfl⟩ := List.exists_cons_of_ne_nil hne
  exact if_neg (h first List.mem_cons_self)

theorem intercalate_cons_ne_empty {name : String} (h : name ≠ "") (names : List String) :
    "/".intercalate (name :: names) ≠ "" := by
  intro heq
  have hlist := congrArg String.toList heq
  rw [String.toList_intercalate] at hlist
  cases names with
  | nil => exact h (by simpa using hlist)
  | cons other names => simp at hlist

theorem head?_intercalate_cons {name : String} (hne : name ≠ "") (h : '/' ∉ name.toList)
    (names : List String) : ("/".intercalate (name :: names)).toList.head? ≠ some '/' := by
  rw [String.toList_intercalate]
  have hlist : name.toList ≠ [] := by simpa using hne
  obtain ⟨c, cs, hcs⟩ := List.exists_cons_of_ne_nil hlist
  intro hhead
  have hc : c = '/' := by
    cases names with
    | nil => simpa [hcs] using hhead
    | cons other names => simpa [hcs] using hhead
  rw [hcs, hc] at h
  exact h List.mem_cons_self

theorem text_ne_empty {p : Path} (hp : Stacked p.reverse) : p.text ≠ "" := by
  cases p with
  | nil => decide
  | cons first rest =>
    by_cases htop : first = top
    · rw [text, if_pos htop]
      simp [top]
    · rw [text, if_neg htop]
      refine intercalate_cons_ne_empty ?_ rest
      rintro rfl
      exact hp.not_mem_empty (by simp)

/-- Below nothing the names are read from the text one by one. -/
theorem foldl_parts_intercalate {p : Path} (hne : p ≠ [])
    (hall : ∀ n ∈ p, n ≠ "" ∧ '/' ∉ n.toList) :
    (parts ("/".intercalate p)).foldl push (base ["/".intercalate p]) = p.foldl push [] := by
  obtain ⟨first, rest, rfl⟩ := List.exists_cons_of_ne_nil hne
  obtain ⟨hfirst, hslash⟩ := hall first List.mem_cons_self
  have hbase : base ["/".intercalate (first :: rest)] = [] :=
    if_neg (head?_intercalate_cons hfirst hslash rest)
  rw [hbase, parts_intercalate hne fun n hn => (hall n hn).2]

/-- Below the top there is an empty part before the names. -/
theorem foldl_parts_top {names : List String} (h : ∀ n ∈ names, Plain n) :
    (parts ("/" ++ "/".intercalate names)).foldl push (base ["/" ++ "/".intercalate names]) =
      names.reverse ++ [top] := by
  have hbase : base ["/" ++ "/".intercalate names] = [top] := by simp [base]
  have hparts : parts ("/" ++ "/".intercalate names) = "" :: parts ("/".intercalate names) := by
    have hsplit := List.splitOn_append_cons_self_of_not_mem (List.not_mem_nil : '/' ∉ [])
      ("/".intercalate names).toList
    rw [List.nil_append] at hsplit
    have hlist : ("/" ++ "/".intercalate names).toList = '/' :: ("/".intercalate names).toList := by
      rw [String.toList_append]
      rfl
    rw [parts, hlist, hsplit]
    rfl
  rw [hparts, hbase, List.foldl_cons, show push [top] "" = [top] from rfl]
  by_cases hnil : names = []
  · rw [hnil]
    rfl
  · rw [parts_intercalate hnil fun n hn => (h n hn).slashless, foldl_push_plain h]

/-- A path is read back from its text. -/
theorem foldl_parts_text {p : Path} (hp : Stacked p.reverse) :
    (parts p.text).foldl push (base [p.text]) = p.reverse := by
  obtain ⟨q, rfl⟩ : ∃ q, p = List.reverse q := ⟨p.reverse, by simp⟩
  rw [List.reverse_reverse] at hp ⊢
  cases hp with
  | @relative names h k =>
    have hnames : ∀ n ∈ names.reverse, Plain n := fun n hn => h n (List.mem_reverse.mp hn)
    have hfold : (List.replicate k ".." ++ names.reverse).foldl push [] =
        names ++ List.replicate k ".." := by
      rw [List.foldl_append, foldl_push_ups, foldl_push_plain hnames, List.reverse_reverse]
    have hall : ∀ n ∈ List.replicate k ".." ++ names.reverse,
        (n ≠ "" ∧ '/' ∉ n.toList) ∧ n ≠ top := by
      intro n hn
      rcases List.mem_append.mp hn with hn | hn
      · rw [(List.mem_replicate.mp hn).2]
        decide
      · exact ⟨⟨(hnames n hn).ne_empty, (hnames n hn).slashless⟩, (hnames n hn).ne_top⟩
    rw [List.reverse_append, List.reverse_replicate]
    by_cases hnil : List.replicate k ".." ++ names.reverse = []
    · rw [hnil] at hfold ⊢
      exact hfold
    · rw [text_eq_intercalate hnil fun n hn => (hall n hn).2,
        foldl_parts_intercalate hnil fun n hn => (hall n hn).1, hfold]
  | @absolute names h =>
    have hnames : ∀ n ∈ names.reverse, Plain n := fun n hn => h n (List.mem_reverse.mp hn)
    have htext : text (names ++ [top]).reverse = "/" ++ "/".intercalate names.reverse := by
      rw [List.reverse_append]
      show text (top :: names.reverse) = _
      rw [text, if_pos rfl]
      rfl
    rw [htext, foldl_parts_top hnames, List.reverse_reverse]

/-- Plain names that are joined to the text of a path lead on from it. -/
theorem join_text {p : Path} (hp : Stacked p.reverse) (names : List String)
    (h : ∀ n ∈ names, Plain n) : join (p.text :: names) = p ++ names := by
  rw [join_cons (text_ne_empty hp) h, foldl_parts_text hp, List.reverse_reverse]

end WasmLisp.Path
