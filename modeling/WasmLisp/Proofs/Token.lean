import Mathlib
import WasmLisp.Token

/-!
# Tokens of source text

* `Token.scanFrom_isOk_iff`: a text has tokens unless there is a double quote outside of comments;
* `Token.isWord_of_scanFrom`: an atom is a word, that is, it is not empty and holds no delimiter;
* `Token.scanFrom_word`, `scanFrom_mark`, `scanFrom_space`: the tokens of a text piece by piece.
-/

namespace WasmLisp.Token

variable {line : Nat} {c : Char} {cs rest : List Char} {tokens : List Token}

/-- The characters outside of comments. -/
def uncommented : List Char → List Char
  | [] => []
  | c :: cs =>
    if c = ';' then uncommented (cs.dropWhile (· ≠ '\n')) else c :: uncommented cs
termination_by cs => cs.length
decreasing_by
  · exact Nat.lt_succ_of_le (List.dropWhile_suffix _).length_le
  · exact Nat.lt_succ_self _

/-- A text that stands for itself as an atom: it is not empty, and none of it ends an atom. -/
structure IsWord (text : String) : Prop where
  ne_empty : text ≠ ""
  plain : ∀ c ∈ text.toList, isDelimiter c = false

/-! ## Delimiters -/

theorem isDelimiter_eq_false_iff : isDelimiter c = false ↔
    punctuation? c = none ∧ c ≠ ';' ∧ c ≠ '"' ∧ isSeparator c = false := by
  simp [isDelimiter, and_assoc]

/-- Digits do not end an atom. -/
theorem isDelimiter_of_isDigit (h : c.isDigit = true) : isDelimiter c = false := by
  simp only [Char.isDigit, Bool.and_eq_true, decide_eq_true_eq, UInt32.le_iff_toNat_le] at h
  obtain ⟨hlow, hhigh⟩ : 48 ≤ c.toNat ∧ c.toNat ≤ 57 := h
  have hchar : c = Char.ofNat c.toNat := (Char.ofNat_toNat c).symm
  generalize c.toNat = n at hchar hlow hhigh
  subst hchar
  interval_cases n <;> decide

theorem punctuation?_eq_some {kind : Kind} (h : punctuation? c = some kind) :
    c ∈ ['(', ')', '[', ']', '\''] := by
  unfold punctuation? at h
  split at h <;> first | decide | cases h

theorem punctuation?_ne_atom {kind : Kind} (h : punctuation? c = some kind) : kind ≠ .atom := by
  unfold punctuation? at h
  split at h <;> cases h <;> decide

/-! ## The first token -/

theorem scanFrom_space (line : Nat) (rest : List Char) :
    scanFrom line (' ' :: rest) = scanFrom line rest := by
  rw [scanFrom, if_neg (by decide), if_pos (by decide)]

/-- A mark that is a token of its own comes first. -/
theorem scanFrom_mark {kind : Kind} (h : punctuation? c = some kind) (line : Nat)
    (rest : List Char) :
    scanFrom line (c :: rest) =
      (⟨kind, String.ofList [c], line⟩ :: ·) <$> scanFrom line rest := by
  have hmark : c ≠ '\n' ∧ isSeparator c = false ∧ c ≠ ';' ∧ c ≠ '"' := by
    have hmem := punctuation?_eq_some h
    simp only [List.mem_cons, List.not_mem_nil, or_false] at hmem
    rcases hmem with rfl | rfl | rfl | rfl | rfl <;> decide
  obtain ⟨hline, hseparator, hcomment, hquote⟩ := hmark
  rw [scanFrom, if_neg hline, if_neg (by simp [hseparator]), if_neg hcomment, if_neg hquote]
  simp only [h]

/-- A run of characters that do not end an atom comes first, up to a character that does. -/
theorem scanFrom_atom (h : isDelimiter c = false) (line : Nat) (cs : List Char) :
    scanFrom line (c :: cs) =
      (⟨.atom, String.ofList (c :: cs.takeWhile (!isDelimiter ·)), line⟩ :: ·) <$>
        scanFrom line (cs.dropWhile (!isDelimiter ·)) := by
  obtain ⟨hmark, hcomment, hquote, hseparator⟩ := isDelimiter_eq_false_iff.mp h
  have hline : c ≠ '\n' := by
    rintro rfl
    cases hseparator
  rw [scanFrom, if_neg hline, if_neg (by simp [hseparator]), if_neg hcomment, if_neg hquote]
  simp only [hmark]

theorem scanFrom_word {text : String} (h : IsWord text)
    (hrest : ∀ c, rest.head? = some c → isDelimiter c = true) (line : Nat) :
    scanFrom line (text.toList ++ rest) = (⟨.atom, text, line⟩ :: ·) <$> scanFrom line rest := by
  have hne : text.toList ≠ [] := fun hnil => h.ne_empty (String.toList_eq_nil_iff.mp hnil)
  obtain ⟨c, cs, heq⟩ := List.exists_cons_of_ne_nil hne
  have hplain := h.plain
  rw [heq] at hplain
  have hinside : ∀ d ∈ cs, (!isDelimiter d) = true := by
    intro d hd
    simp [hplain d (List.mem_cons_of_mem c hd)]
  have htake : rest.takeWhile (!isDelimiter ·) = [] := by
    cases rest with
    | nil => rfl
    | cons d rest => simp [hrest d rfl]
  have hdrop : rest.dropWhile (!isDelimiter ·) = rest := by
    cases rest with
    | nil => rfl
    | cons d rest => simp [hrest d rfl]
  rw [heq, List.cons_append, scanFrom_atom (hplain c List.mem_cons_self),
    List.takeWhile_append_of_pos hinside, List.dropWhile_append_of_pos hinside, htake, hdrop,
    List.append_nil, ← heq, String.ofList_toList]

/-! ## Texts that have tokens -/

theorem uncommented_append (h : ';' ∉ cs) (rest : List Char) :
    uncommented (cs ++ rest) = cs ++ uncommented rest := by
  induction cs with
  | nil => rfl
  | cons c cs ih =>
    rw [List.mem_cons, not_or] at h
    rw [List.cons_append, uncommented, if_neg (Ne.symm h.1), ih h.2, List.cons_append]

theorem uncommented_cons (h : c ≠ ';') (cs : List Char) :
    uncommented (c :: cs) = c :: uncommented cs := by
  rw [uncommented, if_neg h]

theorem map_eq_ok {α β ε : Type} {f : α → β} {x : Except ε α} {b : β} (h : f <$> x = .ok b) :
    ∃ a, x = .ok a ∧ f a = b := by
  cases x with
  | error e => cases h
  | ok a => exact ⟨a, rfl, Except.ok.inj h⟩

theorem exists_map_eq_ok {α β ε : Type} {f : α → β} {x : Except ε α} :
    (∃ b, f <$> x = .ok b) ↔ ∃ a, x = .ok a := by
  cases x with
  | error e => simp
  | ok a => simp

/-- A character that does not end an atom and the run of such characters behind it. -/
theorem plain_atom (h : isDelimiter c = false) (cs : List Char) :
    ∀ d ∈ c :: cs.takeWhile (!isDelimiter ·), isDelimiter d = false := by
  intro d hd
  rcases List.mem_cons.mp hd with rfl | hd
  · exact h
  · simpa using List.mem_takeWhile_imp hd

/-- A text has tokens unless there is a double quote outside of its comments. -/
theorem scanFrom_isOk_iff :
    (∃ tokens, scanFrom line cs = .ok tokens) ↔ '"' ∉ uncommented cs := by
  fun_induction scanFrom line cs with
  | case1 line => simp [uncommented]
  | case2 line cs ih =>
    rw [uncommented_cons (by decide), ih]
    simp
  | case3 line c cs hline hseparator ih =>
    have hcomment : c ≠ ';' := by
      rintro rfl
      cases hseparator
    have hquote : '"' ≠ c := by
      rintro rfl
      cases hseparator
    rw [uncommented_cons hcomment, ih, List.mem_cons, not_or]
    exact ⟨fun h => ⟨hquote, h⟩, fun h => h.2⟩
  | case4 line cs hline hseparator ih =>
    rw [uncommented, if_pos rfl]
    exact ih
  | case5 line cs => simp [uncommented]
  | case6 line c cs hline hseparator hcomment hquote kind hkind ih =>
    rw [exists_map_eq_ok, uncommented_cons hcomment, ih, List.mem_cons, not_or]
    exact ⟨fun h => ⟨Ne.symm hquote, h⟩, fun h => h.2⟩
  | case7 line c cs hline hseparator hcomment hquote hmark word ih =>
    -- the atom holds no semicolon, so that no comment begins in it, and no double quote
    have hplain : ∀ d ∈ c :: cs.takeWhile (!isDelimiter ·), isDelimiter d = false :=
      plain_atom (isDelimiter_eq_false_iff.mpr ⟨hmark, hcomment, hquote, by simpa using hseparator⟩) cs
    have hsplit : c :: cs =
        (c :: cs.takeWhile (!isDelimiter ·)) ++ cs.dropWhile (!isDelimiter ·) := by
      rw [List.cons_append, List.takeWhile_append_dropWhile]
    have hsemicolon : ';' ∉ c :: cs.takeWhile (!isDelimiter ·) := fun hmem =>
      Bool.true_eq_false.mp (hplain ';' hmem)
    have hmarks : '"' ∉ c :: cs.takeWhile (!isDelimiter ·) := fun hmem =>
      Bool.true_eq_false.mp (hplain '"' hmem)
    rw [exists_map_eq_ok, ih, hsplit, uncommented_append hsemicolon, List.mem_append, not_or]
    exact ⟨fun h => ⟨hmarks, h⟩, fun h => h.2⟩

theorem scan_isOk_iff {src : String} :
    (∃ tokens, scan src = .ok tokens) ↔ '"' ∉ uncommented src.toList := scanFrom_isOk_iff

/-! ## Atoms -/

/-- Atoms are words. -/
theorem isWord_of_scanFrom (h : scanFrom line cs = .ok tokens) {t : Token} (ht : t ∈ tokens)
    (hatom : t.kind = .atom) : IsWord t.text := by
  fun_induction scanFrom line cs generalizing tokens with
  | case1 line =>
    cases h
    cases ht
  | case2 line cs ih => exact ih h ht
  | case3 line c cs hline hseparator ih => exact ih h ht
  | case4 line cs hline hseparator ih => exact ih h ht
  | case5 line cs => cases h
  | case6 line c cs hline hseparator hcomment hquote kind hkind ih =>
    obtain ⟨more, hmore, rfl⟩ := map_eq_ok h
    rcases List.mem_cons.mp ht with rfl | ht
    · -- a mark is no atom
      exact absurd hatom (punctuation?_ne_atom hkind)
    · exact ih hmore ht
  | case7 line c cs hline hseparator hcomment hquote hmark word =>
    rename_i ih
    obtain ⟨more, hmore, rfl⟩ := map_eq_ok h
    rcases List.mem_cons.mp ht with rfl | ht
    · refine ⟨fun hnil => ?_, fun d hd => ?_⟩
      · have hlist := congrArg String.toList hnil
        simp at hlist
      · refine plain_atom (isDelimiter_eq_false_iff.mpr
          ⟨hmark, hcomment, hquote, by simpa using hseparator⟩) cs d ?_
        simpa [word] using hd
    · exact ih hmore ht

end WasmLisp.Token
