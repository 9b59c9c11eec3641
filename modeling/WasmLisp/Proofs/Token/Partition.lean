import Mathlib
import WasmLisp.Proofs.Text.Decoded
import WasmLisp.Proofs.Token

/-!
# The partition of a text into tokens

The scanner walks over the characters; here its result is said of the text as a whole, without
walking. A text is a row of tokens with a stretch before each of them, and one stretch at the end.

* `Skipped` and `SkippedToEnd`: the stretches in which there is no token;
* `Partition`: a row of tokens with their stretches is the text, no two atoms touch, and the line of
  a token is found by counting line ends before it;
* `Exposed`: a double quote of the text stands outside of comments;
* `scan_partitions`: the tokens of a text are those of its partition, and a text is refused exactly
  if a double quote is exposed;
* `scanBytes_partitions`: a source is given by its bytes, and its tokens are those of the text that the
  bytes are read as.
-/

namespace WasmLisp.Token

variable {line : Nat} {c : Char} {cs body rest gap last : List Char} {tokens : List Token}

/-! ## What is skipped -/

/-- A stretch between tokens: blanks, commas and comments, each comment with the end of its line. -/
inductive Skipped : List Char → Prop where
  | nil : Skipped []
  | separator {c : Char} {cs : List Char} (hc : isSeparator c = true) (hcs : Skipped cs) :
    Skipped (c :: cs)
  | comment {body cs : List Char} (hbody : '\n' ∉ body) (hcs : Skipped cs) :
    Skipped (';' :: body ++ '\n' :: cs)

/-- A stretch at the end of a text, which may be within a comment when the text ends. -/
inductive SkippedToEnd : List Char → Prop where
  | closed {cs : List Char} (h : Skipped cs) : SkippedToEnd cs
  | commented {cs body : List Char} (h : Skipped cs) (hbody : '\n' ∉ body) :
    SkippedToEnd (cs ++ ';' :: body)

theorem Skipped.append (h : Skipped gap) (hcs : Skipped cs) : Skipped (gap ++ cs) := by
  induction h with
  | nil => exact hcs
  | separator hc _ ih => exact .separator hc ih
  | comment hbody _ ih =>
    rw [List.append_assoc, List.cons_append]
    exact .comment hbody ih

theorem SkippedToEnd.prepend (h : Skipped gap) (hlast : SkippedToEnd last) :
    SkippedToEnd (gap ++ last) := by
  cases hlast with
  | closed hlast => exact .closed (h.append hlast)
  | commented hlast hbody =>
    rw [← List.append_assoc]
    exact .commented (h.append hlast) hbody

theorem Skipped.head_isDelimiter (h : Skipped (c :: cs)) : isDelimiter c = true := by
  cases h with
  | separator hc _ => simp [isDelimiter, hc]
  | comment _ _ => rfl

theorem SkippedToEnd.head_isDelimiter (h : SkippedToEnd (c :: cs)) : isDelimiter c = true := by
  generalize htext : c :: cs = text at h
  cases h with
  | closed h =>
    subst htext
    exact h.head_isDelimiter
  | @commented before body h _ =>
    cases before with
    | nil =>
      obtain ⟨rfl, -⟩ := List.cons.inj htext
      rfl
    | cons d before =>
      obtain ⟨rfl, -⟩ := List.cons.inj htext
      exact h.head_isDelimiter

/-! ## How the scanner goes over it -/

theorem scanFrom_newline (line : Nat) (cs : List Char) :
    scanFrom line ('\n' :: cs) = scanFrom (line + 1) cs := by
  rw [scanFrom, if_pos rfl]

theorem scanFrom_separator (h : isSeparator c = true) (line : Nat) (cs : List Char) :
    scanFrom line (c :: cs) = scanFrom (line + [c].count '\n') cs := by
  by_cases hline : c = '\n'
  · subst hline
    rw [scanFrom_newline, List.count_singleton_self]
  · rw [scanFrom, if_neg hline, if_pos h, List.count_eq_zero.mpr (by simpa using Ne.symm hline),
      Nat.add_zero]

theorem scanFrom_quote (line : Nat) (cs : List Char) :
    scanFrom line ('"' :: cs) = .error ⟨line⟩ := by
  rw [scanFrom, if_neg (by decide), if_neg (by decide), if_neg (by decide), if_pos rfl]

/-- A comment is left where its line ends. -/
theorem scanFrom_comment (hbody : '\n' ∉ body) (line : Nat) (cs : List Char) :
    scanFrom line (';' :: body ++ cs) = scanFrom line (cs.dropWhile (· ≠ '\n')) := by
  have hinside : ∀ d ∈ body, decide (d ≠ '\n') = true := by
    intro d hd
    simpa using fun heq : d = '\n' => hbody (heq ▸ hd)
  rw [List.cons_append, scanFrom, if_neg (by decide), if_neg (by decide), if_pos rfl,
    List.dropWhile_append_of_pos hinside]

/-- The scanner goes over a stretch without a token, and only counts its lines. -/
theorem scanFrom_skipped (h : Skipped gap) (line : Nat) (rest : List Char) :
    scanFrom line (gap ++ rest) = scanFrom (line + gap.count '\n') rest := by
  induction h generalizing line with
  | nil => rfl
  | @separator c cs hc _ ih =>
    have hlines : (c :: cs).count '\n' = [c].count '\n' + cs.count '\n' := by
      rw [← List.count_append, List.singleton_append]
    rw [List.cons_append, scanFrom_separator hc, ih, hlines, Nat.add_assoc]
  | @comment body cs hbody _ ih =>
    have hlines : (';' :: body ++ '\n' :: cs).count '\n' = 1 + cs.count '\n' := by
      simp [List.count_eq_zero.mpr hbody, Nat.add_comm]
    rw [List.append_assoc, scanFrom_comment hbody, List.cons_append,
      List.dropWhile_cons_of_neg (by decide), scanFrom_newline, ih, hlines, Nat.add_assoc]

theorem scanFrom_skippedToEnd (h : SkippedToEnd last) (line : Nat) :
    scanFrom line last = .ok [] := by
  cases h with
  | @closed _ h =>
    have hnone := scanFrom_skipped h line []
    rwa [List.append_nil, scanFrom] at hnone
  | @commented before body h hbody =>
    have hcomment := scanFrom_comment hbody (line + before.count '\n') []
    rw [List.append_nil, List.dropWhile_nil, scanFrom] at hcomment
    rw [scanFrom_skipped h, hcomment]

/-! ## Tokens in their places -/

/-- The text that a token of each kind can have. -/
inductive Lexeme : Kind → String → Prop where
  | mark {c : Char} {kind : Kind} (h : punctuation? c = some kind) :
    Lexeme kind (String.ofList [c])
  | atom {text : String} (h : IsWord text) : Lexeme .atom text

/-- A token and the stretch that is skipped before it. -/
structure Placed where
  gap : List Char
  token : Token

/-- The characters of a token and of the stretch before it. -/
def Placed.chars (p : Placed) : List Char := p.gap ++ p.token.text.toList

/-- The two tokens are not both atoms, or something is skipped between them. -/
def Apart (p q : Placed) : Prop :=
  p.token.kind = .atom → q.token.kind = .atom → q.gap ≠ []

/-- A text that starts on line `line` is a row of tokens, each with the stretch that is skipped
before it, and then the last stretch. -/
structure Partition (line : Nat) (text : List Char) (row : List Placed) (last : List Char) :
    Prop where
  text_eq : text = row.flatMap Placed.chars ++ last
  skipped : ∀ p ∈ row, Skipped p.gap
  skippedToEnd : SkippedToEnd last
  lexeme : ∀ p ∈ row, Lexeme p.token.kind p.token.text
  apart : row.IsChain Apart
  line_eq : ∀ before p after, row = before ++ p :: after →
    p.token.line = line + (before.flatMap Placed.chars ++ p.gap).count '\n'

/-- The text has a partition with these tokens. -/
def Partitions (line : Nat) (text : List Char) (tokens : List Token) : Prop :=
  ∃ row last, Partition line text row last ∧ row.map (·.token) = tokens

theorem Lexeme.newline_not_mem {kind : Kind} {text : String} (h : Lexeme kind text) :
    '\n' ∉ text.toList := by
  cases h with
  | mark h =>
    rw [String.toList_ofList, List.mem_singleton]
    rintro rfl
    cases h
  | atom h => exact fun hmem => Bool.true_eq_false.mp (h.plain '\n' hmem)

/-- Only an atom begins with a character that does not end an atom. -/
theorem Lexeme.head_isDelimiter_iff {kind : Kind} {text : String} (h : Lexeme kind text)
    (hhead : text.toList.head? = some c) : isDelimiter c = true ↔ kind ≠ .atom := by
  cases h with
  | @mark d kind h =>
    obtain rfl : d = c := by simpa using hhead
    simp [isDelimiter, h, punctuation?_ne_atom h]
  | atom h => simp [h.plain c (List.mem_of_head? hhead)]

theorem Lexeme.toList_ne_nil {kind : Kind} {text : String} (h : Lexeme kind text) :
    text.toList ≠ [] := by
  cases h with
  | mark h => simp
  | atom h => exact fun hnil => h.ne_empty (String.toList_eq_nil_iff.mp hnil)

/-- A token is read where its text stands. What follows an atom has to end it. -/
theorem Lexeme.scanFrom_append {kind : Kind} {text : String} (h : Lexeme kind text)
    (hrest : kind = .atom → ∀ c, rest.head? = some c → isDelimiter c = true) (line : Nat) :
    scanFrom line (text.toList ++ rest) = (⟨kind, text, line⟩ :: ·) <$> scanFrom line rest := by
  cases h with
  | mark h => rw [String.toList_ofList, List.singleton_append, scanFrom_mark h]
  | atom h => exact scanFrom_word h (hrest rfl) line

/-! ## The first token of a partition -/

variable {text : List Char} {p : Placed} {row : List Placed}

theorem partition_nil_iff : Partition line text [] last ↔ text = last ∧ SkippedToEnd last := by
  constructor
  · intro h
    exact ⟨h.text_eq, h.skippedToEnd⟩
  · rintro ⟨rfl, hlast⟩
    exact {
      text_eq := rfl
      skipped := by simp
      skippedToEnd := hlast
      lexeme := by simp
      apart := .nil
      line_eq := by simp }

/-- A partition is the first token in its place and a partition of the text behind it, which starts
on the line of that token. -/
theorem partition_cons_iff : Partition line text (p :: row) last ↔
    ∃ rest, text = p.gap ++ (p.token.text.toList ++ rest) ∧ Skipped p.gap ∧
      Lexeme p.token.kind p.token.text ∧ p.token.line = line + p.gap.count '\n' ∧
      (∀ q ∈ row.head?, Apart p q) ∧ Partition p.token.line rest row last := by
  -- the text of a token has no line end, so that the lines before it are those of its stretch
  have hlines (h : Lexeme p.token.kind p.token.text) (before : List Placed) (gap : List Char) :
      ((p :: before).flatMap Placed.chars ++ gap).count '\n' =
        p.gap.count '\n' + (before.flatMap Placed.chars ++ gap).count '\n' := by
    rw [List.flatMap_cons, List.append_assoc, List.count_append, Placed.chars, List.count_append,
      List.count_eq_zero.mpr h.newline_not_mem, Nat.add_zero]
  constructor
  · intro h
    have hlexeme := h.lexeme p List.mem_cons_self
    have hline : p.token.line = line + p.gap.count '\n' := by
      simpa using h.line_eq [] p row rfl
    obtain ⟨hfirst, hchain⟩ := List.isChain_cons.mp h.apart
    refine ⟨row.flatMap Placed.chars ++ last, ?_, h.skipped p List.mem_cons_self, hlexeme, hline,
      hfirst, ?_⟩
    · rw [h.text_eq, List.flatMap_cons, Placed.chars, List.append_assoc, List.append_assoc]
    · exact {
        text_eq := rfl
        skipped := fun q hq => h.skipped q (List.mem_cons_of_mem p hq)
        skippedToEnd := h.skippedToEnd
        lexeme := fun q hq => h.lexeme q (List.mem_cons_of_mem p hq)
        apart := hchain
        line_eq := by
          rintro before q after rfl
          rw [h.line_eq (p :: before) q after rfl, hlines hlexeme, hline, Nat.add_assoc] }
  · rintro ⟨rest, rfl, hskipped, hlexeme, hline, hfirst, h⟩
    exact {
      text_eq := by
        rw [h.text_eq, List.flatMap_cons, Placed.chars, List.append_assoc, List.append_assoc]
      skipped := List.forall_mem_cons.mpr ⟨hskipped, h.skipped⟩
      skippedToEnd := h.skippedToEnd
      lexeme := List.forall_mem_cons.mpr ⟨hlexeme, h.lexeme⟩
      apart := List.isChain_cons.mpr ⟨hfirst, h.apart⟩
      line_eq := by
        intro before q after heq
        rcases List.cons_eq_append_iff.mp heq with ⟨rfl, hrow⟩ | ⟨before, rfl, hrow⟩
        · obtain ⟨rfl, -⟩ := List.cons.inj hrow
          simpa using hline
        · rw [h.line_eq before q after hrow, hlines hlexeme, hline, Nat.add_assoc] }

/-- What stands first in the text behind an atom ends it exactly if the next token is set apart from
it. -/
theorem Partition.head_isDelimiter_iff (h : Partition line text row last) :
    (∀ c, text.head? = some c → isDelimiter c = true) ↔
      ∀ q ∈ row.head?, q.token.kind = .atom → q.gap ≠ [] := by
  cases row with
  | nil =>
    obtain ⟨rfl, hlast⟩ := partition_nil_iff.mp h
    constructor
    · intro _ q hq
      cases hq
    · intro _ c hc
      obtain ⟨cs, rfl⟩ := List.head?_eq_some_iff.mp hc
      exact hlast.head_isDelimiter
  | cons p row =>
    obtain ⟨rest, rfl, hskipped, hlexeme, -, -, -⟩ := partition_cons_iff.mp h
    cases hgap : p.gap with
    | nil =>
      obtain ⟨c, cs, hcs⟩ := List.exists_cons_of_ne_nil hlexeme.toList_ne_nil
      have hhead : p.token.text.toList.head? = some c := by rw [hcs, List.head?_cons]
      simp [hcs, hgap, hlexeme.head_isDelimiter_iff hhead]
    | cons c gap =>
      rw [hgap] at hskipped
      simp [hgap, hskipped.head_isDelimiter]

/-! ## The tokens of a partition -/

/-- The scanner finds the tokens of a partition. -/
theorem Partition.scanFrom_eq (h : Partition line text row last) :
    scanFrom line text = .ok (row.map (·.token)) := by
  induction row generalizing line text with
  | nil =>
    obtain ⟨rfl, hlast⟩ := partition_nil_iff.mp h
    exact scanFrom_skippedToEnd hlast line
  | cons p row ih =>
    obtain ⟨rest, rfl, hskipped, hlexeme, hline, hfirst, hrest⟩ := partition_cons_iff.mp h
    have hends (hatom : p.token.kind = .atom) :
        ∀ c, rest.head? = some c → isDelimiter c = true :=
      hrest.head_isDelimiter_iff.mpr fun q hq => hfirst q hq hatom
    rw [scanFrom_skipped hskipped, ← hline, hlexeme.scanFrom_append hends, ih hrest]
    rfl

/-! ## Partitions from the front -/

theorem Partitions.nil (h : SkippedToEnd last) : Partitions line last [] :=
  ⟨[], last, partition_nil_iff.mpr ⟨rfl, h⟩, rfl⟩

/-- Something more is skipped before the first token. -/
theorem Partitions.skip (hgap : Skipped gap) (h : Partitions (line + gap.count '\n') cs tokens) :
    Partitions line (gap ++ cs) tokens := by
  obtain ⟨row, last, h, rfl⟩ := h
  cases row with
  | nil =>
    obtain ⟨rfl, hlast⟩ := partition_nil_iff.mp h
    exact .nil (hlast.prepend hgap)
  | cons p row =>
    obtain ⟨rest, rfl, hskipped, hlexeme, hline, hfirst, hrest⟩ := partition_cons_iff.mp h
    refine ⟨⟨gap ++ p.gap, p.token⟩ :: row, last, partition_cons_iff.mpr ⟨rest, ?_,
      hgap.append hskipped, hlexeme, ?_, hfirst, hrest⟩, rfl⟩
    · rw [List.append_assoc]
    · rw [hline, List.count_append, Nat.add_assoc]

/-- A token is put in front of a partition. -/
theorem Partitions.lexeme {kind : Kind} {text : String} (hlexeme : Lexeme kind text)
    (hends : kind = .atom → ∀ c, rest.head? = some c → isDelimiter c = true)
    (h : Partitions line rest tokens) :
    Partitions line (text.toList ++ rest) (⟨kind, text, line⟩ :: tokens) := by
  obtain ⟨row, last, h, rfl⟩ := h
  exact ⟨⟨[], ⟨kind, text, line⟩⟩ :: row, last, partition_cons_iff.mpr ⟨rest, rfl, .nil, hlexeme,
    rfl, fun q hq hatom => h.head_isDelimiter_iff.mp (hends hatom) q hq, h⟩, rfl⟩

/-! ## How a text begins -/

/-- The first line of a text, and what there is behind it. -/
theorem exists_line (cs : List Char) : ∃ body rest, cs = body ++ rest ∧ '\n' ∉ body ∧
    (rest = [] ∨ ∃ more, rest = '\n' :: more) := by
  refine ⟨cs.takeWhile (· ≠ '\n'), cs.dropWhile (· ≠ '\n'),
    List.takeWhile_append_dropWhile.symm, fun hmem => ?_, ?_⟩
  · simpa using List.mem_takeWhile_imp hmem
  · cases hrest : cs.dropWhile (· ≠ '\n') with
    | nil => exact .inl rfl
    | cons d more =>
      have hd := List.head?_dropWhile_not (· ≠ '\n') cs
      rw [hrest] at hd
      exact .inr ⟨more, by simpa using hd⟩

/-- A text is skipped up to its end, or begins with a stretch that is skipped, with a double quote
or with a token. -/
theorem lexical_induction {motive : List Char → Prop}
    (skippedToEnd : ∀ last, SkippedToEnd last → motive last)
    (skipped : ∀ gap cs, Skipped gap → motive cs → motive (gap ++ cs))
    (quote : ∀ cs, motive ('"' :: cs))
    (lexeme : ∀ kind text rest, Lexeme kind text →
      (kind = .atom → ∀ c, rest.head? = some c → isDelimiter c = true) → motive rest →
      motive (text.toList ++ rest))
    (cs : List Char) : motive cs := by
  induction hlength : cs.length using Nat.strong_induction_on generalizing cs with
  | h n ih =>
    subst hlength
    cases cs with
    | nil => exact skippedToEnd [] (.closed .nil)
    | cons c cs =>
      by_cases hseparator : isSeparator c = true
      · exact skipped [c] cs (.separator hseparator .nil) (ih cs.length (by simp) cs rfl)
      by_cases hcomment : c = ';'
      · subst hcomment
        obtain ⟨body, rest, rfl, hbody, rfl | ⟨rest, rfl⟩⟩ := exists_line cs
        · rw [List.append_nil]
          exact skippedToEnd (';' :: body) (.commented .nil hbody)
        · have hmore : rest.length < (';' :: (body ++ '\n' :: rest)).length := by
            simp only [List.length_cons, List.length_append]
            omega
          have h := skipped _ rest (.comment hbody .nil) (ih rest.length hmore rest rfl)
          simpa using h
      by_cases hquote : c = '"'
      · subst hquote
        exact quote cs
      cases hmark : punctuation? c with
      | some kind =>
        have h := lexeme kind _ cs (.mark hmark) (fun hatom => ?_) (ih cs.length (by simp) cs rfl)
        · simpa using h
        · exact absurd hatom (punctuation?_ne_atom hmark)
      | none =>
        -- the atom is the longest run of characters that do not end one
        have hplain : isDelimiter c = false :=
          isDelimiter_eq_false_iff.mpr ⟨hmark, hcomment, hquote, by simpa using hseparator⟩
        have hword : IsWord (String.ofList (c :: cs.takeWhile (!isDelimiter ·))) := {
          ne_empty := fun hnil => by simpa using congrArg String.toList hnil
          plain := by simpa using plain_atom hplain cs }
        have hends : ∀ d, (cs.dropWhile (!isDelimiter ·)).head? = some d →
            isDelimiter d = true := fun d hd => by
          simpa [hd] using List.head?_dropWhile_not (!isDelimiter ·) cs
        have hless : (cs.dropWhile (!isDelimiter ·)).length < (c :: cs).length :=
          Nat.lt_succ_of_le (List.dropWhile_suffix _).length_le
        have h := lexeme .atom _ _ (.atom hword) (fun _ => hends) (ih _ hless _ rfl)
        simpa using h

/-- The tokens that the scanner finds have a partition. -/
theorem partitions_of_scanFrom (h : scanFrom line cs = .ok tokens) : Partitions line cs tokens := by
  induction cs using lexical_induction generalizing line tokens with
  | skippedToEnd last hlast =>
    rw [scanFrom_skippedToEnd hlast] at h
    cases h
    exact .nil hlast
  | skipped gap cs hgap ih =>
    rw [scanFrom_skipped hgap] at h
    exact .skip hgap (ih h)
  | quote cs =>
    rw [scanFrom_quote] at h
    cases h
  | lexeme kind text rest hlexeme hends ih =>
    rw [hlexeme.scanFrom_append hends] at h
    obtain ⟨more, hmore, rfl⟩ := map_eq_ok h
    exact .lexeme hlexeme hends (ih hmore)

theorem scanFrom_eq_ok_iff : scanFrom line cs = .ok tokens ↔ Partitions line cs tokens := by
  constructor
  · exact partitions_of_scanFrom
  · rintro ⟨row, last, h, rfl⟩
    exact h.scanFrom_eq

/-! ## Double quotes outside of comments -/

/-- What stands behind these characters is in a comment: there is a semicolon on their last line. -/
def Commented (before : List Char) : Prop :=
  ∃ earlier body, before = earlier ++ ';' :: body ∧ '\n' ∉ body

/-- A double quote stands outside of comments. -/
def Exposed (text : List Char) : Prop :=
  ∃ before after, text = before ++ '"' :: after ∧ ¬ Commented before

theorem Commented.prepend {before : List Char} (h : Commented before) (cs : List Char) :
    Commented (cs ++ before) := by
  obtain ⟨earlier, body, rfl, hbody⟩ := h
  exact ⟨cs ++ earlier, body, (List.append_assoc cs earlier _).symm, hbody⟩

theorem Exposed.prepend (h : Exposed cs) (before : List Char)
    (hbefore : ∀ more, Commented (before ++ more) → Commented more) : Exposed (before ++ cs) := by
  obtain ⟨more, after, rfl, hopen⟩ := h
  exact ⟨before ++ more, after, (List.append_assoc before more _).symm,
    fun h => hopen (hbefore more h)⟩

theorem commented_cons_iff (hc : c ≠ ';') : Commented (c :: cs) ↔ Commented cs := by
  refine ⟨fun ⟨earlier, body, heq, hbody⟩ => ?_, fun h => h.prepend [c]⟩
  rcases List.cons_eq_append_iff.mp heq with ⟨-, hfirst⟩ | ⟨earlier, -, rfl⟩
  · exact absurd (List.cons.inj hfirst).1.symm hc
  · exact ⟨earlier, body, rfl, hbody⟩

/-- A comment ends with its line. -/
theorem commented_line_iff : Commented (body ++ '\n' :: cs) ↔ Commented cs := by
  refine ⟨fun ⟨earlier, comment, heq, hcomment⟩ => ?_, fun h => ?_⟩
  · rcases List.append_eq_append_iff.mp heq with ⟨more, rfl, hmore⟩ | ⟨more, rfl, hmore⟩
    · rcases List.cons_eq_append_iff.mp hmore with ⟨-, hfirst⟩ | ⟨more, -, rfl⟩
      · cases hfirst
      · exact ⟨more, comment, rfl, hcomment⟩
    · rcases List.cons_eq_append_iff.mp hmore with ⟨-, hfirst⟩ | ⟨more, -, rfl⟩
      · cases hfirst
      · simp at hcomment
  · exact (h.prepend ['\n']).prepend body

theorem exposed_cons_iff (hc : c ≠ ';') : Exposed (c :: cs) ↔ c = '"' ∨ Exposed cs := by
  constructor
  · rintro ⟨before, after, heq, hopen⟩
    rcases List.cons_eq_append_iff.mp heq with ⟨-, hfirst⟩ | ⟨before, rfl, rfl⟩
    · exact .inl (List.cons.inj hfirst).1.symm
    · exact .inr ⟨before, after, rfl, fun h => hopen ((commented_cons_iff hc).mpr h)⟩
  · rintro (rfl | h)
    · exact ⟨[], cs, rfl, fun ⟨earlier, body, heq, _⟩ => by simp at heq⟩
    · exact h.prepend [c] fun more => (commented_cons_iff hc).mp

theorem exposed_append_iff {before : List Char} (hcomment : ';' ∉ before) (hquote : '"' ∉ before) :
    Exposed (before ++ cs) ↔ Exposed cs := by
  induction before with
  | nil => rfl
  | cons c before ih =>
    rw [List.mem_cons, not_or] at hcomment hquote
    rw [List.cons_append, exposed_cons_iff (Ne.symm hcomment.1), ih hcomment.2 hquote.2]
    exact ⟨fun h => h.resolve_left (Ne.symm hquote.1), .inr⟩

/-- A comment hides the double quotes in it. -/
theorem not_exposed_comment (hbody : '\n' ∉ body) : ¬ Exposed (';' :: body) := by
  rintro ⟨before, after, heq, hopen⟩
  rcases List.cons_eq_append_iff.mp heq with ⟨-, hfirst⟩ | ⟨before, rfl, rfl⟩
  · cases hfirst
  · exact hopen ⟨[], before, rfl, fun hmem => hbody (List.mem_append_left _ hmem)⟩

theorem exposed_comment_iff (hbody : '\n' ∉ body) :
    Exposed (';' :: body ++ '\n' :: cs) ↔ Exposed cs := by
  constructor
  · rintro ⟨before, after, heq, hopen⟩
    rcases List.append_eq_append_iff.mp heq with ⟨more, rfl, hmore⟩ | ⟨more, hmore, hafter⟩
    · rcases List.cons_eq_append_iff.mp hmore with ⟨-, hfirst⟩ | ⟨more, rfl, rfl⟩
      · cases hfirst
      · exact ⟨more, after, rfl, fun h => hopen (commented_line_iff.mpr h)⟩
    · rcases List.cons_eq_append_iff.mp hafter with ⟨-, hfirst⟩ | ⟨more, rfl, -⟩
      · cases hfirst
      · exact absurd ⟨before, more, hmore, hopen⟩ (not_exposed_comment hbody)
  · intro h
    rw [List.append_cons]
    refine h.prepend _ fun more hmore => ?_
    rw [← List.append_cons] at hmore
    exact commented_line_iff.mp hmore

theorem Skipped.exposed_append_iff (h : Skipped gap) : Exposed (gap ++ cs) ↔ Exposed cs := by
  induction h with
  | nil => rfl
  | @separator c gap hc _ ih =>
    have hchars : c ≠ ';' ∧ c ≠ '"' := by
      constructor <;> (rintro rfl; cases hc)
    rw [List.cons_append, exposed_cons_iff hchars.1, ih]
    exact ⟨fun h => h.resolve_left hchars.2, .inr⟩
  | @comment body gap hbody _ ih =>
    rw [List.append_assoc]
    change Exposed (';' :: body ++ '\n' :: (gap ++ cs)) ↔ Exposed cs
    rw [exposed_comment_iff hbody, ih]

theorem SkippedToEnd.not_exposed (h : SkippedToEnd last) : ¬ Exposed last := by
  have hnil : ¬ Exposed [] := fun ⟨before, after, heq, _⟩ => by simp at heq
  cases h with
  | closed h =>
    rw [← List.append_nil last, h.exposed_append_iff]
    exact hnil
  | commented h hbody =>
    rw [h.exposed_append_iff]
    exact not_exposed_comment hbody

/-- Neither a comment nor a double quote begins within a token. -/
theorem Lexeme.exposed_append_iff {kind : Kind} {text : String} (h : Lexeme kind text) :
    Exposed (text.toList ++ cs) ↔ Exposed cs := by
  have hchars : ';' ∉ text.toList ∧ '"' ∉ text.toList := by
    cases h with
    | mark h =>
      rw [String.toList_ofList, List.mem_singleton, List.mem_singleton]
      constructor <;> (rintro rfl; cases h)
    | atom h => constructor <;> exact fun hmem => Bool.true_eq_false.mp (h.plain _ hmem)
  exact Token.exposed_append_iff hchars.1 hchars.2

/-- A text is refused exactly if a double quote is exposed. -/
theorem scanFrom_eq_error_iff : (∃ e, scanFrom line cs = .error e) ↔ Exposed cs := by
  induction cs using lexical_induction generalizing line with
  | skippedToEnd last hlast =>
    rw [scanFrom_skippedToEnd hlast]
    exact ⟨fun ⟨_, h⟩ => (nomatch h), fun h => absurd h hlast.not_exposed⟩
  | skipped gap cs hgap ih => rw [scanFrom_skipped hgap, hgap.exposed_append_iff, ih]
  | quote cs =>
    rw [scanFrom_quote, exposed_cons_iff (by decide)]
    exact ⟨fun _ => .inl rfl, fun _ => ⟨⟨line⟩, rfl⟩⟩
  | lexeme kind text rest hlexeme hends ih =>
    rw [hlexeme.scanFrom_append hends, hlexeme.exposed_append_iff, ← @ih line]
    cases scanFrom line rest with
    | error e => rfl
    | ok tokens => simp

/-- The tokens of a text are those of its partition, lines counted from one on, and there are none
exactly if a double quote stands outside of comments. -/
theorem scan_partitions (src : String) :
    (∀ tokens, scan src = .ok tokens ↔
      ∃ row last, Partition 1 src.toList row last ∧ row.map (·.token) = tokens) ∧
    ((∃ e, scan src = .error e) ↔
      ∃ before after, src.toList = before ++ '"' :: after ∧ ¬ Commented before) :=
  ⟨fun _ => scanFrom_eq_ok_iff, scanFrom_eq_error_iff⟩

/-! ## Sources as bytes -/

/-- The bytes of a source are read as one text, in which each byte that is no part of a character is the
replacement character, and if they encode a text they are read as this text. The tokens of the source are
those of the partition of its text, lines counted from one on, and there are none exactly if a double quote
stands outside of comments. -/
theorem scanBytes_partitions (src : List UInt8) :
    ∃ text, (∀ cs, Text.Reads src cs ↔ cs = text) ∧
      (∀ s : String, src = s.toUTF8.toList → text = s.toList) ∧
      (∀ tokens, scanBytes src = .ok tokens ↔
        ∃ row last, Partition 1 text row last ∧ row.map (·.token) = tokens) ∧
      ((∃ e, scanBytes src = .error e) ↔
        ∃ before after, text = before ++ '"' :: after ∧ ¬ Commented before) := by
  have hread : ∀ cs, Text.Reads src cs ↔ cs = (Text.ofBytes src).toList := fun _ =>
    Text.reads_iff.trans eq_comm
  refine ⟨(Text.ofBytes src).toList, hread, ?_, scan_partitions (Text.ofBytes src)⟩
  rintro s rfl
  exact ((hread _).mp (Text.Reads.encoded_iff.mpr rfl)).symm

/-- A byte between two letters that is no part of a character. The source is an atom, and the text of the
atom is no piece of the source. -/
theorem scanBytes_replaces :
    scanBytes [0x61, 0xff, 0x62] = .ok [⟨.atom, "a\ufffdb", 1⟩] ∧
      ∀ before after, [0x61, 0xff, 0x62] ≠ before ++ "a\ufffdb".toUTF8.toList ++ after := by
  refine ⟨by decide +kernel, fun before after heq => ?_⟩
  have hlength := congrArg List.length heq
  have hfive : "a\ufffdb".toUTF8.toList.length = 5 := by decide +kernel
  rw [List.length_append, List.length_append, hfive] at hlength
  simp only [List.length_cons, List.length_nil] at hlength
  omega

end WasmLisp.Token
