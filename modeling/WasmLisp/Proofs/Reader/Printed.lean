import Mathlib
import WasmLisp.Proofs.Reader.Grammar

/-!
# Forms that are printed and read again

Three things go together here: the text of a form, the tokens that `Form.tokens` gives it, and the
form itself with its lines forgotten (`Form.onLine`).

* `Form.Readable`: every leaf of the form has a text that is a word and that writes the leaf. This is
  so of all forms that are read (`readable_of_writes`);
* `Form.scanFrom_render`: the text of a readable form has the tokens of the form, whatever comes
  behind it, provided that it does not go on in the middle of a word;
* `Form.writes_tokens`: the tokens of a readable form write it;
* `Form.readAll_render`: forms that are read are the same when they are printed and read again, so
  that different ones have different texts; `Form.readBytes_render` says it of bytes.
-/

namespace WasmLisp

namespace Form

open Reader (AtomForm Writes WritesAll quoteForm)
open Token (IsWord scanFrom)

variable {f g : Form} {fs : List Form} {line : Nat}

mutual

/-- The form with everything in it on one line. -/
def onLine (n : Nat) : Form → Form
  | .int v _ => .int v n
  | .sym s _ => .sym s n
  | .keyword name _ => .keyword name n
  | .list items _ => .list (onLineAll n items) n
  | .vector items _ => .vector (onLineAll n items) n

/-- The forms with everything in them on one line. -/
def onLineAll (n : Nat) : List Form → List Form
  | [] => []
  | f :: fs => f.onLine n :: onLineAll n fs

end

mutual

/-- The tokens of the form on one line. -/
def tokens (n : Nat) : Form → List Token
  | .list items _ => ⟨.openParen, "(", n⟩ :: (tokensAll n items ++ [⟨.closeParen, ")", n⟩])
  | .vector items _ => ⟨.openBracket, "[", n⟩ :: (tokensAll n items ++ [⟨.closeBracket, "]", n⟩])
  | f => [⟨.atom, f.render, n⟩]

/-- The tokens of the forms, one form after the other. -/
def tokensAll (n : Nat) : List Form → List Token
  | [] => []
  | f :: fs => f.tokens n ++ tokensAll n fs

end

/-- The text of every leaf of the form is a word and writes the leaf. -/
inductive Readable : Form → Prop where
  | leaf {f : Form} (hword : IsWord f.render) (htokens : ∀ n, f.tokens n = [⟨.atom, f.render, n⟩])
    (h : ∀ n, AtomForm f.render n (f.onLine n)) : Readable f
  | list {items : List Form} {line : Nat} (h : ∀ f ∈ items, Readable f) :
    Readable (.list items line)
  | vector {items : List Form} {line : Nat} (h : ∀ f ∈ items, Readable f) :
    Readable (.vector items line)

theorem onLineAll_eq (n : Nat) (fs : List Form) : onLineAll n fs = fs.map (onLine n) := by
  induction fs with
  | nil => rfl
  | cons f fs ih => rw [onLineAll, ih, List.map_cons]

/-! ## What is read is readable -/

/-- A symbol is printed as it is written. -/
theorem text_of_spelled {text : String} {s : Symbol} (h : Symbol.Spelled text s) :
    s.text = text := by
  cases h with
  | bare => rw [Symbol.text, if_pos rfl]
  | qualified hns => rw [Symbol.text, if_neg hns]

theorem isWord_toString (i : Int) : IsWord (toString i) := by
  constructor
  · intro hempty
    obtain ⟨d, rest, -, heq | ⟨sign, -, heq⟩⟩ := Text.numeric_toString i
    · rw [hempty] at heq
      cases heq
    · rw [hempty] at heq
      cases heq
  · intro c hc
    rcases Text.mem_toString hc with rfl | hdigit
    · decide
    · exact Token.isDelimiter_of_isDigit hdigit

theorem readable_of_atomForm {text : String} (hword : IsWord text) (h : AtomForm text line f) :
    f.Readable := by
  cases h with
  | @int value hnumeric h =>
    exact .leaf (isWord_toString _) (fun _ => rfl)
      (fun _ => .int (Text.numeric_toString _) (Text.literal_toString _))
  | keyword h hne =>
    subst h
    exact .leaf hword (fun _ => rfl) (fun _ => .keyword rfl hne)
  | @sym s hnumeric hcolon h =>
    have htext := text_of_spelled h
    subst htext
    exact .leaf hword (fun _ => rfl) (fun _ => .sym hnumeric hcolon h)

theorem quoteForm_readable (h : f.Readable) : (quoteForm line f).Readable := by
  have hatom : AtomForm "quote" line (.sym { name := "quote" } line) := by
    rw [← Reader.atom_eq_ok_iff]
    rfl
  have hplain : ∀ c ∈ "quote".toList, Token.isDelimiter c = false := by
    simp only [String.reduceToList, List.forall_mem_cons]
    exact ⟨rfl, rfl, rfl, rfl, rfl, fun _ h => (nomatch h)⟩
  exact .list (List.forall_mem_cons.mpr
    ⟨readable_of_atomForm ⟨by decide, hplain⟩ hatom, List.forall_mem_singleton.mpr h⟩)

mutual

theorem readable_of_writes {ts : List Token} {f : Form} (h : Writes ts f)
    (hwords : ∀ t ∈ ts, t.kind = .atom → IsWord t.text) : f.Readable := by
  cases h with
  | atom hkind h => exact readable_of_atomForm (hwords _ List.mem_cons_self hkind) h
  | quote hkind h =>
    exact quoteForm_readable (readable_of_writes h fun t ht => hwords t (List.mem_cons_of_mem _ ht))
  | list hopen h hclose =>
    exact .list (readable_of_writesAll h fun t ht =>
      hwords t (List.mem_cons_of_mem _ (List.mem_append_left _ ht)))
  | vector hopen h hclose =>
    exact .vector (readable_of_writesAll h fun t ht =>
      hwords t (List.mem_cons_of_mem _ (List.mem_append_left _ ht)))

theorem readable_of_writesAll {ts : List Token} {fs : List Form} (h : WritesAll ts fs)
    (hwords : ∀ t ∈ ts, t.kind = .atom → IsWord t.text) : ∀ f ∈ fs, f.Readable := by
  cases h with
  | nil => exact fun f hf => absurd hf List.not_mem_nil
  | cons h hrest =>
    refine List.forall_mem_cons.mpr ⟨?_, ?_⟩
    · exact readable_of_writes h fun t ht => hwords t (List.mem_append_left _ ht)
    · exact readable_of_writesAll hrest fun t ht => hwords t (List.mem_append_right _ ht)

end

/-- The forms of a text are readable. -/
theorem readable_of_readAll {src : String} (h : readAll src = .ok fs) : ∀ f ∈ fs, f.Readable := by
  cases hscan : Token.scan src with
  | error e =>
    rw [readAll, Reader.read, hscan] at h
    cases h
  | ok tokens =>
    exact readable_of_writesAll ((readAll_eq_ok_iff hscan).mp h) fun t ht hatom =>
      Token.isWord_of_scanFrom hscan ht hatom

/-! ## The tokens of a form write it -/

theorem writesAll_tokensAll {n : Nat} (h : ∀ f ∈ fs, Writes (f.tokens n) (f.onLine n)) :
    WritesAll (tokensAll n fs) (onLineAll n fs) := by
  induction fs with
  | nil => exact .nil
  | cons f fs ih =>
    obtain ⟨hf, hfs⟩ := List.forall_mem_cons.mp h
    exact .cons hf (ih hfs)

theorem writes_tokens (h : f.Readable) (n : Nat) : Writes (f.tokens n) (f.onLine n) := by
  induction h with
  | @leaf f hword htokens h =>
    rw [htokens]
    exact .atom rfl (h n)
  | list _ ih => exact .list rfl (writesAll_tokensAll ih) rfl
  | vector _ ih => exact .vector rfl (writesAll_tokensAll ih) rfl

/-! ## The text of a form has its tokens -/

/-- The text begins with the tokens, unless what comes behind it goes on with its last word. -/
def ScansAs (n : Nat) (text : String) (ts : List Token) : Prop :=
  ∀ rest : List Char, (∀ c, rest.head? = some c → Token.isDelimiter c = true) →
    scanFrom n (text.toList ++ rest) = (ts ++ ·) <$> scanFrom n rest

namespace ScansAs

variable {n : Nat} {text text' : String} {ts ts' : List Token}

/-- Texts with a space between them. -/
theorem spaced (h : ScansAs n text ts) (h' : ScansAs n text' ts') :
    ScansAs n (text ++ " " ++ text') (ts ++ ts') := by
  intro rest hrest
  have hspace : ∀ c, (' ' :: (text'.toList ++ rest)).head? = some c →
      Token.isDelimiter c = true := by
    intro c hc
    cases hc
    decide
  have hsplit : (text ++ " " ++ text').toList ++ rest =
      text.toList ++ ' ' :: (text'.toList ++ rest) := by simp
  rw [hsplit, h _ hspace, Token.scanFrom_space, h' rest hrest, Functor.map_map]
  simp only [List.append_assoc]

/-- A text between an opening and a closing mark. -/
theorem enclosed {left right : Char} {opener closer : Token.Kind} (h : ScansAs n text ts)
    (hleft : Token.punctuation? left = some opener)
    (hright : Token.punctuation? right = some closer) :
    ScansAs n (String.ofList [left] ++ text ++ String.ofList [right])
      (⟨opener, String.ofList [left], n⟩ :: (ts ++ [⟨closer, String.ofList [right], n⟩])) := by
  intro rest hrest
  have hend : ∀ c, (right :: rest).head? = some c → Token.isDelimiter c = true := by
    intro c hc
    cases hc
    simp [Token.isDelimiter, hright]
  have hsplit : (String.ofList [left] ++ text ++ String.ofList [right]).toList ++ rest =
      left :: (text.toList ++ right :: rest) := by simp
  rw [hsplit, Token.scanFrom_mark hleft, h _ hend, Token.scanFrom_mark hright, Functor.map_map,
    Functor.map_map]
  simp only [List.cons_append, List.append_assoc, List.nil_append]

end ScansAs

theorem scansAs_renderItems {n : Nat} (h : ∀ f ∈ fs, ScansAs n f.render (f.tokens n)) :
    ScansAs n (renderItems fs) (tokensAll n fs) := by
  induction fs with
  | nil =>
    intro rest _
    simp [renderItems, tokensAll]
  | cons f fs ih =>
    obtain ⟨hf, hfs⟩ := List.forall_mem_cons.mp h
    cases fs with
    | nil => simpa [renderItems, tokensAll] using hf
    | cons g fs => exact hf.spaced (ih hfs)

theorem scansAs_render (h : f.Readable) (n : Nat) : ScansAs n f.render (f.tokens n) := by
  induction h with
  | @leaf f hword htokens h =>
    intro rest hrest
    rw [Token.scanFrom_word hword hrest, htokens]
    rfl
  | list _ ih => exact (scansAs_renderItems ih).enclosed rfl rfl
  | vector _ ih => exact (scansAs_renderItems ih).enclosed rfl rfl

/-! ## Printed and read again -/

theorem intercalate_render (fs : List Form) :
    " ".intercalate (fs.map render) = renderItems fs := by
  induction fs with
  | nil => rfl
  | cons f fs ih =>
    cases fs with
    | nil => exact String.intercalate_singleton
    | cons g fs =>
      rw [List.map_cons, List.map_cons, String.intercalate_cons_cons, ← List.map_cons, ih]
      rfl

theorem readAll_renderItems (h : ∀ f ∈ fs, f.Readable) :
    readAll (renderItems fs) = .ok (fs.map (onLine 1)) := by
  have hscan : Token.scan (renderItems fs) = .ok (tokensAll 1 fs) := by
    have hitems := scansAs_renderItems (fun f hf => scansAs_render (h f hf) 1) []
      (fun c hc => (nomatch hc))
    rw [List.append_nil] at hitems
    rw [Token.scan, hitems, scanFrom]
    simp
  rw [readAll_eq_ok_iff hscan, ← onLineAll_eq]
  exact writesAll_tokensAll fun f hf => writes_tokens (h f hf) 1

/-- The forms of a source of bytes are printed as a source that has the same forms, lines apart. -/
theorem readBytes_render {src : List UInt8} (h : readBytes src = .ok fs) :
    readBytes (" ".intercalate (fs.map render)).toUTF8.toList = .ok (fs.map (onLine 1)) := by
  rw [readBytes_eq (Text.Reads.encoded_iff.mpr rfl), intercalate_render]
  exact readAll_renderItems (readable_of_readAll h)

/-- The forms of a text are the same, lines apart, when they are printed and read again. Hence two
forms that can be read have the same text only if they are the same, lines apart. -/
theorem readAll_render {src : String} {forms : List Form} (h : readAll src = .ok forms) :
    readAll (" ".intercalate (forms.map render)) = .ok (forms.map (onLine 1)) ∧
    ∀ src' forms', readAll src' = .ok forms' → ∀ f ∈ forms, ∀ g ∈ forms',
      f.render = g.render → f.onLine 1 = g.onLine 1 := by
  refine ⟨by rw [intercalate_render, readAll_renderItems (readable_of_readAll h)], ?_⟩
  intro src' forms' h' f hf g hg heq
  have hone : ∀ {f : Form}, f.Readable → readAll f.render = .ok [f.onLine 1] := by
    intro f hf
    exact readAll_renderItems (List.forall_mem_singleton.mpr hf)
  have hread := hone (readable_of_readAll h f hf)
  rw [heq, hone (readable_of_readAll h' g hg)] at hread
  exact (List.cons.inj (Except.ok.inj hread)).1.symm

/-- The least integer, a name with two slashes and a quote mark on two lines. -/
theorem readAll_render_nested :
    ∃ forms, readAll "(f -0x8000_0000_0000_0000,\n'a/b/c) /" = .ok forms ∧
      " ".intercalate (forms.map render) = "(f -9223372036854775808 (quote a/b/c)) /" ∧
      readAll "(f -9223372036854775808 (quote a/b/c)) /" = .ok (forms.map (onLine 1)) := by
  have hread : readAll "(f -0x8000_0000_0000_0000,\n'a/b/c) /" =
      .ok [.list [.sym { name := "f" } 1, .int (-9223372036854775808) 1,
        quoteForm 2 (.sym { ns := "a", name := "b/c" } 2)] 1, .sym { name := "/" } 2] := by cbv
  refine ⟨_, hread, by cbv, ?_⟩
  rw [← (readAll_render hread).1]
  congr 1

end Form

end WasmLisp
