import Mathlib
import WasmLisp.Form.Reader
import WasmLisp.Proofs.Reader
import WasmLisp.Proofs.Results
import WasmLisp.Proofs.Text.Decoded
import WasmLisp.Proofs.Text.Integer
import WasmLisp.Proofs.Token

/-!
# The grammar of forms

The reader keeps the open forms on a stack; the grammar knows nothing of that. Here both are tied
together:

* `Symbol.Spelled` and `Reader.AtomForm`: what symbols and atoms look like, said of their texts;
* `Reader.Writes` and `Reader.WritesAll`: the tokens that write a form, and those that write several
  forms one after the other;
* `Reader.Begun`: what the stack of open forms says of the tokens that have been read so far, which
  every step preserves (`step_begun`) and hence a whole run (`run_begun`);
* `Reader.run_writes`: the other direction, tokens that write a form put it where the stack asks;
* `readAll_iff_writesAll`: the forms of a text are those that its tokens write, and there are no
  others;
* `readBytes_eq_ok_iff`: the same of a source that is given by its bytes, which is read as its text is
  (`readBytes_eq`).
-/

namespace WasmLisp

/-! ## Symbols -/

namespace Symbol

/-- The text writes the symbol. A bare name has no slash behind its first character unless it begins
with one, and no name ends with a slash but the slash itself. -/
inductive Spelled : String → Symbol → Prop where
  | bare {text : String} (hslash : '/' ∈ text.toList → text.toList.head? = some '/')
    (hend : text.toList.getLast? = some '/' → text = "/") : Spelled text { name := text }
  | qualified {ns name : String} (hns : ns ≠ "") (hslash : '/' ∉ ns.toList) (hname : name ≠ "")
    (hend : name.toList.getLast? ≠ some '/') : Spelled (qualify ns name) { ns, name }

theorem toList_qualify (ns name : String) :
    (qualify ns name).toList = ns.toList ++ '/' :: name.toList := by
  simp [qualify]

theorem getLast?_qualify {ns name : String} (h : name ≠ "") :
    (qualify ns name).toList.getLast? = name.toList.getLast? := by
  have hne : name.toList ≠ [] := fun hnil => h (String.toList_eq_nil_iff.mp hnil)
  rw [toList_qualify, List.getLast?_append_cons, List.getLast?_cons_of_ne_nil hne]

theorem eq_empty_of_qualify_eq_slash {ns name : String} (h : qualify ns name = "/") : ns = "" := by
  have hlength := congrArg (fun text : String => text.toList.length) h
  simp only [toList_qualify, List.length_append, List.length_cons] at hlength
  refine String.toList_eq_nil_iff.mp (List.length_eq_zero_iff.mp ?_)
  have hone : "/".toList.length = 1 := rfl
  omega

theorem cutSlash_eq_none {cs : List Char} (h : cutSlash cs = none) : '/' ∉ cs := by
  induction cs with
  | nil => exact List.not_mem_nil
  | cons c cs ih =>
    rw [cutSlash] at h
    split at h
    · cases h
    · rename_i hc
      rw [List.mem_cons, not_or]
      exact ⟨Ne.symm hc, ih (Option.map_eq_none_iff.mp h)⟩

theorem cutSlash_eq_some {cs before after : List Char} (h : cutSlash cs = some (before, after)) :
    cs = before ++ '/' :: after ∧ '/' ∉ before := by
  induction cs generalizing before with
  | nil => cases h
  | cons c cs ih =>
    rw [cutSlash] at h
    split at h
    · rename_i hc
      cases h
      exact ⟨by rw [hc, List.nil_append], List.not_mem_nil⟩
    · rename_i hc
      obtain ⟨⟨before, after⟩, hcut, heq⟩ := Option.map_eq_some_iff.mp h
      cases heq
      obtain ⟨rfl, hnot⟩ := ih hcut
      exact ⟨rfl, by simpa [Ne.symm hc] using hnot⟩

theorem cut?_eq_some {text ns name : String} (h : cut? text = some (ns, name)) :
    text = qualify ns name ∧ '/' ∉ ns.toList := by
  obtain ⟨⟨before, after⟩, hcut, heq⟩ := Option.map_eq_some_iff.mp h
  cases heq
  obtain ⟨htext, hnot⟩ := cutSlash_eq_some hcut
  refine ⟨String.toList_injective ?_, by simpa using hnot⟩
  rw [toList_qualify, htext]
  simp

/-- The symbol that is read is the only one that the text writes. -/
theorem spelled_iff {text : String} {s : Symbol} :
    Spelled text s ↔ s = ofText text ∧ (text.toList.getLast? = some '/' → text = "/") := by
  constructor
  · intro h
    cases h with
    | bare hslash hend =>
      refine ⟨?_, hend⟩
      unfold ofText
      split
      · rename_i ns name hcut
        obtain ⟨htext, hnot⟩ := cut?_eq_some hcut
        -- the cut is at the very beginning, so that there is nothing before it
        have hns : ns = "" := by
          have hhead := hslash (by rw [htext, toList_qualify]; simp)
          rw [htext, toList_qualify] at hhead
          by_contra hne
          obtain ⟨c, rest, hc⟩ := List.exists_cons_of_ne_nil
            (fun hnil => hne (String.toList_eq_nil_iff.mp hnil))
          rw [hc] at hhead hnot
          exact hnot (by cases hhead; exact List.mem_cons_self)
        rw [if_pos (by simp [hns])]
      · rfl
    | @qualified ns name hns hslash hname hend =>
      refine ⟨?_, fun hlast => absurd ?_ hend⟩
      · rw [ofText, cut?_qualify hslash]
        simp [hns, hname]
      · rwa [getLast?_qualify hname] at hlast
  · rintro ⟨rfl, hend⟩
    unfold ofText
    split
    · rename_i ns name hcut
      obtain ⟨htext, hnot⟩ := cut?_eq_some hcut
      by_cases hns : ns = ""
      · rw [if_pos (by simp [hns])]
        refine .bare (fun _ => ?_) hend
        rw [htext, hns, toList_qualify]
        rfl
      · -- a slash at the end would be the only character
        have hlast : text.toList.getLast? ≠ some '/' := fun hlast =>
          hns (eq_empty_of_qualify_eq_slash (htext ▸ hend hlast))
        have hname : name ≠ "" := by
          rintro rfl
          exact hlast (by rw [htext, toList_qualify]; simp)
        rw [if_neg (by simp [hns, hname]), htext]
        exact .qualified hns hnot hname (fun hslash => hlast (by rw [htext, getLast?_qualify hname, hslash]))
    · rename_i hcut
      have hnot := cutSlash_eq_none (Option.map_eq_none_iff.mp hcut)
      exact .bare (fun hmem => absurd hmem hnot) hend

end Symbol

namespace Reader

variable {ts us : List Token} {t t' : Token} {f : Form} {items : List Form} {last line : Nat}
  {s s' : State} {opened : List Opened} {finished : List Form}

/-! ## Atoms -/

/-- The text of an atom on the line writes the form: what looks like a number is one of 64 bits, what
begins with a colon is a keyword with a name, and anything else is a symbol. -/
inductive AtomForm (text : String) (line : Nat) : Form → Prop where
  | int {value : Int64} (hnumeric : Text.Numeric text) (h : Text.Literal text value) :
    AtomForm text line (.int value line)
  | keyword {name : String} (h : text = ":" ++ name) (hne : name ≠ "") :
    AtomForm text line (.keyword name line)
  | sym {symbol : Symbol} (hnumeric : ¬ Text.Numeric text) (hcolon : text.toList.head? ≠ some ':')
    (h : Symbol.Spelled text symbol) : AtomForm text line (.sym symbol line)

theorem not_numeric_of_colon {text : String} (h : text.toList.head? = some ':') :
    ¬ Text.Numeric text := by
  rintro ⟨d, rest, hd, heq | ⟨sign, hsign, heq⟩⟩
  · rw [heq] at h
    cases h
    cases hd
  · rw [heq] at h
    cases h
    revert hsign
    decide

/-- Exactly the forms that a text writes are read from it. -/
theorem atom_eq_ok_iff {text : String} : atom text line = .ok f ↔ AtomForm text line f := by
  unfold atom
  by_cases hnumeric : Text.Numeric text
  · rw [if_pos (Text.looksNumeric_iff.mpr hnumeric)]
    constructor
    · intro h
      split at h
      · rename_i value hvalue
        cases h
        exact .int hnumeric (Text.int64?_eq_some_iff.mp hvalue)
      · cases h
    · intro h
      cases h with
      | int _ h => rw [Text.int64?_eq_some_iff.mpr h]
      | keyword h =>
        refine absurd hnumeric (not_numeric_of_colon ?_)
        simp [h]
      | sym hnot => exact absurd hnumeric hnot
  · rw [if_neg (fun h => hnumeric (Text.looksNumeric_iff.mp h))]
    split
    · -- a colon alone
      rename_i hcolon
      constructor
      · intro h
        cases h
      · intro h
        cases h with
        | int h => exact absurd h hnumeric
        | keyword h hne =>
          subst h
          simp at hcolon
          exact absurd hcolon hne
        | sym _ hhead => simp [hcolon] at hhead
    · rename_i name hne hcolon
      have htext : text = ":" ++ String.ofList name := by
        apply String.toList_injective
        simp [hcolon]
      constructor
      · intro h
        cases h
        refine .keyword htext ?_
        intro hempty
        exact hne (by simpa using hempty)
      · intro h
        cases h with
        | int h => exact absurd h hnumeric
        | keyword h hne' =>
          subst h
          simp at hcolon
          simp [← hcolon]
        | sym _ hhead => simp [hcolon] at hhead
    · rename_i hone hmany
      have hhead : text.toList.head? ≠ some ':' := by
        intro h
        obtain ⟨rest, hrest⟩ := List.head?_eq_some_iff.mp h
        exact hmany rest hrest
      constructor
      · intro h
        split at h
        · cases h
        · rename_i hlast
          cases h
          refine .sym hnumeric hhead (Symbol.spelled_iff.mpr ⟨rfl, fun hslash => ?_⟩)
          simpa [hslash] using hlast
      · intro h
        cases h with
        | int h => exact absurd h hnumeric
        | keyword h =>
          subst h
          simp at hhead
        | sym _ _ h =>
          obtain ⟨rfl, hlast⟩ := Symbol.spelled_iff.mp h
          rw [if_neg]
          simpa using hlast

/-! ## Tokens that write forms -/

mutual

/-- The tokens write the form, which has the line of the first of them. -/
inductive Writes : List Token → Form → Prop where
  | atom {t : Token} {f : Form} (hkind : t.kind = .atom) (h : AtomForm t.text t.line f) :
    Writes [t] f
  | quote {t : Token} {ts : List Token} {f : Form} (hkind : t.kind = .quote) (h : Writes ts f) :
    Writes (t :: ts) (quoteForm t.line f)
  | list {t t' : Token} {ts : List Token} {items : List Form} (hopen : t.kind = .openParen)
    (h : WritesAll ts items) (hclose : t'.kind = .closeParen) :
    Writes (t :: (ts ++ [t'])) (.list items t.line)
  | vector {t t' : Token} {ts : List Token} {items : List Form} (hopen : t.kind = .openBracket)
    (h : WritesAll ts items) (hclose : t'.kind = .closeBracket) :
    Writes (t :: (ts ++ [t'])) (.vector items t.line)

/-- The tokens write the forms one after the other. -/
inductive WritesAll : List Token → List Form → Prop where
  | nil : WritesAll [] []
  | cons {ts us : List Token} {f : Form} {fs : List Form} (h : Writes ts f)
    (hrest : WritesAll us fs) : WritesAll (ts ++ us) (f :: fs)

end

theorem AtomForm.line_eq {text : String} (h : AtomForm text line f) : f.line = line := by
  cases h <;> rfl

theorem Writes.line_eq (h : Writes ts f) : ts.head?.map Token.line = some f.line := by
  cases h with
  | atom _ h => exact congrArg some h.line_eq.symm
  | quote | list | vector => rfl

theorem WritesAll.append {ts us : List Token} {fs gs : List Form} (hts : WritesAll ts fs)
    (hus : WritesAll us gs) : WritesAll (ts ++ us) (fs ++ gs) := by
  cases hts with
  | nil => exact hus
  | cons h hrest =>
    rw [List.append_assoc]
    exact .cons h (WritesAll.append hrest hus)

theorem Writes.writesAll (h : Writes ts f) : WritesAll ts [f] := by
  simpa using WritesAll.cons h .nil

theorem WritesAll.snoc {fs : List Form} (hts : WritesAll ts fs) (hus : Writes us f) :
    WritesAll (ts ++ us) (fs ++ [f]) := hts.append hus.writesAll

/-! ## Tokens that write forms are read as these -/

/-- The forms are placed one after the other. -/
def placeAll (s : State) (fs : List Form) : State :=
  fs.foldl (fun s f => place s.finished s.opened f) s

theorem placeAll_list (items fs : List Form) :
    placeAll ⟨.list items line :: opened, finished⟩ fs =
      ⟨.list (fs.reverse ++ items) line :: opened, finished⟩ := by
  induction fs generalizing items with
  | nil => rfl
  | cons f fs ih =>
    rw [List.reverse_cons, List.append_assoc]
    exact ih (f :: items)

theorem placeAll_vector (items fs : List Form) :
    placeAll ⟨.vector items line :: opened, finished⟩ fs =
      ⟨.vector (fs.reverse ++ items) line :: opened, finished⟩ := by
  induction fs generalizing items with
  | nil => rfl
  | cons f fs ih =>
    rw [List.reverse_cons, List.append_assoc]
    exact ih (f :: items)

theorem placeAll_nil (fs : List Form) :
    placeAll ⟨[], finished⟩ fs = ⟨[], fs.reverse ++ finished⟩ := by
  induction fs generalizing finished with
  | nil => rfl
  | cons f fs ih =>
    rw [List.reverse_cons, List.append_assoc]
    exact ih

theorem run_cons {rest : List Token} (h : step s t = .ok s') :
    run last s (t :: rest) = run t.line s' rest := by
  rw [run, h]
  rfl

mutual

/-- Tokens that write a form put it where the stack asks for one. -/
theorem run_writes {ts : List Token} {f : Form} (h : Writes ts f) (last : Nat) (s : State)
    (rest : List Token) :
    ∃ last', run last s (ts ++ rest) = run last' (place s.finished s.opened f) rest := by
  cases h with
  | @atom t _ hkind h =>
    refine ⟨t.line, run_cons ?_⟩
    rw [step]
    simp only [hkind, atom_eq_ok_iff.mpr h]
    rfl
  | @quote t ts g hkind h =>
    have hstep : step s t = .ok ⟨.quote t.line :: s.opened, s.finished⟩ := by
      rw [step]
      simp only [hkind]
    obtain ⟨last', hrun⟩ := run_writes h t.line ⟨.quote t.line :: s.opened, s.finished⟩ rest
    refine ⟨last', ?_⟩
    rw [List.cons_append, run_cons hstep, hrun]
    rfl
  | @list t t' ts items hopen h hclose =>
    have hstep : step s t = .ok ⟨.list [] t.line :: s.opened, s.finished⟩ := by
      rw [step]
      simp only [hopen]
    obtain ⟨last', hrun⟩ :=
      run_writesAll h t.line ⟨.list [] t.line :: s.opened, s.finished⟩ (t' :: rest)
    refine ⟨t'.line, ?_⟩
    rw [List.cons_append, List.append_assoc, List.singleton_append, run_cons hstep, hrun,
      placeAll_list]
    refine run_cons ?_
    rw [step]
    simp only [hclose, List.append_nil, List.reverse_reverse]
  | @vector t t' ts items hopen h hclose =>
    have hstep : step s t = .ok ⟨.vector [] t.line :: s.opened, s.finished⟩ := by
      rw [step]
      simp only [hopen]
    obtain ⟨last', hrun⟩ :=
      run_writesAll h t.line ⟨.vector [] t.line :: s.opened, s.finished⟩ (t' :: rest)
    refine ⟨t'.line, ?_⟩
    rw [List.cons_append, List.append_assoc, List.singleton_append, run_cons hstep, hrun,
      placeAll_vector]
    refine run_cons ?_
    rw [step]
    simp only [hclose, List.append_nil, List.reverse_reverse]

theorem run_writesAll {ts : List Token} {items : List Form} (h : WritesAll ts items) (last : Nat)
    (s : State) (rest : List Token) :
    ∃ last', run last s (ts ++ rest) = run last' (placeAll s items) rest := by
  cases h with
  | nil => exact ⟨last, rfl⟩
  | @cons ts us f fs h hrest =>
    obtain ⟨last₁, hrun₁⟩ := run_writes h last s (us ++ rest)
    obtain ⟨last₂, hrun₂⟩ := run_writesAll hrest last₁ (place s.finished s.opened f) rest
    refine ⟨last₂, ?_⟩
    rw [List.append_assoc, hrun₁, hrun₂]
    rfl

end

theorem forms_of_writesAll (h : WritesAll ts items) : forms ts = .ok items := by
  obtain ⟨last', hrun⟩ := run_writesAll h 1 {} []
  rw [List.append_nil, placeAll_nil] at hrun
  rw [forms, hrun, run]
  simp

/-! ## What is read is written -/

/-- What the stack of open forms and the finished ones say of the tokens before: the finished forms
come first, and each open form began where the items of the one around it end. -/
inductive Begun : List Token → List Opened → List Form → Prop where
  | base {ts : List Token} {fs : List Form} (h : WritesAll ts fs) : Begun ts [] fs.reverse
  | list {ts us : List Token} {t : Token} {opened : List Opened} {finished items : List Form}
    (h : Begun ts opened finished) (hopen : t.kind = .openParen) (hitems : WritesAll us items) :
    Begun (ts ++ t :: us) (.list items.reverse t.line :: opened) finished
  | vector {ts us : List Token} {t : Token} {opened : List Opened} {finished items : List Form}
    (h : Begun ts opened finished) (hopen : t.kind = .openBracket) (hitems : WritesAll us items) :
    Begun (ts ++ t :: us) (.vector items.reverse t.line :: opened) finished
  | quote {ts : List Token} {t : Token} {opened : List Opened} {finished : List Form}
    (h : Begun ts opened finished) (hkind : t.kind = .quote) :
    Begun (ts ++ [t]) (.quote t.line :: opened) finished

theorem place_begun (h : Begun ts opened finished) (hf : Writes us f) :
    Begun (ts ++ us) (place finished opened f).opened (place finished opened f).finished := by
  induction h generalizing us f with
  | @base ts fs h => simpa [place] using Begun.base (h.snoc hf)
  | @list ts vs t opened finished items h hopen hitems =>
    simpa [place] using Begun.list h hopen (hitems.snoc hf)
  | @vector ts vs t opened finished items h hopen hitems =>
    simpa [place] using Begun.vector h hopen (hitems.snoc hf)
  | @quote ts t opened finished h hkind ih =>
    -- the quote mark waited for just this form
    simpa [place] using ih (.quote hkind hf)

theorem step_begun (h : step s t = .ok s') (hs : Begun ts s.opened s.finished) :
    Begun (ts ++ [t]) s'.opened s'.finished := by
  obtain ⟨opened, finished⟩ := s
  unfold step at h
  split at h
  · rename_i hopen
    cases h
    exact .list hs hopen .nil
  · rename_i hopen
    cases h
    exact .vector hs hopen .nil
  · rename_i hkind
    cases h
    exact .quote hs hkind
  · -- the closing token completes the innermost form, which began where the tokens before it end
    rename_i items line outer hclose hopened
    cases h
    dsimp only at hopened hs
    subst hopened
    cases hs with
    | list hbefore hopen hitems =>
      rw [List.reverse_reverse, List.append_assoc]
      exact place_begun hbefore (.list hopen hitems hclose)
  · rename_i items line outer hclose hopened
    cases h
    dsimp only at hopened hs
    subst hopened
    cases hs with
    | vector hbefore hopen hitems =>
      rw [List.reverse_reverse, List.append_assoc]
      exact place_begun hbefore (.vector hopen hitems hclose)
  · cases h
  · cases h
  · rename_i hkind
    obtain ⟨f, hatom, heq⟩ := Token.map_eq_ok h
    rw [← heq]
    exact place_begun hs (.atom hkind (atom_eq_ok_iff.mp hatom))

theorem run_begun {forms : List Form} (h : run last s us = .ok forms)
    (hs : Begun ts s.opened s.finished) : WritesAll (ts ++ us) forms := by
  induction us generalizing ts last s with
  | nil =>
    obtain ⟨opened, finished⟩ := s
    unfold run at h
    split at h
    · rename_i hopened
      cases h
      dsimp only at hopened hs
      subst hopened
      cases hs with
      | base h => rwa [List.append_nil, List.reverse_reverse]
    · cases h
    · cases h
    · cases h
  | cons t us ih =>
    obtain ⟨s', hstep, hrun⟩ := Except.bind_eq_ok h
    rw [List.append_cons]
    exact ih hrun (step_begun hstep hs)

theorem forms_eq_ok_iff : forms ts = .ok items ↔ WritesAll ts items :=
  ⟨fun h => run_begun h (.base .nil), forms_of_writesAll⟩

/-- Tokens write no two different forms. -/
theorem Writes.unique {g : Form} (hf : Writes ts f) (hg : Writes ts g) : f = g := by
  have heq := (forms_of_writesAll hf.writesAll).symm.trans (forms_of_writesAll hg.writesAll)
  cases heq
  rfl

end Reader

namespace Form

open Reader (Writes WritesAll)

theorem readAll_of_scan {src : String} {tokens : List Token} (h : Token.scan src = .ok tokens) :
    readAll src = (Reader.forms tokens).mapError fun e => Failure.unreadable e.message := by
  rw [readAll, Reader.read, h]

theorem readAll_eq_ok_iff {src : String} {tokens : List Token} {forms : List Form}
    (h : Token.scan src = .ok tokens) : readAll src = .ok forms ↔ WritesAll tokens forms := by
  rw [readAll_of_scan h, ← Reader.forms_eq_ok_iff]
  cases Reader.forms tokens with
  | error e => exact ⟨fun h => (nomatch h), fun h => (nomatch h)⟩
  | ok fs => exact ⟨fun h => by cases h; rfl, fun h => by cases h; rfl⟩

/-- A source is read as the text is that its bytes are read as. -/
theorem readBytes_eq {src : List UInt8} {text : String} (h : Text.Reads src text.toList) :
    readBytes src = readAll text := by
  have htext : Text.ofBytes src = text := String.toList_injective (Text.reads_iff.mp h)
  rw [readBytes, htext]

/-- The forms of a source are those that its tokens write, whatever its bytes are. -/
theorem readBytes_eq_ok_iff (src : List UInt8) (forms : List Form) :
    readBytes src = .ok forms ↔
      ∃ tokens, Token.scanBytes src = .ok tokens ∧ WritesAll tokens forms := by
  constructor
  · intro h
    cases hscan : Token.scanBytes src with
    | error e =>
      have hnone : Token.scan (Text.ofBytes src) = .error e := hscan
      rw [readBytes, readAll, Reader.read, hnone] at h
      cases h
    | ok tokens => exact ⟨tokens, rfl, (readAll_eq_ok_iff hscan).mp h⟩
  · rintro ⟨tokens, hscan, hwrites⟩
    exact (readAll_eq_ok_iff hscan).mpr hwrites

/-- A text with no double quote outside of its comments has tokens. If they write forms, exactly these
are read, there are no others, and every form has the line of its first token; if they do not, the
text is unreadable. -/
theorem readAll_iff_writesAll {src : String} (h : '"' ∉ Token.uncommented src.toList) :
    ∃ tokens, Token.scan src = .ok tokens ∧
      (∀ forms, readAll src = .ok forms ↔ WritesAll tokens forms) ∧
      (∀ forms forms', WritesAll tokens forms → WritesAll tokens forms' → forms = forms') ∧
      (∀ ts f, Writes ts f → ts.head?.map Token.line = some f.line) ∧
      ((¬ ∃ forms, WritesAll tokens forms) →
        ∃ detail, readAll src = .error (Failure.unreadable detail)) := by
  obtain ⟨tokens, hscan⟩ := Token.scan_isOk_iff.mpr h
  have hread : ∀ forms, readAll src = .ok forms ↔ WritesAll tokens forms := fun _ =>
    readAll_eq_ok_iff hscan
  refine ⟨tokens, hscan, hread, ?_, fun _ _ => Writes.line_eq, ?_⟩
  · intro forms forms' hforms hforms'
    have heq := ((hread forms).mpr hforms).symm.trans ((hread forms').mpr hforms')
    cases heq
    rfl
  · intro hnone
    rw [readAll_of_scan hscan]
    cases hforms : Reader.forms tokens with
    | ok forms => exact absurd ⟨forms, Reader.forms_eq_ok_iff.mp hforms⟩ hnone
    | error e => exact ⟨e.message, rfl⟩

/-- Double quotes in comments do not count, and items have lines of their own. -/
theorem writesAll_nested : ∃ tokens, Token.scan "; \"f\"\n(f '[x\n0x10] :k)" = .ok tokens ∧
    WritesAll tokens [.list [.sym { name := "f" } 2,
      Reader.quoteForm 2 (.vector [.sym { name := "x" } 2, .int 16 3] 2), .keyword "k" 3] 2] := by
  have hquote : '"' ∉ Token.uncommented "; \"f\"\n(f '[x\n0x10] :k)".toList := by decide +kernel
  obtain ⟨tokens, hscan, hread, -⟩ := readAll_iff_writesAll hquote
  exact ⟨tokens, hscan, (hread _).mp (by cbv)⟩

end Form

end WasmLisp
