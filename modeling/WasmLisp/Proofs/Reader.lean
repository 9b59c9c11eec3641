import Mathlib
import WasmLisp.Proofs.Analysis

/-!
# Symbols of read forms

A symbol that is read without a namespace is not the qualified name of anything: its text was not
split at a slash, so there is none or there is nothing before it (`readAll_simple`).
-/

namespace WasmLisp

/-- The symbol is qualified, or its name is not one that qualification gives. -/
def Symbol.Simple (s : Symbol) : Prop :=
  s.ns = "" → ∀ ns name : String, ns ≠ "" → '/' ∉ ns.toList → s.name ≠ Symbol.qualify ns name

namespace Symbol

theorem cutSlash_append {before : List Char} (h : '/' ∉ before) (after : List Char) :
    cutSlash (before ++ '/' :: after) = some (before, after) := by
  induction before with
  | nil => rfl
  | cons c before ih =>
    rw [List.mem_cons, not_or] at h
    simp [cutSlash, Ne.symm h.1, ih h.2]

theorem cut?_qualify {ns : String} (h : '/' ∉ ns.toList) (name : String) :
    cut? (qualify ns name) = some (ns, name) := by
  have hl : (qualify ns name).toList = ns.toList ++ '/' :: name.toList := by
    simp [qualify]
  rw [cut?, hl, cutSlash_append h]
  simp

theorem ofText_simple {text : String} (h : text.toList.getLast? = some '/' → text = "/") :
    (ofText text).Simple := by
  intro hns ns name hne hslash heq
  have htext : (ofText text).name = text := by
    unfold ofText at hns ⊢
    split
    · rename_i ns' name' hcut
      rw [hcut] at hns
      dsimp only at hns
      split
      · rfl
      · rename_i hcond
        rw [if_neg hcond] at hns
        simp [show ns' = "" from hns] at hcond
    · rfl
  rw [htext] at heq
  have hcut := cut?_qualify hslash name
  rw [← heq] at hcut
  by_cases hname : name = ""
  · subst hname
    have hlast : text.toList.getLast? = some '/' := by simp [heq, qualify]
    have hone := h hlast
    rw [heq] at hone
    have hlen := congrArg (fun s : String => s.toList.length) hone
    simp [qualify] at hlen
    exact hne hlen
  · simp only [ofText, hcut, hne, hname, decide_false, Bool.or_self, Bool.false_eq_true,
      if_false] at hns

end Symbol

namespace Form

theorem eachSymbol_iff {Q : Symbol → Prop} {fs : List Form} :
    EachSymbol Q fs ↔ ∀ f ∈ fs, f.AllSymbols Q := by
  induction fs with
  | nil => simp [EachSymbol]
  | cons f fs ih => simp [EachSymbol, ih]

end Form

namespace Reader

theorem atom_simple {text : String} {line : Nat} {f : Form} (h : atom text line = .ok f) :
    f.AllSymbols Symbol.Simple := by
  unfold atom at h
  split at h
  · split at h <;> cases h
    trivial
  · split at h
    · cases h
    · cases h
      trivial
    · split at h
      · cases h
      · rename_i hlast
        cases h
        refine Symbol.ofText_simple fun hslash => ?_
        simpa [hslash] using hlast

/-- The forms that an open form holds. -/
def Opened.items : Opened → List Form
  | .list items _ => items
  | .vector items _ => items
  | .quote _ => []

/-- The symbols of all forms of the state are simple. -/
structure State.Simple (s : State) : Prop where
  opened : ∀ o ∈ s.opened, ∀ f ∈ o.items, f.AllSymbols Symbol.Simple
  finished : ∀ f ∈ s.finished, f.AllSymbols Symbol.Simple

theorem quoteForm_simple {line : Nat} {f : Form} (h : f.AllSymbols Symbol.Simple) :
    (quoteForm line f).AllSymbols Symbol.Simple := by
  refine ⟨fun _ ns name _ _ heq => ?_, h, trivial⟩
  have hin : '/' ∈ (Symbol.qualify ns name).toList := by simp [Symbol.qualify]
  rw [← heq] at hin
  revert hin
  decide

theorem place_simple {finished : List Form} {opened : List Opened} {f : Form}
    (hs : State.Simple ⟨opened, finished⟩) (hf : f.AllSymbols Symbol.Simple) :
    (place finished opened f).Simple := by
  induction opened generalizing f with
  | nil => exact ⟨hs.opened, List.forall_mem_cons.2 ⟨hf, hs.finished⟩⟩
  | cons o outer ih =>
    obtain ⟨ho, houter⟩ := List.forall_mem_cons.1 hs.opened
    cases o with
    | list items line =>
      exact ⟨List.forall_mem_cons.2 ⟨List.forall_mem_cons.2 ⟨hf, ho⟩, houter⟩, hs.finished⟩
    | vector items line =>
      exact ⟨List.forall_mem_cons.2 ⟨List.forall_mem_cons.2 ⟨hf, ho⟩, houter⟩, hs.finished⟩
    | quote line => exact ih ⟨houter, hs.finished⟩ (quoteForm_simple hf)

theorem step_simple {s s' : State} {t : Token} (hs : s.Simple) (h : step s t = .ok s') :
    s'.Simple := by
  obtain ⟨opened, finished⟩ := s
  -- an opening token opens a form without items; a closing one places those of the innermost form
  have hopen : ∀ o : Opened, o.items = [] → State.Simple ⟨o :: opened, finished⟩ := by
    intro o ho
    refine ⟨List.forall_mem_cons.2 ⟨?_, hs.opened⟩, hs.finished⟩
    simp [ho]
  unfold step at h
  split at h
  · cases h
    exact hopen _ rfl
  · cases h
    exact hopen _ rfl
  · cases h
    exact hopen _ rfl
  · rename_i items line outer hopened
    cases h
    dsimp only at hopened
    subst hopened
    obtain ⟨hitems, houter⟩ := List.forall_mem_cons.1 hs.opened
    refine place_simple ⟨houter, hs.finished⟩ (Form.eachSymbol_iff.2 fun f hf => ?_)
    exact hitems f (List.mem_reverse.1 hf)
  · rename_i items line outer hopened
    cases h
    dsimp only at hopened
    subst hopened
    obtain ⟨hitems, houter⟩ := List.forall_mem_cons.1 hs.opened
    refine place_simple ⟨houter, hs.finished⟩ (Form.eachSymbol_iff.2 fun f hf => ?_)
    exact hitems f (List.mem_reverse.1 hf)
  · cases h
  · cases h
  · cases ha : atom t.text t.line with
    | error e =>
      rw [ha] at h
      cases h
    | ok f =>
      rw [ha] at h
      cases h
      exact place_simple hs (atom_simple ha)

theorem run_simple {ts : List Token} {last : Nat} {s : State} {forms : List Form} (hs : s.Simple)
    (h : run last s ts = .ok forms) : ∀ f ∈ forms, f.AllSymbols Symbol.Simple := by
  induction ts generalizing last s with
  | nil =>
    unfold run at h
    split at h <;> cases h
    exact fun f hf => hs.finished f (List.mem_reverse.1 hf)
  | cons t ts ih =>
    unfold run at h
    cases hstep : step s t with
    | error e =>
      rw [hstep] at h
      cases h
    | ok s' =>
      rw [hstep] at h
      exact ih (step_simple hs hstep) h

end Reader

/-- Every symbol that is read is qualified or has a name that qualification does not give. -/
theorem Form.readAll_simple {src : String} {forms : List Form} (h : readAll src = .ok forms) :
    ∀ f ∈ forms, f.AllSymbols Symbol.Simple := by
  unfold readAll Reader.read at h
  cases hscan : Token.scan src with
  | error e =>
    rw [hscan] at h
    cases h
  | ok tokens =>
    rw [hscan] at h
    dsimp only at h
    cases hrun : Reader.forms tokens with
    | error e =>
      rw [hrun] at h
      cases h
    | ok fs =>
      rw [hrun] at h
      cases h
      exact Reader.run_simple ⟨by simp, by simp⟩ hrun

end WasmLisp
