import Mathlib
import WasmLisp.Proofs.Lisp.Aligned
import WasmLisp.Proofs.Codegen.Linked
import WasmLisp.Proofs.Reader.Printed

/-!
# Qualified names

The compile side joins the namespace and the name of a var with a slash, and the execution side cuts the
joined name at its first slash. A symbol that is read without a namespace has no slash, or begins with
one; so has the namespace and so has the name of every var, and the two sides mean the same var unless
its namespace begins with a slash.

* `Symbol.Written`: the symbols that are read, and `Session.Sourced.written`: vars of a session have such
  names, whatever sources it has been given;
* `Engine.Recovered`: the execution side does with a joined name what is meant for the var;
* `Session.Sourced.recovered_iff`: when that is so, and when two vars share a name.
-/

namespace WasmLisp

open Token (IsWord)
open Node (definitions)

/-! ## Symbols -/

namespace Symbol

/-- Some word writes the symbol. -/
def Written (s : Symbol) : Prop := ∃ text, IsWord text ∧ Spelled text s

/-- The text begins with a slash. -/
def Slashed (text : String) : Prop := text.toList.head? = some '/'

variable {x ns name ns' name' : String}

theorem Written.ne_empty (h : Written { name := x }) : x ≠ "" := by
  obtain ⟨text, hword, h⟩ := h
  cases h with
  | bare => exact hword.ne_empty
  | qualified hns => exact absurd rfl hns

/-- A bare name has a slash just if it begins with one. -/
theorem Written.slash_mem_iff (h : Written { name := x }) : '/' ∈ x.toList ↔ Slashed x := by
  obtain ⟨text, -, h⟩ := h
  cases h with
  | bare hslash hend => exact ⟨hslash, List.mem_of_mem_head?⟩
  | qualified hns => exact absurd rfl hns

/-- A word without a slash is a name. -/
theorem written_of_plain (hword : IsWord x) (h : '/' ∉ x.toList) : Written { name := x } :=
  ⟨x, hword, .bare (fun hmem => absurd hmem h) fun hlast => absurd (List.mem_of_getLast? hlast) h⟩

/-- A joined name begins with a slash if the namespace does. -/
theorem slashed_qualify_iff (h : ns ≠ "") : Slashed (qualify ns name) ↔ Slashed ns := by
  obtain ⟨c, cs, hcs⟩ := List.exists_cons_of_ne_nil fun hnil => h (String.toList_eq_nil_iff.mp hnil)
  rw [Slashed, Slashed, toList_qualify, hcs]
  rfl

/-- A namespace that begins with a slash is cut off before it. -/
theorem partsOf_of_slashed (h : Slashed ns) (name : String) : ∃ rest, ns = "/" ++ rest ∧
    HostFn.partsOf (qualify ns name) = ("", qualify rest name) := by
  obtain ⟨cs, hcs⟩ : ∃ cs, ns.toList = '/' :: cs := by
    cases hns : ns.toList with
    | nil => simp [Slashed, hns] at h
    | cons c cs =>
      rw [Slashed, hns] at h
      cases h
      exact ⟨cs, rfl⟩
  have hns : ns = "/" ++ String.ofList cs := String.toList_injective (by simp [hcs])
  have hjoined : qualify ns name = qualify "" (qualify (String.ofList cs) name) := by
    rw [hns]
    exact String.toList_injective (by simp [qualify])
  refine ⟨String.ofList cs, hns, ?_⟩
  rw [HostFn.partsOf, hjoined, cut?_qualify List.not_mem_nil]
  rfl

end Symbol

namespace Form

variable {f : Form} {Q : Symbol → Prop} {src : String} {forms : List Form} {x : String}

/-- The symbols of a readable form are written. -/
theorem Readable.allSymbols (h : f.Readable) : f.AllSymbols Symbol.Written := by
  induction h with
  | @leaf f hword htokens h =>
    cases f with
    | sym s line =>
      obtain _ | _ | ⟨-, -, hspelled⟩ := h 0
      exact ⟨_, hword, hspelled⟩
    | list items line => nomatch h 0
    | vector items line => nomatch h 0
    | _ => trivial
  | list h ih => exact eachSymbol_iff.mpr ih
  | vector h ih => exact eachSymbol_iff.mpr ih

theorem written_of_readAll (h : readAll src = .ok forms) : ∀ f ∈ forms, f.AllSymbols Symbol.Written :=
  fun f hf => (readable_of_readAll h f hf).allSymbols

theorem allSymbols_unquote (h : f.AllSymbols Q) : f.unquote.AllSymbols Q := by
  fun_induction unquote f with
  | case1 s l x n hquote ih => exact ih h.2.1
  | case2 => exact h
  | case3 => exact h

end Form

/-! ## Environment forms -/

namespace EnvForm

variable {Q : Symbol → Prop} {env : Env} {current head x : String} {f : Form} {args : List Form}
  {es : List Effect}

/-- A name in an environment form is one of its symbols. -/
theorem name_symbol (h : name f = .ok x) (hf : f.AllSymbols Q) : Q { name := x } := by
  have hunquote := Form.allSymbols_unquote hf
  unfold name at h
  split at h
  · rename_i s line heq
    rw [heq] at hunquote
    split at h
    · rename_i hns
      cases h
      obtain ⟨ns, name⟩ := s
      cases hns
      exact hunquote
    · cases h
  · cases h

/-- No effect goes to another namespace. -/
def Stays (es : List Effect) : Prop := ∀ e ∈ es, e.kind ≠ .switchNs

theorem Stays.nil : Stays [] := List.forall_mem_nil _

theorem Stays.cons {e : Effect} (he : e.kind ≠ .switchNs) (h : Stays es) : Stays (e :: es) :=
  List.forall_mem_cons.mpr ⟨he, h⟩

theorem Stays.append {es' : List Effect} (h : Stays es) (h' : Stays es') : Stays (es ++ es') :=
  List.forall_mem_append.mpr ⟨h, h'⟩

theorem Stays.mapM {g : Form → Except Fault (List Effect)} {ess : List (List Effect)}
    (hg : ∀ {f es}, g f = .ok es → Stays es) (h : args.mapM g = .ok ess) : Stays ess.flatten := by
  have hall := mapM_eq_ok h
  clear h
  induction hall with
  | nil => exact .nil
  | cons hes hrest ih => exact (hg hes).append ih

theorem stays_referring (current target : String) (names : List String) :
    Stays (referring current target names) := by
  intro e he
  obtain ⟨x, -, rfl⟩ := List.mem_map.mp he
  exact (by decide : EffectKind.refer ≠ .switchNs)

theorem stays_referAll {target : String} {skip : List String}
    (h : referAll env current target skip = .ok es) : Stays es := by
  unfold referAll at h
  split at h
  · cases h
  · cases h
    exact stays_referring _ _ _

theorem stays_referNames {target : String} (h : referNames env current target f = .ok es) :
    Stays es := by
  unfold referNames at h
  split at h
  · exact stays_referAll h
  · obtain ⟨_, -, h⟩ := Except.bind_eq_ok h
    cases h
    exact stays_referring _ _ _

theorem stays_refer {target : String} (h : refer env current target args = .ok es) : Stays es := by
  unfold refer at h
  split at h
  · exact stays_referAll h
  · exact stays_referNames h
  · obtain ⟨_, -, h⟩ := Except.bind_eq_ok h
    exact stays_referAll h
  all_goals cases h

theorem stays_options {lib : String} (h : options env current lib args = .ok es) : Stays es := by
  fun_induction options env current lib args generalizing es with
  | case1 line value rest ih =>
    obtain ⟨nickname, -, h⟩ := Except.bind_eq_ok h
    obtain ⟨more, hmore, h⟩ := Except.bind_eq_ok h
    cases h
    exact .cons (show EffectKind.nickname ≠ .switchNs by decide) (ih hmore)
  | case2 line value rest ih =>
    obtain ⟨effects, heffects, h⟩ := Except.bind_eq_ok h
    obtain ⟨more, hmore, h⟩ := Except.bind_eq_ok h
    cases h
    exact .append (stays_referNames heffects) (ih hmore)
  | case3 => cases h
  | case4 => cases h
  | case5 =>
    cases h
    exact .nil

theorem stays_library (h : library env current f = .ok es) : Stays es := by
  unfold library at h
  split at h
  · split at h
    · cases h
      exact .cons (show EffectKind.require ≠ .switchNs by decide) .nil
    · cases h
  · cases h
  · obtain ⟨lib, -, h⟩ := Except.bind_eq_ok h
    split at h
    · cases h
    · obtain ⟨effects, heffects, h⟩ := Except.bind_eq_ok h
      cases h
      exact .cons (show EffectKind.require ≠ .switchNs by decide) (stays_options heffects)
  · cases h

theorem stays_libraries (h : libraries env current args = .ok es) : Stays es := by
  unfold libraries at h
  obtain ⟨ess, hess, h⟩ := Except.bind_eq_ok h
  cases h
  exact .mapM stays_library hess

theorem stays_clause (h : clause env current f = .ok es) : Stays es := by
  unfold clause at h
  split at h
  · exact stays_libraries h
  · cases h
  · obtain ⟨target, -, h⟩ := Except.bind_eq_ok h
    exact stays_refer h
  · cases h
    exact .nil
  · cases h

/-- An environment form goes to a namespace that one of its symbols names. -/
theorem effectsOf_symbol (h : effectsOf env current head args = .ok es)
    (hargs : Form.EachSymbol Q args) : ∀ e ∈ es, e.kind = .switchNs → Q { name := e.ns } := by
  have hstays : Stays es → ∀ e ∈ es, e.kind = .switchNs → Q { name := e.ns } :=
    fun h e he hkind => absurd hkind (h e he)
  unfold effectsOf at h
  split at h
  · cases h
  · obtain ⟨ns, hns, h⟩ := Except.bind_eq_ok h
    obtain ⟨ess, hess, h⟩ := Except.bind_eq_ok h
    cases h
    have hclauses : Stays ess.flatten := .mapM stays_clause hess
    refine List.forall_mem_cons.mpr ⟨fun _ => name_symbol hns hargs.1, ?_⟩
    exact fun e he hkind => absurd hkind (hclauses e he)
  · obtain ⟨ns, hns, h⟩ := Except.bind_eq_ok h
    cases h
    exact List.forall_mem_singleton.mpr fun _ => name_symbol hns hargs.1
  · cases h
  · obtain ⟨nickname, -, h⟩ := Except.bind_eq_ok h
    obtain ⟨target, -, h⟩ := Except.bind_eq_ok h
    cases h
    exact hstays (.cons (show EffectKind.nickname ≠ .switchNs by decide) .nil)
  · cases h
  · cases h
  · exact hstays (stays_libraries h)
  · cases h
  · obtain ⟨target, -, h⟩ := Except.bind_eq_ok h
    exact hstays (stays_refer h)
  · cases h

/-- So does an environment form in a frame. -/
theorem effects_symbol {frame : Frame} (h : effects frame f = .ok es) (hf : f.AllSymbols Q) :
    ∀ e ∈ es, e.kind = .switchNs → Q { name := e.ns } := by
  unfold effects at h
  split at h
  · split at h
    · cases heffects : effectsOf frame.env frame.ns _ _ with
      | error fault =>
        rw [heffects] at h
        cases h
      | ok es' =>
        rw [heffects] at h
        cases h
        exact effectsOf_symbol heffects hf.2
    · cases h
  · cases h

end EnvForm

/-! ## Frames and sessions -/

/-- The current namespace, and the namespaces and names of all vars, are such as symbols have. -/
structure Frame.Written (f : Frame) : Prop where
  ns : Symbol.Written { name := f.ns }
  vars : ∀ q ∈ f.env.directory.vars, Symbol.Written { name := q.1 } ∧ Symbol.Written { name := q.2 }

namespace Session

variable {f f' : Frame} {form : Form} {forms : List Form} {es : List Effect} {node : Option Node}
  {u u' : CompUnit} {s s' : Session} {c c' : Compiler} {src : String}

theorem nsAfter_symbol {Q : Symbol → Prop} {ns : String} (hns : Q { name := ns })
    (h : ∀ e ∈ es, e.kind = .switchNs → Q { name := e.ns }) : Q { name := Frame.nsAfter ns es } := by
  induction es generalizing ns with
  | nil => exact hns
  | cons e es ih =>
    obtain ⟨he, hes⟩ := List.forall_mem_cons.mp h
    have hfirst : Q { name := if e.kind = .switchNs then e.ns else ns } := by
      split
      · rename_i hkind
        exact he hkind
      · exact hns
    exact ih hfirst hes

/-- A form that is taken is an environment form, or it has been analysed. -/
theorem takeForm_eq_ok (h : takeForm f form = (f', .ok (es, node))) :
    (EnvForm.effects f form = .ok es ∧ node = none) ∨
      (es = [] ∧ ∃ n, node = some n ∧ (form.analyze f.env f.ns).2 = .ok n) := by
  unfold takeForm at h
  split at h
  · unfold EnvForm.replay at h
    cases heffects : EnvForm.effects f form with
    | error e =>
      rw [heffects] at h
      cases h
    | ok effects =>
      rw [heffects] at h
      dsimp only at h
      cases happly : f.apply effects with
      | mk f₁ fault =>
        rw [happly] at h
        cases fault with
        | none =>
          cases h
          exact .inl ⟨rfl, rfl⟩
        | some fault => cases h
  · rcases hr : form.analyze f.env f.ns with ⟨env, failure | n⟩
    · rw [hr] at h
      cases h
    · rw [hr] at h
      cases h
      exact .inr ⟨rfl, n, rfl, rfl⟩

/-- What a form defines is in the namespace of the frame, under a name of one of its symbols. -/
theorem definitions_symbol {Q : Symbol → Prop} (h : takeForm f form = (f', .ok (es, node)))
    (hform : form.AllSymbols Q) {q : String × String} (hq : q ∈ definitions node.toList) :
    q.1 = f.ns ∧ Q { name := q.2 } := by
  obtain ⟨-, rfl⟩ | ⟨-, n, rfl, hn⟩ := takeForm_eq_ok h
  · simp at hq
  · obtain ⟨m, hm, hdefined⟩ := hq
    rw [Option.toList_some, Node.flattenAll_singleton] at hm
    have hsound := analyze_sound hn hform m hm
    cases m with
    | bindVar ns x init | defn ns x params body =>
      cases hdefined
      exact hsound
    | _ => cases hdefined

/-- What a form goes to is named by one of its symbols. -/
theorem switch_symbol {Q : Symbol → Prop} (h : takeForm f form = (f', .ok (es, node)))
    (hform : form.AllSymbols Q) : ∀ e ∈ es, e.kind = .switchNs → Q { name := e.ns } := by
  obtain ⟨heffects, -⟩ | ⟨rfl, -⟩ := takeForm_eq_ok h
  · exact EnvForm.effects_symbol heffects hform
  · exact nofun

/-- One form keeps names as they are written. -/
theorem takeForm_written (h : takeForm f form = (f', .ok (es, node))) (hf : f.Written)
    (hform : form.AllSymbols Symbol.Written) : f'.Written := by
  obtain ⟨hdirectory, hns, -, -⟩ := takeForm_directory h
  constructor
  · rw [hns]
    exact nsAfter_symbol hf.ns (switch_symbol h hform)
  · intro q hq
    rw [hdirectory] at hq
    obtain hq | hq := hq
    · rw [Directory.vars_effects] at hq
      exact hf.vars q hq
    · obtain ⟨hqns, hname⟩ := definitions_symbol h hform hq
      exact ⟨hqns ▸ hf.ns, hname⟩

/-- So do all forms of a unit. -/
theorem extend_written (h : extend f u forms = (f', .ok u')) (hf : f.Written)
    (hforms : ∀ form ∈ forms, form.AllSymbols Symbol.Written) : f'.Written := by
  induction forms generalizing f u with
  | nil =>
    cases h
    exact hf
  | cons form forms ih =>
    obtain ⟨hform, hrest⟩ := List.forall_mem_cons.mp hforms
    rcases ht : takeForm f form with ⟨f₁, failure | ⟨es, node⟩⟩
    · simp only [extend, ht] at h
      cases h
    · simp only [extend, ht] at h
      exact ih h (takeForm_written ht hf hform) hrest

/-- And so do forms that are compiled one by one. -/
theorem requireForms_written {stem : String} {i : Nat} {p p' : Progress}
    (h : s.requireForms stem i p forms = (p', none)) (hp : p.frame.Written)
    (hforms : ∀ form ∈ forms, form.AllSymbols Symbol.Written) : p'.frame.Written := by
  induction forms generalizing p i with
  | nil =>
    cases h
    exact hp
  | cons form forms ih =>
    obtain ⟨hform, hrest⟩ := List.forall_mem_cons.mp hforms
    have hframe := requireForm_frame s p s!"{stem}.{i}" form
    unfold requireForms at h
    split at h
    · cases h
    · rename_i p₁ hfirst
      rw [hfirst] at hframe
      refine ih h ?_ hrest
      rcases ht : takeForm p.frame form with ⟨f₁, failure | ⟨es, node⟩⟩
      · rw [requireForm_error (by rw [ht])] at hfirst
        cases hfirst
      · rw [ht] at hframe
        rw [hframe]
        exact takeForm_written ht hp hform

/-- Nothing of a request that fails is left. -/
theorem Untouched.written (h : s.Untouched s') (hs : s.frame.Written) : s'.frame.Written := by
  have hdirectory : s'.frame.env.directory = s.frame.env.directory := by
    unfold Env.directory Env.lookup? Env.find?
    rw [h.frame.env.namespaces]
  exact ⟨h.frame.ns ▸ hs.ns, hdirectory ▸ hs.vars⟩

/-- The sessions that there can be of sources: new ones, and those after requests. They can be told to
go to a namespace that a source could name. -/
inductive Sourced : Session → Prop
  | new {preamble : Option Preamble} {target : Target} {s : Session}
      (h : Session.new preamble target = .ok s) : Sourced s
  | handle {s : Session} (h : Sourced s) (c : Compiler) (r : Request)
      (hr : ∀ ns, r = .switchTo ns → ns = "" ∨ Symbol.Written { name := ns }) :
      Sourced (s.handle c r).1

theorem Sourced.reachable (h : s.Sourced) : s.Reachable := by
  induction h with
  | new h => exact .new h
  | handle _ c r _ ih => exact .handle ih c r

theorem written_core : Symbol.Written { name := Env.coreNs } := by
  refine Symbol.written_of_plain ⟨by decide, ?_⟩ (by decide)
  simp only [Env.coreNs, String.reduceToList, List.forall_mem_cons]
  exact ⟨rfl, rfl, rfl, rfl, nofun⟩

theorem written_default : Symbol.Written { name := Env.defaultNs } := by
  refine Symbol.written_of_plain ⟨by decide, ?_⟩ (by decide)
  simp only [Env.defaultNs, String.reduceToList, List.forall_mem_cons]
  exact ⟨rfl, rfl, rfl, rfl, nofun⟩

/-- The functions of a preamble have written names. -/
theorem vars_written (p : Preamble) :
    ∀ q ∈ p.vars, Symbol.Written { name := q.1 } ∧ Symbol.Written { name := q.2 } := by
  rintro _ ⟨d, hd, rfl⟩
  unfold Preamble.functions at hd
  split at hd
  · rename_i fns hload
    have hsound := Preamble.load_sound hload (fun _ hread => Form.written_of_readAll hread) d hd
    obtain ⟨hns, hname⟩ := hsound d.node (by rw [Defn.node, Node.flatten]; exact List.mem_cons_self)
    exact ⟨hns ▸ written_core, hname⟩
  · exact absurd hd List.not_mem_nil

theorem new_written {preamble : Option Preamble} {target : Target}
    (h : Session.new preamble target = .ok s) : s.frame.Written := by
  have henter : ∀ env : Env,
      (∀ q ∈ env.directory.vars, Symbol.Written { name := q.1 } ∧ Symbol.Written { name := q.2 }) →
      (Frame.enter env Env.defaultNs).Written := fun env henv =>
    ⟨written_default, by rw [Frame.enter, Env.directory_ensure]; exact henv⟩
  have hinitial : ∀ q ∈ Env.initial.directory.vars,
      Symbol.Written { name := q.1 } ∧ Symbol.Written { name := q.2 } := by
    rw [Env.directory_initial]
    exact fun q hq => absurd hq (Set.notMem_empty q)
  unfold Session.new at h
  cases preamble with
  | none =>
    cases h
    exact henter _ hinitial
  | some p =>
    obtain ⟨env, henv, h⟩ := Except.bind_eq_ok h
    cases h
    refine henter env fun q hq => ?_
    rw [Preamble.directory_declare henv] at hq
    exact hq.elim (hinitial q) (vars_written p q)

/-- A source that is compiled as one unit, whatever becomes of it. -/
theorem unit_written (hs : s.frame.Written) {module : String}
    (hok : (s.unit module src).2.isOk = true) : (s.unit module src).1.frame.Written := by
  unfold unit at hok ⊢
  cases hread : Form.readAll src with
  | error e => exact hs
  | ok forms =>
    rw [hread] at hok
    dsimp only at hok ⊢
    rcases hextend : extend s.frame { name := module, ns := s.ns, target := s.target } forms with
      ⟨frame, failure | u⟩
    · rw [hextend] at hok
      cases hok
    · exact extend_written hextend hs (Form.written_of_readAll hread)

/-- Every namespace and every name of a var is such as symbols have. -/
theorem Sourced.written (h : s.Sourced) : s.frame.Written := by
  induction h with
  | new h => exact new_written h
  | @handle s h c r hr ih =>
    obtain ⟨-, huntouched⟩ := handle_keeps h.reachable.sound c r
    cases hfailed : (s.handle c r).2.2.failed with
    | true => exact (huntouched hfailed).written ih
    | false =>
      cases r with
      | unit module src =>
        exact unit_written ih (by simpa [Session.handle, Response.failed] using hfailed)
      | compile module src =>
        rcases hcompile : s.compile c module src with ⟨s', c', failure | m⟩
        · simp only [Session.handle, hcompile, Response.failed] at hfailed
          cases hfailed
        · obtain ⟨forms, frame, u, art, hread, hextend, -, -, rfl⟩ := compile_eq_ok hcompile
          simp only [Session.handle, hcompile]
          exact extend_written hextend ih (Form.written_of_readAll hread)
      | require modulePrefix src =>
        rcases hrequire : s.require c modulePrefix src with ⟨s', c', failure | q⟩
        · simp only [Session.handle, hrequire, Response.failed] at hfailed
          cases hfailed
        · obtain ⟨forms, p, -, hread, hforms, rfl, -, -⟩ := require_eq_ok hrequire
          simp only [Session.handle, hrequire]
          exact requireForms_written hforms ih (Form.written_of_readAll hread)
      | switchTo ns =>
        show (s.switchTo ns).frame.Written
        unfold switchTo
        split
        · exact ih
        · rename_i hother
          refine ⟨(hr ns rfl).resolve_left fun hempty => hother (by simp [hempty]), ?_⟩
          rw [Frame.enter, Env.directory_ensure]
          exact ih.vars

end Session

/-! ## Joining and cutting -/

/-- The var that a node reads, binds, calls or defines. -/
def Node.var? : Node → Option (String × String)
  | .varRef ns name => some (ns, name)
  | .bindVar ns name _ => some (ns, name)
  | .invoke ns name _ => some (ns, name)
  | .defn ns name _ _ => some (ns, name)
  | _ => none

namespace Codegen

/-- The name under which a module exports what a node defines, or imports what it refers to. -/
def linkName? (n : Node) : Option String :=
  ((definition? n).map (·.defn.qualified)).or ((wantedBy? n).map (·.label.2.1))

theorem linkName?_eq {n : Node} {q : String × String} (h : n.var? = some q) :
    linkName? n = some (Symbol.qualify q.1 q.2) := by
  cases n <;> cases h <;> rfl

end Codegen

namespace Engine

/-- The execution side does with a joined name what is meant for the var: it looks it up, binds it and
publishes it in its namespace, under its name. -/
structure Recovered (q : String × String) : Prop where
  cut : Symbol.cut? (Symbol.qualify q.1 q.2) = some q
  read : ∀ e : Env, e.var? (Symbol.qualify q.1 q.2) = e.lookup? q.1 q.2
  bound : ∀ (e : Env) (x : Int64), HostFn.bindVarIn e (Symbol.qualify q.1 q.2) x =
    (e.intern q.1 q.2 .value 0).1.setValue (e.intern q.1 q.2 .value 0).2 x
  published : ∀ (e : Engine) (module : String) (arity : Int),
    (e.publish module [(Symbol.qualify q.1 q.2, arity)] []).env = (e.env.intern q.1 q.2 .fn arity).1

/-- A joined name can be cut again just if the namespace has no slash. -/
theorem recovered_iff_notMem (q : String × String) : Recovered q ↔ '/' ∉ q.1.toList := by
  constructor
  · intro h
    exact (Symbol.cut?_eq_some h.cut).2
  · intro h
    have hcut := Symbol.cut?_qualify h q.2
    refine ⟨hcut, fun e => ?_, fun e x => ?_, fun e module arity => ?_⟩
    · rw [Env.var?, hcut]
      rfl
    · rw [HostFn.bindVarIn, HostFn.partsOf, hcut]
      rfl
    · rw [publish, List.foldl_cons, List.foldl_nil]
      dsimp only
      rw [hcut]

end Engine

namespace Session

variable {s : Session} {q : String × String}

/-- In a session that has been given sources, the execution side recovers a var from its joined name just
if its namespace does not begin with a slash; otherwise it takes the var for one of the namespace without
a name. Two vars share a joined name, or are imported or exported under the same name, only if the
namespaces of both begin with a slash. -/
theorem Sourced.recovered_iff (h : s.Sourced) (hq : q ∈ s.frame.env.directory.vars) :
    (Engine.Recovered q ↔ ¬ Symbol.Slashed q.1) ∧
    (Symbol.Slashed q.1 → ∃ rest, q.1 = "/" ++ rest ∧
      HostFn.partsOf (Symbol.qualify q.1 q.2) = ("", Symbol.qualify rest q.2)) ∧
    (∀ q' ∈ s.frame.env.directory.vars, Symbol.qualify q.1 q.2 = Symbol.qualify q'.1 q'.2 →
      q = q' ∨ Symbol.Slashed q.1 ∧ Symbol.Slashed q'.1) ∧
    ∀ q' ∈ s.frame.env.directory.vars, ∀ n n', n.var? = some q → n'.var? = some q' →
      Codegen.linkName? n = Codegen.linkName? n' →
        q = q' ∨ Symbol.Slashed q.1 ∧ Symbol.Slashed q'.1 := by
  have hns := (h.written.vars q hq).1
  have hdistinct : ∀ q' ∈ s.frame.env.directory.vars,
      Symbol.qualify q.1 q.2 = Symbol.qualify q'.1 q'.2 →
        q = q' ∨ Symbol.Slashed q.1 ∧ Symbol.Slashed q'.1 := by
    intro q' hq' heq
    have hns' := (h.written.vars q' hq').1
    have hsame : Symbol.Slashed q.1 ↔ Symbol.Slashed q'.1 := by
      rw [← Symbol.slashed_qualify_iff hns.ne_empty, heq, Symbol.slashed_qualify_iff hns'.ne_empty]
    by_cases hslashed : Symbol.Slashed q.1
    · exact .inr ⟨hslashed, hsame.mp hslashed⟩
    · left
      obtain ⟨h₁, h₂⟩ := Symbol.qualify_inj (mt hns.slash_mem_iff.mp hslashed)
        (mt hns'.slash_mem_iff.mp (mt hsame.mpr hslashed)) heq
      exact Prod.ext h₁ h₂
  refine ⟨?_, fun hslashed => ?_, hdistinct, fun q' hq' n n' hn hn' heq => ?_⟩
  · rw [Engine.recovered_iff_notMem, hns.slash_mem_iff]
  · exact Symbol.partsOf_of_slashed hslashed q.2
  · rw [Codegen.linkName?_eq hn, Codegen.linkName?_eq hn'] at heq
    exact hdistinct q' hq' (Option.some.inj heq)

/-- A session after one source. -/
def afterSource (src : String) : Session := (start.handle {} (.unit "m" src)).1

theorem new_start : Session.new none .host = .ok start := rfl

theorem sourced_afterSource (src : String) : (afterSource src).Sourced :=
  .handle (.new new_start) {} _ nofun

/-- In a session with one var the execution side recovers it. -/
theorem Sourced.recovered_iff_def :
    let vars := (afterSource "(def x 1)").frame.env.directory.vars
    (afterSource "(def x 1)").Sourced ∧ ("user", "x") ∈ vars ∧ Engine.Recovered ("user", "x") ∧
      ∀ q' ∈ vars, Symbol.qualify "user" "x" = Symbol.qualify q'.1 q'.2 → ("user", "x") = q' := by
  have hx : ("user", "x") ∈ (afterSource "(def x 1)").frame.env.directory.vars := by
    show ((afterSource "(def x 1)").frame.env.lookup? "user" "x").isSome = true
    decide +kernel
  have hplain : ¬ Symbol.Slashed "user" := by
    rw [Symbol.Slashed]
    decide
  obtain ⟨hrecovered, -, hdistinct, -⟩ := (sourced_afterSource "(def x 1)").recovered_iff hx
  refine ⟨sourced_afterSource _, hx, hrecovered.mpr hplain, fun q' hq' heq => ?_⟩
  exact (hdistinct q' hq' heq).resolve_right fun hslashed => hplain hslashed.1

/-- A source with vars in namespaces that begin with a slash. -/
def slashedSource : String := "(in-ns '/) (def /a/b 1) (in-ns '///a) (def b 2)"

/-- Two vars of one session have the same joined name, and the execution side takes both for a third. -/
theorem vars_share_name :
    let vars := (afterSource slashedSource).frame.env.directory.vars
    (afterSource slashedSource).Sourced ∧ ("/", "/a/b") ∈ vars ∧ ("///a", "b") ∈ vars ∧
      Symbol.qualify "/" "/a/b" = Symbol.qualify "///a" "b" ∧
      Symbol.cut? (Symbol.qualify "/" "/a/b") = some ("", "//a/b") := by
  refine ⟨sourced_afterSource _, ?_, ?_, by decide, by decide⟩
  · show ((afterSource slashedSource).frame.env.lookup? "/" "/a/b").isSome = true
    decide +kernel
  · show ((afterSource slashedSource).frame.env.lookup? "///a" "b").isSome = true
    decide +kernel

end Session

end WasmLisp
