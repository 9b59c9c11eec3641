import Mathlib
import WasmLisp.Proofs.Codegen.Linked

/-!
# When a preamble is closed

The functions of a preamble are analysed one after the other, each in the environment that those before
it leave. A definition of a name that was there takes the place of the one before it, so that a call is
linked with another function than the one that it was checked against.

* `Preamble.definitions`: all that a preamble defines, of which the last of each name is served
  (`Preamble.lookup?_eq_latest`);
* `Preamble.Knows`: an environment has each function with the parameters of the last definition so far;
  one definition preserves this, and its own calls are right by then (`Knows.step`), and so it goes on to
  the end (`Knows.run`);
* `Preamble.closed_iff`: all calls are still right in the end unless a later definition changes the
  number of parameters of what a function calls;
* `load_closed`: these for a preamble that loads, and what a closed one spares the units that are linked
  with it.
-/

namespace WasmLisp

open Codegen (callsOf mem_callsOf)

namespace Env

variable {e : Env} {ns text : String} {v : Var}

/-- What a symbol resolves to is the cell of some name in some namespace. -/
theorem lookup?_of_resolve? {id : Nat} (h : e.resolve? ns text = some id) :
    ∃ ns' name, e.lookup? ns' name = some id := by
  obtain ⟨n, hn, h⟩ := Option.bind_eq_some_iff.mp h
  dsimp only at h
  split at h
  · unfold resolveBare? at h
    rcases Option.or_eq_some_iff.mp h with h | ⟨-, h⟩
    · exact ⟨ns, _, by rw [lookup?_of_find? hn, h]⟩
    rcases Option.or_eq_some_iff.mp h with h | ⟨-, h⟩
    · obtain ⟨source, -, h⟩ := Option.bind_eq_some_iff.mp h
      exact ⟨source, _, h⟩
    · split at h
      · cases h
      · exact ⟨_, _, h⟩
  · exact ⟨_, _, h⟩

/-- A var that is seen has its own name. -/
theorem Tidy.named?_of_sees (h : e.Tidy) (hv : e.Sees ns v) : e.named? v.ns v.name = some v := by
  obtain ⟨text, htext⟩ := hv
  obtain ⟨id, hid, hcell⟩ := Option.bind_eq_some_iff.mp htext
  obtain ⟨ns', name, hlookup⟩ := lookup?_of_resolve? hid
  obtain ⟨w, hw, rfl, rfl⟩ := h ns' name id hlookup
  cases hw.symm.trans hcell
  rw [named?, hlookup]
  exact hcell

end Env

namespace Preamble

/-! ## Definitions -/

/-- What forms define one after the other, up to the first that is no definition of a function. -/
def definedBy (e : Env) : List Form → List Defn
  | [] => []
  | f :: rest =>
    match f.analyze e Env.coreNs with
    | (e', .ok (.defn ns name params body)) => { ns, name, params, body } :: definedBy e' rest
    | _ => []

/-- All definitions of a preamble in order, also those that others replace later. -/
def definitions (p : Preamble) : List Defn :=
  match Form.readAll p.source with
  | .error _ => []
  | .ok forms => definedBy .initial forms

/-- The last definition of a qualified name. -/
def latest (ds : List Defn) (q : String) : Option Defn := ds.reverse.find? (·.qualified == q)

section

variable {ds es fns : List Defn} {d : Defn} {q : String}

theorem latest_append (ds es : List Defn) (q : String) :
    latest (ds ++ es) q = (latest es q).or (latest ds q) := by
  simp only [latest, List.reverse_append, List.find?_append]

theorem latest_singleton (d : Defn) (q : String) :
    latest [d] q = if d.qualified = q then some d else none := by
  rw [latest, List.reverse_singleton, List.find?_singleton]
  simp only [beq_iff_eq]

/-- There is a definition of a name still when there are more. -/
theorem latest_isSome_append (es : List Defn) (h : (latest ds q).isSome) :
    (latest (ds ++ es) q).isSome := by
  rw [latest_append, Option.isSome_or, h, Bool.or_true]

theorem latest_eq_some_iff : latest ds q = some d ↔
    d.qualified = q ∧ ∃ before after, ds = before ++ d :: after ∧
      q ∉ after.map Defn.qualified := by
  rw [latest, List.find?_eq_some_iff_append, beq_iff_eq]
  refine and_congr_right fun _ => ⟨?_, ?_⟩
  · rintro ⟨after, before, hds, hafter⟩
    refine ⟨before.reverse, after.reverse, ?_, ?_⟩
    · rw [← List.reverse_reverse ds, hds, List.reverse_append, List.reverse_cons, List.append_assoc]
      rfl
    · simpa using hafter
  · rintro ⟨before, after, rfl, hafter⟩
    refine ⟨after.reverse, before.reverse, ?_, ?_⟩
    · rw [List.reverse_append, List.reverse_cons, List.append_assoc]
      rfl
    · simpa using hafter

/-- A definition is found by its name where it was put, and hides no other name. -/
theorem find?_define (fns : List Defn) (d : Defn) (q : String) :
    (define fns d).find? (·.qualified == q) =
      if d.qualified = q then some d else fns.find? (·.qualified == q) := by
  unfold define
  split
  · rename_i hany
    -- a definition is replaced by one of the same name, so that the search stops at the same place
    have hplace : ((·.qualified == q) ∘ fun d' : Defn =>
        if d'.qualified == d.qualified then d else d') = (·.qualified == q) := by
      funext d'
      by_cases heq : d'.qualified = d.qualified
      · simp [heq]
      · simp [heq]
    rw [List.find?_map, hplace]
    cases hfind : fns.find? (·.qualified == q) with
    | none =>
      obtain ⟨d', hd', heq⟩ := List.any_eq_true.mp hany
      have hne : d.qualified ≠ q := by
        rintro rfl
        exact List.find?_eq_none.mp hfind d' hd' heq
      rw [if_neg hne]
      rfl
    | some d' =>
      have hq : d'.qualified = q := by simpa using List.find?_some hfind
      by_cases heq : d.qualified = q
      · simp [hq, heq]
      · simp [hq, heq, Ne.symm heq]
  · rename_i hany
    rw [List.find?_append, List.find?_singleton]
    simp only [beq_iff_eq]
    split
    · rename_i heq
      have hnone : fns.find? (·.qualified == q) = none :=
        List.find?_eq_none.mpr fun d' hd' hd => hany (List.any_eq_true.mpr ⟨d', hd', heq ▸ hd⟩)
      rw [hnone]
      rfl
    · exact Option.or_none

/-- After definitions one after the other, the last of a name is found. -/
theorem find?_foldl_define (ds fns : List Defn) (q : String) :
    (ds.foldl define fns).find? (·.qualified == q) =
      (latest ds q).or (fns.find? (·.qualified == q)) := by
  induction ds generalizing fns with
  | nil => rfl
  | cons d ds ih =>
    rw [List.foldl_cons, ih, find?_define, ← List.singleton_append, latest_append,
      latest_singleton, Option.or_assoc]
    split <;> rfl

end

/-- Loading defines all that the forms define. -/
theorem loadForms_eq {forms : List Form} {e : Env} {fns fns' : List Defn}
    (h : loadForms e fns forms = .ok fns') : fns' = (definedBy e forms).foldl define fns := by
  induction forms generalizing e fns with
  | nil =>
    cases h
    rfl
  | cons f forms ih =>
    rw [loadForms] at h
    split at h
    · cases h
    · rename_i e' ns name params body hanalyzed
      rw [definedBy, hanalyzed]
      exact ih h
    · cases h

/-- The function that is served is the last of its name. -/
theorem lookup?_eq_latest {p : Preamble} {fns : List Defn} (h : p.load = .ok fns) (q : String) :
    p.lookup? q = latest p.definitions q := by
  rw [lookup?, functions, h]
  unfold load at h
  unfold definitions
  cases hread : Form.readAll p.source with
  | error e =>
    rw [hread] at h
    cases h
  | ok forms =>
    rw [hread] at h
    dsimp only at h ⊢
    rw [loadForms_eq h, find?_foldl_define]
    exact Option.or_none

/-! ## What a definition is analysed against -/

/-- The environment has functions of the core namespace only, each with as many parameters as the last of
the definitions gives it. -/
structure Knows (e : Env) (ds : List Defn) : Prop where
  tidy : e.Tidy
  within : e.Within Env.coreNs
  arity : ∀ ns name v, e.named? ns name = some v →
    ∃ d, latest ds (Symbol.qualify ns name) = some d ∧ v.arity = d.params.length

/-- Every call in the function is one of a function that was there when it was defined, after the
definitions and with its own name, and has as many arguments as that had parameters. -/
def Backed (ds : List Defn) (d : Defn) : Prop :=
  ∀ ns name args, .invoke ns name args ∈ d.body.flatten →
    ∃ d', latest (ds ++ [d]) (Symbol.qualify ns name) = some d' ∧ d'.params.length = args.length

namespace Knows

variable {e : Env} {ds : List Defn} {d : Defn}

theorem initial : Knows .initial [] := by
  have hnone : ∀ ns name, Env.initial.named? ns name = none := by
    intro ns name
    have hcells : Env.initial.cells = #[] := by decide
    rw [Env.named?]
    cases Env.initial.lookup? ns name with
    | none => rfl
    | some id => simp [Env.cell?, hcells]
  exact ⟨Env.tidy_initial, .initial _, fun ns name v hv => by simp [hnone] at hv⟩

theorem define (h : Knows e ds) (hns : d.ns = Env.coreNs) :
    Knows (e.intern Env.coreNs d.name .fn d.params.length).1 (ds ++ [d]) := by
  refine ⟨h.tidy.intern _ _ _ _, h.within.intern _ _ _, fun ns name v hv => ?_⟩
  rw [h.tidy.named?_intern] at hv
  rw [latest_append, latest_singleton]
  split at hv
  · rename_i hsame
    obtain ⟨rfl, rfl⟩ := hsame
    cases hv
    have hname : d.qualified = Symbol.qualify Env.coreNs d.name := by rw [Defn.qualified, hns]
    exact ⟨d, by rw [if_pos hname]; rfl, rfl⟩
  · rename_i hother
    obtain ⟨d', hd', harity⟩ := h.arity ns name v hv
    -- another name of the core namespace joins to another text
    have hname : d.qualified ≠ Symbol.qualify ns name := by
      intro heq
      have hcore : ns = Env.coreNs := by
        obtain ⟨id, hid, hcell⟩ := Option.bind_eq_some_iff.mp hv
        obtain ⟨w, hw, hwns, -⟩ := h.tidy ns name id hid
        exact hwns ▸ h.within id w hw
      rw [Defn.qualified, hns, hcore] at heq
      obtain ⟨-, hsame⟩ := Symbol.qualify_inj (by decide) (by decide) heq
      exact hother ⟨hcore, hsame.symm⟩
    exact ⟨d', by rw [if_neg hname]; exact hd', harity⟩

/-- A call that is seen there has the arguments of the last definition. -/
theorem call (h : Knows e ds) {ns ns' name : String} {scope : List String} {args : List Node}
    (hn : Node.Scoped e ns scope (.invoke ns' name args)) :
    ∃ d, latest ds (Symbol.qualify ns' name) = some d ∧ d.params.length = args.length := by
  cases hn with
  | invoke hv hkind harity =>
    obtain ⟨d, hd, hparams⟩ := h.arity _ _ _ (h.tidy.named?_of_sees hv)
    exact ⟨d, hd, by exact_mod_cast hparams.symm.trans harity⟩

/-- A definition is known after it was analysed, and all its calls were right then. -/
theorem step (h : Knows e ds) {f : Form} {e' : Env}
    (hf : f.analyze e Env.coreNs = (e', .ok d.node)) : Knows e' (ds ++ [d]) ∧ Backed ds d := by
  have hstands := analyze_stands hf
  obtain ⟨ns, name, params, body⟩ := d
  cases hstands with
  | expr h => cases h
  | defn name params hbody =>
    have hknows := h.define (d := { ns := Env.coreNs, name, params, body }) rfl
    refine ⟨hknows, fun ns name args hin => ?_⟩
    obtain ⟨inner, hcall⟩ := hbody.of_mem hin
    exact hknows.call hcall

/-- So were the calls of every definition, as far as definitions had come. -/
theorem run (h : Knows e ds) {forms : List Form} {before after : List Defn}
    (hdefs : definedBy e forms = before ++ d :: after) : Backed (ds ++ before) d := by
  induction forms generalizing e ds before with
  | nil => simp [definedBy] at hdefs
  | cons f forms ih =>
    rw [definedBy] at hdefs
    split at hdefs
    · rename_i e' ns name params body hanalyzed
      obtain ⟨hknows, hbacked⟩ :=
        h.step (d := { ns, name, params, body }) hanalyzed
      cases before with
      | nil =>
        obtain ⟨rfl, -⟩ := List.cons.inj hdefs
        rwa [List.append_nil]
      | cons b before =>
        obtain ⟨rfl, hmore⟩ := List.cons.inj hdefs
        rw [List.append_cons]
        exact ih hknows hmore
    · simp at hdefs

end Knows

/-- The calls of a definition of a preamble were right when it was defined. -/
theorem backed {p : Preamble} {before after : List Defn} {d : Defn}
    (h : p.definitions = before ++ d :: after) : Backed before d := by
  unfold definitions at h
  split at h
  · simp at h
  · exact Knows.initial.run h

/-! ## Closed preambles -/

/-- Every call in a function that is served is one of a function that is served, with as many arguments
as that has parameters. -/
def Closed (p : Preamble) : Prop :=
  ∀ q d, p.lookup? q = some d → ∀ ns name args, .invoke ns name args ∈ d.body.flatten →
    ∃ d', p.lookup? (Symbol.qualify ns name) = some d' ∧ d'.params.length = args.length

/-- What a definition calls that is the last of its name is not given another number of parameters
after it. -/
def Steady (ds : List Defn) : Prop :=
  ∀ before d after, ds = before ++ d :: after → d.qualified ∉ after.map Defn.qualified →
    ∀ c ∈ callsOf d.body.flatten, ∀ d₁ d₂,
      latest (before ++ [d]) (Symbol.qualify c.1 c.2) = some d₁ →
      latest ds (Symbol.qualify c.1 c.2) = some d₂ → d₁.params.length = d₂.params.length

variable {p : Preamble} {fns : List Defn}

/-- What a definition calls is served, with whatever parameters. -/
theorem lookup?_isSome_of_call (h : p.load = .ok fns) {before after : List Defn} {d : Defn}
    (hdefs : p.definitions = before ++ d :: after) {ns name : String} {args : List Node}
    (hin : .invoke ns name args ∈ d.body.flatten) :
    (p.lookup? (Symbol.qualify ns name)).isSome := by
  obtain ⟨d', hd', -⟩ := backed hdefs ns name args hin
  rw [lookup?_eq_latest h, hdefs, List.append_cons]
  exact latest_isSome_append after (by rw [hd']; rfl)

/-- A preamble is closed just when no definition changes the parameters of what a function calls. -/
theorem closed_iff (h : p.load = .ok fns) : p.Closed ↔ Steady p.definitions := by
  constructor
  · intro hclosed before d after hdefs hlast c hc d₁ d₂ hd₁ hd₂
    obtain ⟨args, hin⟩ := mem_callsOf.mp hc
    have hserved : p.lookup? d.qualified = some d := by
      rw [lookup?_eq_latest h]
      exact latest_eq_some_iff.mpr ⟨rfl, before, after, hdefs, hlast⟩
    obtain ⟨d₁', hd₁', hthen⟩ := backed hdefs c.1 c.2 args hin
    obtain ⟨d₂', hd₂', hnow⟩ := hclosed _ d hserved c.1 c.2 args hin
    rw [lookup?_eq_latest h] at hd₂'
    obtain rfl : d₁' = d₁ := Option.some.inj (hd₁'.symm.trans hd₁)
    obtain rfl : d₂' = d₂ := Option.some.inj (hd₂'.symm.trans hd₂)
    exact hthen.trans hnow.symm
  · intro hsteady q d hd ns name args hin
    rw [lookup?_eq_latest h] at hd
    obtain ⟨rfl, before, after, hdefs, hlast⟩ := latest_eq_some_iff.mp hd
    obtain ⟨d₁, hd₁, hthen⟩ := backed hdefs ns name args hin
    obtain ⟨d₂, hd₂⟩ := Option.isSome_iff_exists.mp (lookup?_isSome_of_call h hdefs hin)
    refine ⟨d₂, hd₂, ?_⟩
    rw [lookup?_eq_latest h] at hd₂
    rw [← hthen]
    exact (hsteady before d after hdefs hlast (ns, name) (mem_callsOf.mpr ⟨args, hin⟩) d₁ d₂ hd₁
      hd₂).symm

/-- Redefinitions that leave the number of parameters alone leave a preamble closed. -/
theorem closed_of_same_params (h : p.load = .ok fns)
    (hsame : ∀ d ∈ p.definitions, ∀ d' ∈ p.definitions, d.qualified = d'.qualified →
      d.params.length = d'.params.length) : p.Closed := by
  have hmem : ∀ {ds : List Defn} {q : String} {d : Defn}, latest ds q = some d →
      d ∈ ds ∧ d.qualified = q := by
    intro ds q d hd
    obtain ⟨hq, before, after, rfl, -⟩ := latest_eq_some_iff.mp hd
    exact ⟨by simp, hq⟩
  refine (closed_iff h).mpr fun before d after hdefs _ c _ d₁ d₂ hd₁ hd₂ => ?_
  obtain ⟨hin₁, hname₁⟩ := hmem hd₁
  obtain ⟨hin₂, hname₂⟩ := hmem hd₂
  refine hsame d₁ ?_ d₂ hin₂ (hname₁.trans hname₂.symm)
  rw [hdefs, List.append_cons]
  exact List.mem_append_left _ hin₁

end Preamble

namespace Codegen

variable {u : CompUnit} {p : Preamble} {fns : List Defn}

/-- The unit calls functions with as many arguments as they have parameters, and a function that it has
instead of one of the preamble has as many as that. -/
structure Respects (u : CompUnit) (fns : List Defn) : Prop where
  calls : ∀ ns name args d, .invoke ns name args ∈ u.nodes →
    callee? u fns (ns, name) = some d → d.params.length = args.length
  keeps : ∀ d ∈ u.defns, ∀ d' ∈ fns, d.key = d'.key → d.params.length = d'.params.length

/-- What the unit has instead of a preamble function takes the arguments of that one. -/
theorem Respects.callee? (h : Respects u fns) {q : String × String} {d d' : Defn}
    (hshared : shared? fns q = some d') (hkey : d'.key = q) (hd : callee? u fns q = some d) :
    d.params.length = d'.params.length := by
  unfold Codegen.callee? at hd
  split at hd
  · rename_i f hfind
    cases hd
    have hf : f.defn.key = q := by simpa [Defn.key, Linked.key] using List.find?_some hfind
    have hown : f.defn ∈ u.defns :=
      List.mem_map_of_mem (List.mem_of_find?_eq_some hfind)
    exact h.keeps _ hown _ (List.mem_of_find?_eq_some hshared) (hf.trans hkey.symm)
  · rw [hshared] at hd
    cases hd
    rfl

/-- With a closed preamble all calls have as many arguments as what they are linked with takes. -/
theorem Respects.counted (h : Respects u p.functions) (hclosed : p.Closed) {ns name : String}
    {args : List Node} {d : Defn} (hin : .invoke ns name args ∈ sources u p.functions)
    (hd : Codegen.callee? u p.functions (ns, name) = some d) :
    d.params.length = args.length := by
  have hinward := Preamble.inward_functions p
  rw [sources, Node.flattenAll_append, List.mem_append] at hin
  rcases hin with hin | hin
  · exact h.calls ns name args d hin hd
  · obtain ⟨root, hroot, hin⟩ := Node.mem_flattenAll.mp hin
    obtain ⟨caller, hcaller, rfl⟩ := List.mem_map.mp hroot
    have hcore : ns = Env.coreNs :=
      hinward.calls caller hcaller (ns, name) (mem_callsOf.mpr ⟨args, hin⟩)
    have hserved : p.lookup? caller.qualified = some caller :=
      (shared?_eq_some_iff (p := caller.key) hinward).mpr ⟨hcaller, rfl⟩
    rw [Defn.node, Node.flatten, List.mem_cons, or_iff_right (by simp)] at hin
    obtain ⟨d', hd', hparams⟩ := hclosed _ caller hserved ns name args hin
    have hshared : shared? p.functions (ns, name) = some d' := hd'
    -- names of the core namespace are joined to the text of one pair only
    have hkey : d'.key = (ns, name) := by
      obtain ⟨hmem, hname⟩ := (shared?_eq_some_iff hinward).mp hshared
      have hslash : '/' ∉ Env.coreNs.toList := by decide
      rw [Defn.qualified, hinward.ns d' hmem, hcore] at hname
      obtain ⟨-, hsame⟩ := Symbol.qualify_inj hslash hslash hname
      exact Prod.ext ((hinward.ns d' hmem).trans hcore.symm) hsame
    exact (h.callee? hshared hkey hd).trans hparams

/-- A unit is refused for something else than the arguments of a call of a function that it is linked
with. -/
inductive Otherwise (maxDepth : Nat) : Failure → Prop where
  | functionTwice (ns name : String) :
    Otherwise maxDepth
      (.semantic s!"function {Symbol.qualify ns name} is defined twice in one unit")
  | globalTwice (name : String) :
    Otherwise maxDepth (.semantic s!"global {name} is defined twice in one unit")
  | importTwice (name : String) {before params : Nat} (hne : before ≠ params) :
    Otherwise maxDepth (.semantic s!"{name} is called with {before} and {params} arguments")
  | tooDeep : Otherwise maxDepth (.backend none s!"expression nesting exceeds {maxDepth} levels")

theorem Refusal.otherwise {maxDepth : Nat} {e : Failure} (h : Refusal u fns maxDepth e)
    (hcounted : ∀ ns name args d, .invoke ns name args ∈ sources u fns →
      Codegen.callee? u fns (ns, name) = some d → d.params.length = args.length) :
    Otherwise maxDepth e := by
  cases h with
  | functionTwice h => exact .functionTwice _ _
  | globalTwice h => exact .globalTwice _
  | importTwice hm hm' h h' hne => exact .importTwice _ hne
  | wrongCount hcall hd hne => exact absurd (hcounted _ _ _ _ hcall hd) hne
  | tooDeep => exact .tooDeep

/-- Of a preamble that loads the last definition of each name is served. What a function calls is
served too, and when the function was defined the call had as many arguments as that had parameters. It
still has them in the end, for all functions that are served, unless a definition that comes later gives
another number of parameters to what is called. Then code generation of a unit of analysed forms that
calls functions as they are declared, and that does not replace one of the preamble by one with other
parameters, is never refused for the arguments of a call. -/
theorem load_closed {p : Preamble} {fns : List Defn} (h : p.load = .ok fns) :
    (∀ q, p.lookup? q = Preamble.latest p.definitions q) ∧
    (∀ before d after, p.definitions = before ++ d :: after →
      ∀ ns name args, .invoke ns name args ∈ d.body.flatten →
        (∃ d', Preamble.latest (before ++ [d]) (Symbol.qualify ns name) = some d' ∧
          d'.params.length = args.length) ∧
        (p.lookup? (Symbol.qualify ns name)).isSome) ∧
    (p.Closed ↔ Preamble.Steady p.definitions) ∧
    (p.Closed → ∀ (u : CompUnit) (maxDepth : Int) (e : Failure),
      (∀ n ∈ u.forms, ∃ (f : Form) (env : Env) (ns : String), (f.analyze env ns).2 = .ok n) →
      Respects u fns → generate u fns maxDepth = .error e → Otherwise (effectiveDepth maxDepth) e) := by
  refine ⟨Preamble.lookup?_eq_latest h, fun before d after hdefs ns name args hin => ?_,
    Preamble.closed_iff h, fun hclosed u maxDepth e hforms hrespects hg => ?_⟩
  · exact ⟨Preamble.backed hdefs ns name args hin, Preamble.lookup?_isSome_of_call h hdefs hin⟩
  · obtain rfl : p.functions = fns := by rw [Preamble.functions, h]
    rw [generate] at hg
    rcases bind_eq_error hg with hg | ⟨program, -, hg⟩
    · exact (program_refused hforms hg).otherwise fun _ _ _ _ hin hd =>
        hrespects.counted hclosed hin hd
    · cases hg

/-- A function that is called and then defined anew, with as many parameters. -/
def keptPreamble : Preamble where
  source := "(defn f [x] 1) (defn g [] (f 2)) (defn f [y] (+ y 1))"

/-- Its three definitions. -/
def keptFirst : Defn where
  ns := "core"
  name := "f"
  params := ["x"]
  body := .const 1

def keptCaller : Defn where
  ns := "core"
  name := "g"
  params := []
  body := .invoke "core" "f" [.const 2]

def keptLast : Defn where
  ns := "core"
  name := "f"
  params := ["y"]
  body := .prim "+" [.localVar "y", .const 1]

/-- A form that calls both functions. -/
def keptForm : Form :=
  .list [.sym { name := "f" } 1, .list [.sym { name := "g" } 1] 1] 1

/-- The unit of that form. -/
def keptUnit : CompUnit where
  forms := [.invoke "core" "f" [.invoke "core" "g" []]]

theorem load_keptPreamble : keptPreamble.load = .ok [keptLast, keptCaller] := by cbv

theorem definitions_keptPreamble :
    keptPreamble.definitions = [keptFirst] ++ keptCaller :: [keptLast] := by
  cbv

theorem respects_keptUnit : Respects keptUnit [keptLast, keptCaller] := by
  constructor
  · intro ns name args d hin hd
    simp only [keptUnit, CompUnit.nodes, Node.flattenAll, Node.flatten, List.append_nil,
      List.mem_cons, List.not_mem_nil, Node.invoke.injEq, or_false] at hin
    obtain ⟨rfl, rfl, rfl⟩ | ⟨rfl, rfl, rfl⟩ := hin
    · obtain rfl : keptLast = d := Option.some.inj hd
      rfl
    · obtain rfl : keptCaller = d := Option.some.inj hd
      rfl
  · exact nofun

theorem load_closed_kept :
    keptPreamble.lookup? "core/f" = some keptLast ∧
    ((∃ d', Preamble.latest ([keptFirst] ++ [keptCaller]) (Symbol.qualify "core" "f") = some d' ∧
        d'.params.length = 1) ∧
      (keptPreamble.lookup? (Symbol.qualify "core" "f")).isSome) ∧
    Preamble.Steady keptPreamble.definitions ∧
    ∃ e, generate keptUnit [keptLast, keptCaller] 1 = .error e ∧ Otherwise 1 e := by
  obtain ⟨hlast, hbacked, hsteady, hspared⟩ := load_closed load_keptPreamble
  have hclosed : keptPreamble.Closed := by
    refine Preamble.closed_of_same_params load_keptPreamble ?_
    rw [definitions_keptPreamble]
    decide
  have hforms : ∀ n ∈ keptUnit.forms,
      ∃ (f : Form) (env : Env) (ns : String), (f.analyze env ns).2 = .ok n := by
    intro n hn
    obtain rfl : n = .invoke "core" "f" [.invoke "core" "g" []] := List.mem_singleton.mp hn
    exact ⟨keptForm, Preamble.declareAll [keptLast, keptCaller] .initial, "user", by cbv⟩
  refine ⟨?_, ?_, hsteady.mp hclosed, ?_⟩
  · rw [hlast, definitions_keptPreamble]
    rfl
  · refine hbacked _ _ _ definitions_keptPreamble "core" "f" [.const 2] ?_
    exact List.mem_cons_self
  · cases hg : generate keptUnit [keptLast, keptCaller] 1 with
    | error e => exact ⟨e, rfl, hspared hclosed keptUnit 1 e hforms respects_keptUnit hg⟩
    | ok g =>
      have hfail : (generate keptUnit [keptLast, keptCaller] 1).isOk = false := rfl
      rw [hg] at hfail
      cases hfail

/-- A function that is called and then defined anew, with another number of parameters. -/
def redefinedPreamble : Preamble where
  source := "(defn f [] 1) (defn g [] (f)) (defn f [x] x)"

/-- A form that calls the function in between, as it is declared. -/
def redefinedForm : Form := .list [.sym { name := "g" } 1] 1

/-- The unit of that form. -/
def redefinedUnit : CompUnit where
  forms := [.invoke "core" "g" []]

/-- The definition that is served in the end, and the one that calls the other before it. -/
def redefinedLast : Defn where
  ns := "core"
  name := "f"
  params := ["x"]
  body := .localVar "x"

def redefinedCaller : Defn where
  ns := "core"
  name := "g"
  params := []
  body := .invoke "core" "f" []

theorem load_redefinedPreamble :
    redefinedPreamble.load = .ok [redefinedLast, redefinedCaller] := by
  cbv

/-- The call in the function is still one without arguments, and a unit that calls the function as it is
declared is refused for it. -/
theorem redefined_not_closed :
    redefinedPreamble.load = .ok [redefinedLast, redefinedCaller] ∧
    ¬ redefinedPreamble.Closed ∧
    (redefinedForm.analyze (Preamble.declareAll [redefinedLast, redefinedCaller] .initial)
      "user").2 = .ok (.invoke "core" "g" []) ∧
    redefinedPreamble.lookup? "core/g" = some redefinedCaller ∧
    (generate redefinedUnit [redefinedLast, redefinedCaller] 0).map (fun _ => ()) =
      .error (.semantic "wrong number of arguments (0) to core/f") := by
  have hserved : redefinedPreamble.lookup? "core/g" = some redefinedCaller ∧
      redefinedPreamble.lookup? "core/f" = some redefinedLast := by
    unfold Preamble.lookup? Preamble.functions
    rw [load_redefinedPreamble]
    exact ⟨rfl, rfl⟩
  refine ⟨load_redefinedPreamble, fun hclosed => ?_, by cbv, hserved.1, by cbv⟩
  obtain ⟨d, hd, hparams⟩ :=
    hclosed _ _ hserved.1 "core" "f" [] List.mem_cons_self
  obtain rfl : redefinedLast = d := Option.some.inj (hserved.2.symm.trans hd)
  exact absurd hparams (by decide)

end Codegen

end WasmLisp
