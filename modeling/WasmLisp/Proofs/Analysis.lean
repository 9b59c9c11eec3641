import Mathlib
import WasmLisp.Preamble
import WasmLisp.Proofs.Nodes

/-!
# What analysis gives

* `Gives`: whatever a step of analysis gives has a property;
* `Sound`: primitives have operands as they need them, and definitions are in the namespace of the
  analysis under names that its forms hold;
* `analyze_sound`: all nodes that analysis gives are so, and those of preambles too (`load_sound`).
-/

namespace WasmLisp

mutual

/-- Every symbol in a form has a property. -/
def Form.AllSymbols (Q : Symbol → Prop) : Form → Prop
  | .sym s _ => Q s
  | .list items _ => Form.EachSymbol Q items
  | .vector items _ => Form.EachSymbol Q items
  | _ => True

/-- Every symbol in some forms has a property. -/
def Form.EachSymbol (Q : Symbol → Prop) : List Form → Prop
  | [] => True
  | f :: rest => f.AllSymbols Q ∧ Form.EachSymbol Q rest

end

namespace Analysis

variable {α β : Type}

/-! ## Steps of analysis -/

/-- Whatever the step gives has the property, in every environment. -/
def Gives (x : Run α) (P : α → Prop) : Prop :=
  ∀ env a, (x.run.run env).1 = .ok a → P a

theorem Gives.pure {P : α → Prop} {a : α} (h : P a) : Gives (Pure.pure a : Run α) P := by
  rintro env b hb
  cases hb
  exact h

theorem Gives.refuse {P : α → Prop} (line : Nat) (reason : Reason) :
    Gives (Analysis.refuse line reason : Run α) P := by
  rintro env b hb
  cases hb

/-- A step and what follows it, run one after the other. -/
theorem run_bind (x : Run α) (f : α → Run β) (env : Env) :
    ((x >>= f).run.run env) = match x.run.run env with
      | (.ok a, env) => (f a).run.run env
      | (.error e, env) => (.error e, env) := by
  simp only [Bind.bind, ExceptT.bind, ExceptT.run, ExceptT.mk, StateT.run, StateT.bind]
  cases x env with
  | mk r env => cases r <;> rfl

theorem Gives.bind {P : α → Prop} {R : β → Prop} {x : Run α} {f : α → Run β} (hx : Gives x P)
    (hf : ∀ a, P a → Gives (f a) R) : Gives (x >>= f) R := by
  rintro env b hb
  rw [run_bind] at hb
  cases hr : x.run.run env with
  | mk r env' =>
    rw [hr] at hb
    cases r with
    | error e => cases hb
    | ok a => exact hf a (hx env a (by rw [hr])) env' b hb

/-- Nothing comes after a fault. -/
theorem Gives.refused {R : β → Prop} (line : Nat) (reason : Reason) {f : α → Run β} :
    Gives (Analysis.refuse line reason >>= f) R :=
  (Gives.refuse line reason).bind fun _ h => False.elim h

theorem Gives.any (x : Run α) : Gives x fun _ => True := fun _ _ _ => trivial

/-- A step whose result does not matter. -/
theorem Gives.after {R : β → Prop} {x : Run α} {f : α → Run β} (hf : ∀ a, Gives (f a) R) :
    Gives (x >>= f) R := (Gives.any x).bind fun a _ => hf a

/-! ## Nodes -/

/-- A primitive has operands as it needs them, and a definition stands in the namespace under a
name that has the property as a symbol. -/
def Sound (ns : String) (Q : Symbol → Prop) : Node → Prop
  | .prim op args => ∃ bounds, primArity? op = some bounds ∧ arityFits bounds args.length = true
  | .bindVar ns' name _ => ns' = ns ∧ Q { name }
  | .defn ns' name _ _ => ns' = ns ∧ Q { name }
  | .defGlobal name _ => Q { name }
  | _ => True

/-- All nodes of a tree are sound. -/
def AllSound (ns : String) (Q : Symbol → Prop) (n : Node) : Prop := ∀ m ∈ n.flatten, Sound ns Q m

variable {ns : String} {Q : Symbol → Prop}

theorem allSound_flattenAll {nodes : List Node} (h : ∀ n ∈ nodes, AllSound ns Q n) :
    ∀ m ∈ Node.flattenAll nodes, Sound ns Q m := by
  intro m hm
  obtain ⟨n, hn, hm⟩ := Node.mem_flattenAll.1 hm
  exact h n hn m hm

theorem allSound_cons {n : Node} {below : List Node} (hf : n.flatten = n :: below)
    (hn : Sound ns Q n) (h : ∀ m ∈ below, Sound ns Q m) : AllSound ns Q n := by
  intro m hm
  rw [hf, List.mem_cons] at hm
  rcases hm with rfl | hm
  · exact hn
  · exact h m hm

theorem allSound_bindVar {name : String} {init : Node} (hq : Q { name })
    (h : AllSound ns Q init) : AllSound ns Q (.bindVar ns name init) :=
  allSound_cons (by rw [Node.flatten]) ⟨rfl, hq⟩ h

theorem allSound_defn {name : String} {params : List String} {body : Node} (hq : Q { name })
    (h : AllSound ns Q body) : AllSound ns Q (.defn ns name params body) :=
  allSound_cons (by rw [Node.flatten]) ⟨rfl, hq⟩ h

theorem allSound_foreignSet {name : String} {value : Node} (h : AllSound ns Q value) :
    AllSound ns Q (.foreignSet name value) := allSound_cons (by rw [Node.flatten]) trivial h

theorem allSound_seq {nodes : List Node} (h : ∀ n ∈ nodes, AllSound ns Q n) :
    AllSound ns Q (.seq nodes) :=
  allSound_cons (by rw [Node.flatten]) trivial (allSound_flattenAll h)

theorem allSound_prim {op : String} {args : List Node} (hs : Sound ns Q (.prim op args))
    (h : ∀ n ∈ args, AllSound ns Q n) : AllSound ns Q (.prim op args) :=
  allSound_cons (by rw [Node.flatten]) hs (allSound_flattenAll h)

theorem allSound_ifElse {c t e : Node} (hc : AllSound ns Q c) (ht : AllSound ns Q t)
    (he : AllSound ns Q e) : AllSound ns Q (.ifElse c t e) := by
  refine allSound_cons (by rw [Node.flatten]) trivial fun m hm => ?_
  simp only [List.mem_append] at hm
  rcases hm with (hm | hm) | hm
  · exact hc m hm
  · exact ht m hm
  · exact he m hm

theorem allSound_letIn {bindings : List (String × Node)} {body : Node}
    (hb : ∀ m ∈ Node.flattenBindings bindings, Sound ns Q m) (h : AllSound ns Q body) :
    AllSound ns Q (.letIn bindings body) := by
  refine allSound_cons (by rw [Node.flatten]) trivial fun m hm => ?_
  rw [List.mem_append] at hm
  exact hm.elim (hb m) (h m)

theorem allSound_body {nodes : List Node} (h : ∀ n ∈ nodes, AllSound ns Q n) :
    AllSound ns Q (body nodes) := by
  match nodes, h with
  | [], _ => simp [body, AllSound, Node.flatten, Sound]
  | [n], h => exact h n List.mem_cons_self
  | n :: m :: nodes, h => exact allSound_seq h

/-! ## Parts of forms -/

theorem symbol_sound (scope : Scope) (s : Symbol) (line : Nat) :
    Gives (symbol ns scope s line) (AllSound ns Q) := by
  unfold symbol
  split
  · exact .pure (by simp [AllSound, Node.flatten, Sound])
  split
  · exact .pure (by simp [AllSound, Node.flatten, Sound])
  split
  · exact .pure (by simp [AllSound, Node.flatten, Sound])
  split
  · exact .pure (by simp [AllSound, Node.flatten, Sound])
  refine .after fun v => ?_
  split
  · exact .refuse _ _
  · exact .pure (by simp [AllSound, Node.flatten, Sound])

theorem call_sound (scope : Scope) (head : Symbol) (headLine line : Nat) {args : List Node}
    (h : ∀ n ∈ args, AllSound ns Q n) :
    Gives (call ns scope head headLine line args) (AllSound ns Q) := by
  unfold call
  split
  · exact .pure (allSound_cons (by rw [Node.flatten]) trivial (allSound_flattenAll h))
  split
  · exact .refuse _ _
  refine .after fun v => ?_
  split
  · exact .refuse _ _
  split
  · exact .refuse _ _
  exact .pure (allSound_cons (by rw [Node.flatten]) trivial (allSound_flattenAll h))

/-- The name of a definition is one of the symbols. -/
theorem defName_symbol (line : Nat) (head : String) {args : List Form}
    (h : Form.EachSymbol Q args) : Gives (defName line head args) fun name => Q { name } := by
  unfold defName
  split
  · exact .refuse _ _
  · rename_i s l rest
    split
    · rename_i hns
      refine .pure ?_
      have hs : Q s := h.1
      obtain ⟨sns, sname⟩ := s
      cases hns
      exact hs
    · exact .refuse _ _
  · exact .refuse _ _

theorem defGlobal_sound (line : Nat) (top : Bool) {args : List Form}
    (h : Form.EachSymbol Q args) : Gives (defGlobal line top args) (AllSound ns Q) := by
  have hnode : ∀ name v, Q { name } → AllSound ns Q (.defGlobal name v) := by
    intro name v hq m hm
    rw [Node.flatten, List.mem_singleton] at hm
    · subst hm
      exact hq
    all_goals simp
  unfold defGlobal
  dsimp only
  split
  · exact .refused _ _
  refine (defName_symbol line "defglobal" h).bind fun name hq => ?_
  split
  · exact .pure (hnode name 0 hq)
  · exact .pure (hnode name _ hq)
  · exact .refuse _ _
  · exact .refuse _ _

/-! ## Forms -/

mutual

/-- All nodes that the analysis of a form gives are sound. -/
theorem form_sound : ∀ (f : Form) (scope : Scope) (top : Bool), f.AllSymbols Q →
    Gives (form ns scope top f) (AllSound ns Q)
  | .int v _, scope, top, _ => by
    rw [form]
    exact .pure (by simp [AllSound, Node.flatten, Sound])
  | .sym s line, scope, top, _ => by
    rw [form]
    exact symbol_sound scope s line
  | .keyword name line, scope, top, _ => by
    rw [form]
    exact .refuse _ _
  | .vector items line, scope, top, _ => by
    rw [form]
    exact .refuse _ _
  | .list [] line, scope, top, _ => by
    rw [form]
    exact .pure (by simp [AllSound, Node.flatten, Sound])
  | .list (.sym head headLine :: args) line, scope, top, h => by
    unfold form
    have hargs : Form.EachSymbol Q args := h.2
    split
    · split
      · -- `def`
        dsimp only
        split
        · exact .refused _ _
        refine (defName_symbol line "def" hargs).bind fun name hq => ?_
        split
        · rename_i value
          refine (form_sound value scope false hargs.2.1).bind fun init hi => ?_
          exact .after fun _ => .pure (allSound_bindVar hq hi)
        · exact .refuse _ _
      · -- `defn`
        dsimp only
        split
        · exact .refused _ _
        refine (defName_symbol line "defn" hargs).bind fun name hq => ?_
        split
        · rename_i items vecLine forms
          refine .after fun ps => .after fun _ => ?_
          refine (forms_sound forms _ false hargs.2.2).bind fun nodes hn => ?_
          exact .pure (allSound_defn hq (allSound_body hn.2))
        · exact .refuse _ _
        · exact .refuse _ _
      · exact defGlobal_sound line top hargs
      · exact .refuse _ _
      · -- `let` with a vector of bindings
        rename_i items vecLine forms _
        dsimp only
        split
        · exact .refused _ _
        refine (bindings_sound items scope vecLine hargs.1).bind fun r hr => ?_
        refine (forms_sound forms r.2 false hargs.2).bind fun nodes hn => ?_
        exact .pure (allSound_letIn hr (allSound_body hn.2))
      · exact .refuse _ _
      · -- `if`
        dsimp only
        split
        · exact .refused _ _
        refine (forms_sound _ scope false hargs).bind fun nodes hn => ?_
        split
        · exact .pure (allSound_ifElse (hn.2 _ (by simp)) (hn.2 _ (by simp))
            (by simp [AllSound, Node.flatten, Sound]))
        · exact .pure (allSound_ifElse (hn.2 _ (by simp)) (hn.2 _ (by simp)) (hn.2 _ (by simp)))
        · exact .refuse _ _
      · -- `do`
        refine (forms_sound _ scope top hargs).bind fun nodes hn => ?_
        exact .pure (allSound_seq hn.2)
      · -- `set!` of a symbol
        rename_i value _
        dsimp only
        split
        · exact .refused _ _
        refine (form_sound value scope false hargs.2.1).bind fun v hv => ?_
        exact .pure (allSound_foreignSet hv)
      · exact .refuse _ _
      · exact .refuse _ _
      · exact .refuse _ _
      · -- a primitive or a call
        dsimp only
        split
        · exact .refused _ _
        split
        · rename_i bounds hb
          split
          · exact .refused _ _
          rename_i hfits
          refine (forms_sound _ scope false hargs).bind fun nodes hn => ?_
          refine .pure (allSound_prim ⟨bounds, hb, ?_⟩ hn.2)
          rw [hn.1]
          simpa using hfits
        · refine (forms_sound _ scope false hargs).bind fun nodes hn => ?_
          exact call_sound scope head headLine line hn.2
    · refine (forms_sound args scope false hargs).bind fun nodes hn => ?_
      exact call_sound scope head headLine line hn.2
  | .list (.int v l :: args) line, scope, top, _ => by
    rw [form]
    · exact .refuse _ _
    · simp
  | .list (.keyword v l :: args) line, scope, top, _ => by
    rw [form]
    · exact .refuse _ _
    · simp
  | .list (.list v l :: args) line, scope, top, _ => by
    rw [form]
    · exact .refuse _ _
    · simp
  | .list (.vector v l :: args) line, scope, top, _ => by
    rw [form]
    · exact .refuse _ _
    · simp
termination_by f => sizeOf f

theorem forms_sound : ∀ (fs : List Form) (scope : Scope) (top : Bool), Form.EachSymbol Q fs →
    Gives (forms' ns scope top fs) fun nodes =>
      nodes.length = fs.length ∧ ∀ n ∈ nodes, AllSound ns Q n
  | [], scope, top, _ => by
    rw [forms']
    exact .pure ⟨rfl, by simp⟩
  | f :: fs, scope, top, h => by
    rw [forms']
    refine (form_sound f scope top h.1).bind fun n hn => ?_
    refine (forms_sound fs scope top h.2).bind fun nodes hns => ?_
    refine .pure ⟨by simp [hns.1], ?_⟩
    intro m hm
    rcases List.mem_cons.1 hm with rfl | hm
    · exact hn
    · exact hns.2 m hm
termination_by fs => sizeOf fs

theorem bindings_sound : ∀ (fs : List Form) (scope : Scope) (line : Nat), Form.EachSymbol Q fs →
    Gives (bindings ns scope line fs) fun r =>
      ∀ m ∈ Node.flattenBindings r.1, Sound ns Q m
  | .sym s l :: value :: rest, scope, line, h => by
    rw [bindings]
    dsimp only
    split
    · exact .refused _ _
    refine (form_sound value scope false h.2.1).bind fun v hv => ?_
    refine (bindings_sound rest (scope.push s.name) line h.2.2).bind fun r hr => ?_
    refine .pure fun m hm => ?_
    rw [Node.flattenBindings, List.mem_append] at hm
    rcases hm with hm | hm
    · exact hv m hm
    · exact hr m hm
  | [], scope, line, _ => by
    rw [bindings]
    exact .pure (by simp [Node.flattenBindings])
  | [f], scope, line, _ => by
    rw [bindings]
    · exact .refuse _ _
    all_goals simp
  | .int _ _ :: _ :: _, scope, line, _ | .keyword _ _ :: _ :: _, scope, line, _
  | .list _ _ :: _ :: _, scope, line, _ | .vector _ _ :: _ :: _, scope, line, _ => by
    rw [bindings]
    · exact .refuse _ _
    all_goals simp
termination_by fs => sizeOf fs

end

end Analysis

open Analysis (AllSound)

mutual

theorem Form.allSymbols_true : ∀ f : Form, f.AllSymbols fun _ => True
  | .int _ _ | .sym _ _ | .keyword _ _ => trivial
  | .list items _ | .vector items _ => Form.eachSymbol_true items

theorem Form.eachSymbol_true : ∀ fs : List Form, Form.EachSymbol (fun _ => True) fs
  | [] => trivial
  | f :: fs => ⟨Form.allSymbols_true f, Form.eachSymbol_true fs⟩

end

variable {Q : Symbol → Prop}

/-- All nodes that the analysis of a form gives are sound. -/
theorem analyze_sound {env : Env} {ns : String} {f : Form} {n : Node}
    (h : (f.analyze env ns).2 = .ok n) (hf : f.AllSymbols Q) : AllSound ns Q n := by
  have hg : Analysis.Gives (Analysis.topLevel ns f) (AllSound ns Q) :=
    Analysis.form_sound f {} true hf
  have hm : ((Analysis.topLevel ns f).run.run env).1.mapError
      (fun e => Failure.semantic e.message) = .ok n := h
  cases hr : ((Analysis.topLevel ns f).run.run env).1 with
  | error e =>
    rw [hr] at hm
    cases hm
  | ok m =>
    rw [hr] at hm
    cases hm
    exact hg env n hr

/-- A definition takes the place of another or goes to the end. -/
theorem Preamble.mem_define {fns : List Defn} {d e : Defn} (h : e ∈ Preamble.define fns d) :
    e ∈ fns ∨ e = d := by
  unfold Preamble.define at h
  split at h
  · obtain ⟨d', hd', rfl⟩ := List.mem_map.1 h
    split
    · exact .inr rfl
    · exact .inl hd'
  · simpa using h

/-- Every function of a preamble comes from the analysis of a form in the core namespace. -/
theorem Preamble.mem_loadForms {forms : List Form} {env : Env} {fns fns' : List Defn}
    (h : Preamble.loadForms env fns forms = .ok fns') {d : Defn} (hd : d ∈ fns') :
    d ∈ fns ∨ ∃ f ∈ forms, ∃ e e', f.analyze e Env.coreNs = (e', .ok d.node) := by
  induction forms generalizing env fns with
  | nil =>
    cases h
    exact .inl hd
  | cons f forms ih =>
    rw [Preamble.loadForms] at h
    split at h
    · cases h
    · rename_i env' ns name params body hr
      obtain hd | ⟨g, hg, hanalyzed⟩ := ih h
      · rcases Preamble.mem_define hd with hd | rfl
        · exact .inl hd
        · exact .inr ⟨f, List.mem_cons_self, env, env', hr⟩
      · exact .inr ⟨g, List.mem_cons_of_mem _ hg, hanalyzed⟩
    · cases h

theorem Preamble.mem_load {p : Preamble} {fns : List Defn} (h : p.load = .ok fns) {d : Defn}
    (hd : d ∈ fns) : ∃ forms f e e', Form.readAll p.source = .ok forms ∧ f ∈ forms ∧
      f.analyze e Env.coreNs = (e', .ok d.node) := by
  rw [Preamble.load] at h
  split at h
  · cases h
  · rename_i forms hr
    obtain hnil | ⟨f, hf, e, e', hanalyzed⟩ := mem_loadForms h hd
    · cases hnil
    · exact ⟨forms, f, e, e', hr, hf, hanalyzed⟩

/-- The functions of a preamble are sound. -/
theorem Preamble.load_sound {p : Preamble} {fns : List Defn} (h : p.load = .ok fns)
    (hp : ∀ forms, Form.readAll p.source = .ok forms → ∀ f ∈ forms, f.AllSymbols Q) :
    ∀ d ∈ fns, AllSound Env.coreNs Q d.node := by
  intro d hd
  obtain ⟨forms, f, e, e', hr, hf, hanalyzed⟩ := mem_load h hd
  exact analyze_sound (congrArg Prod.snd hanalyzed) (hp forms hr f hf)

end WasmLisp
