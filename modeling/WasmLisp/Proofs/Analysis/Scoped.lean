import Mathlib
import WasmLisp.Proofs.Analysis.Declared
import WasmLisp.Proofs.Frame

/-!
# What analysed nodes may refer to

* `Node.Scoped`: an expression whose locals are bound around it, whose primitives have the arguments
  that they take, and whose vars are seen from the namespace as what they are used as;
* `Node.Stands`: a node at the top level, where definitions may stand and leave the environment with
  what they declare;
* `Analysis.Yields`: what a step of analysis gives in an environment, and the environment it leaves;
* `analyze_stands`: the analysis of a form gives a node that stands so, by one induction over forms.
-/

namespace WasmLisp

/-- A symbol stands for the var in the namespace. -/
def Env.Sees (e : Env) (ns : String) (v : Var) : Prop := ∃ text, e.resolved? ns text = some v

namespace Node

mutual

/-- The node is an expression without definitions. The names in scope are those of the parameters and
bindings around it, the innermost first; the vars are taken as the environment has them. -/
inductive Scoped (e : Env) (ns : String) : List String → Node → Prop where
  | const {scope : List String} (v : Int64) : Scoped e ns scope (.const v)
  | localVar {scope : List String} {name : String} (h : name ∈ scope) :
    Scoped e ns scope (.localVar name)
  | varRef {scope : List String} {v : Var} (hv : e.Sees ns v) (hkind : v.kind = .value) :
    Scoped e ns scope (.varRef v.ns v.name)
  | invoke {scope : List String} {v : Var} {args : List Node} (hv : e.Sees ns v)
    (hkind : v.kind = .fn) (harity : v.arity = args.length) (h : ScopedAll e ns scope args) :
    Scoped e ns scope (.invoke v.ns v.name args)
  | foreignCall {scope : List String} (name : String) {args : List Node}
    (h : ScopedAll e ns scope args) : Scoped e ns scope (.foreignCall name args)
  | foreignGet {scope : List String} (name : String) : Scoped e ns scope (.foreignGet name)
  | foreignSet {scope : List String} (name : String) {value : Node} (h : Scoped e ns scope value) :
    Scoped e ns scope (.foreignSet name value)
  | prim {scope : List String} {op : String} {args : List Node} {bounds : Nat × Option Nat}
    (hop : primArity? op = some bounds) (hfits : Analysis.arityFits bounds args.length = true)
    (h : ScopedAll e ns scope args) : Scoped e ns scope (.prim op args)
  | ifElse {scope : List String} {cond thenB elseB : Node} (hcond : Scoped e ns scope cond)
    (hthen : Scoped e ns scope thenB) (helse : Scoped e ns scope elseB) :
    Scoped e ns scope (.ifElse cond thenB elseB)
  | letIn {scope inner : List String} {bindings : List (String × Node)} {body : Node}
    (hbindings : ScopedBindings e ns scope bindings inner) (h : Scoped e ns inner body) :
    Scoped e ns scope (.letIn bindings body)
  | seq {scope : List String} {forms : List Node} (h : ScopedAll e ns scope forms) :
    Scoped e ns scope (.seq forms)

/-- The nodes are expressions in one scope. -/
inductive ScopedAll (e : Env) (ns : String) : List String → List Node → Prop where
  | nil {scope : List String} : ScopedAll e ns scope []
  | cons {scope : List String} {n : Node} {rest : List Node} (h : Scoped e ns scope n)
    (hrest : ScopedAll e ns scope rest) : ScopedAll e ns scope (n :: rest)

/-- Each value is scoped after the bindings before it; the second scope is the one after them all. -/
inductive ScopedBindings (e : Env) (ns : String) :
    List String → List (String × Node) → List String → Prop where
  | nil {scope : List String} : ScopedBindings e ns scope [] scope
  | cons {scope inner : List String} {name : String} {value : Node}
    {rest : List (String × Node)} (h : Scoped e ns scope value)
    (hrest : ScopedBindings e ns (name :: scope) rest inner) :
    ScopedBindings e ns scope ((name, value) :: rest) inner

end

mutual

/-- The node may stand at the top level of the namespace: it is an expression, a definition, or a
sequence of such nodes. The environments are those before and after it. -/
inductive Stands (ns : String) : Env → Node → Env → Prop where
  | expr {e : Env} {n : Node} (h : Scoped e ns [] n) : Stands ns e n e
  | bindVar {e : Env} (name : String) {init : Node} (h : Scoped e ns [] init) :
    Stands ns e (.bindVar ns name init) (e.intern ns name .value 0).1
  /-- The function is declared before its body, which sees its parameters only. -/
  | defn {e : Env} (name : String) (params : List String) {body : Node}
    (h : Scoped (e.intern ns name .fn params.length).1 ns params.reverse body) :
    Stands ns e (.defn ns name params body) (e.intern ns name .fn params.length).1
  | defGlobal {e : Env} (name : String) (init : Int64) : Stands ns e (.defGlobal name init) e
  | seq {e e' : Env} {forms : List Node} (h : StandsAll ns e forms e') :
    Stands ns e (.seq forms) e'

/-- The nodes may stand at the top level one after the other. -/
inductive StandsAll (ns : String) : Env → List Node → Env → Prop where
  | nil {e : Env} : StandsAll ns e [] e
  | cons {e e₁ e' : Env} {n : Node} {rest : List Node} (h : Stands ns e n e₁)
    (hrest : StandsAll ns e₁ rest e') : StandsAll ns e (n :: rest) e'

end

/-! ## Nodes below -/

mutual

/-- What is below an expression is an expression. -/
theorem Scoped.of_mem {e : Env} {ns : String} {scope : List String} {n m : Node}
    (h : Scoped e ns scope n) (hm : m ∈ n.flatten) : ∃ inner, Scoped e ns inner m := by
  cases h with
  | const v =>
    rw [flatten, List.mem_singleton] at hm
    · exact ⟨scope, hm ▸ .const v⟩
    all_goals simp
  | localVar h =>
    rw [flatten, List.mem_singleton] at hm
    · exact ⟨scope, hm ▸ .localVar h⟩
    all_goals simp
  | varRef hv hkind =>
    rw [flatten, List.mem_singleton] at hm
    · exact ⟨scope, hm ▸ .varRef hv hkind⟩
    all_goals simp
  | invoke hv hkind harity h =>
    rw [flatten, List.mem_cons] at hm
    exact hm.elim (fun heq => ⟨scope, heq ▸ .invoke hv hkind harity h⟩) h.of_mem
  | foreignCall name h =>
    rw [flatten, List.mem_cons] at hm
    exact hm.elim (fun heq => ⟨scope, heq ▸ .foreignCall name h⟩) h.of_mem
  | foreignGet name =>
    rw [flatten, List.mem_singleton] at hm
    · exact ⟨scope, hm ▸ .foreignGet name⟩
    all_goals simp
  | foreignSet name h =>
    rw [flatten, List.mem_cons] at hm
    exact hm.elim (fun heq => ⟨scope, heq ▸ .foreignSet name h⟩) h.of_mem
  | prim hop hfits h =>
    rw [flatten, List.mem_cons] at hm
    exact hm.elim (fun heq => ⟨scope, heq ▸ .prim hop hfits h⟩) h.of_mem
  | ifElse hcond hthen helse =>
    rw [flatten, List.mem_cons, List.mem_append, List.mem_append] at hm
    rcases hm with heq | (hm | hm) | hm
    · exact ⟨scope, heq ▸ .ifElse hcond hthen helse⟩
    · exact hcond.of_mem hm
    · exact hthen.of_mem hm
    · exact helse.of_mem hm
  | letIn hbindings h =>
    rw [flatten, List.mem_cons, List.mem_append] at hm
    rcases hm with heq | hm | hm
    · exact ⟨scope, heq ▸ .letIn hbindings h⟩
    · exact hbindings.of_mem hm
    · exact h.of_mem hm
  | seq h =>
    rw [flatten, List.mem_cons] at hm
    exact hm.elim (fun heq => ⟨scope, heq ▸ .seq h⟩) h.of_mem

theorem ScopedAll.of_mem {e : Env} {ns : String} {scope : List String} {nodes : List Node}
    {m : Node} (h : ScopedAll e ns scope nodes) (hm : m ∈ flattenAll nodes) :
    ∃ inner, Scoped e ns inner m := by
  cases h with
  | nil => exact absurd hm List.not_mem_nil
  | cons h hrest =>
    rw [flattenAll, List.mem_append] at hm
    exact hm.elim h.of_mem hrest.of_mem

theorem ScopedBindings.of_mem {e : Env} {ns : String} {scope inner : List String}
    {bindings : List (String × Node)} {m : Node} (h : ScopedBindings e ns scope bindings inner)
    (hm : m ∈ flattenBindings bindings) : ∃ inner, Scoped e ns inner m := by
  cases h with
  | nil => exact absurd hm List.not_mem_nil
  | cons h hrest =>
    rw [flattenBindings, List.mem_append] at hm
    exact hm.elim h.of_mem hrest.of_mem

end

/-- The node is part of what stands at the top level, in an environment that has the property. -/
def Part (I : Env → Prop) (ns : String) (m : Node) : Prop :=
  ∃ e, I e ∧ ((∃ e', Stands ns e m e') ∨ ∃ scope, Scoped e ns scope m)

section

variable {I : Env → Prop} {ns : String}

mutual

/-- What declarations keep true of the environment is true wherever a node below stands. -/
theorem Stands.parts (hI : ∀ e name kind arity, I e → I (e.intern ns name kind arity).1)
    {e e' : Env} {n : Node} (h : Stands ns e n e') (he : I e) :
    I e' ∧ ∀ m ∈ n.flatten, Part I ns m := by
  cases h with
  | expr h => exact ⟨he, fun m hm => ⟨e, he, .inr (h.of_mem hm)⟩⟩
  | bindVar name h =>
    refine ⟨hI e name .value 0 he, fun m hm => ?_⟩
    rw [flatten, List.mem_cons] at hm
    rcases hm with rfl | hm
    · exact ⟨e, he, .inl ⟨_, .bindVar name h⟩⟩
    · exact ⟨e, he, .inr (h.of_mem hm)⟩
  | defn name params h =>
    have he' := hI e name .fn params.length he
    refine ⟨he', fun m hm => ?_⟩
    rw [flatten, List.mem_cons] at hm
    rcases hm with rfl | hm
    · exact ⟨e, he, .inl ⟨_, .defn name params h⟩⟩
    · exact ⟨_, he', .inr (h.of_mem hm)⟩
  | defGlobal name init =>
    refine ⟨he, fun m hm => ?_⟩
    rw [flatten, List.mem_singleton] at hm
    · subst hm
      exact ⟨e, he, .inl ⟨_, .defGlobal name init⟩⟩
    all_goals simp
  | seq h =>
    obtain ⟨he', hparts⟩ := h.parts hI he
    refine ⟨he', fun m hm => ?_⟩
    rw [flatten, List.mem_cons] at hm
    rcases hm with rfl | hm
    · exact ⟨e, he, .inl ⟨_, .seq h⟩⟩
    · exact hparts m hm

theorem StandsAll.parts (hI : ∀ e name kind arity, I e → I (e.intern ns name kind arity).1)
    {e e' : Env} {nodes : List Node} (h : StandsAll ns e nodes e') (he : I e) :
    I e' ∧ ∀ m ∈ flattenAll nodes, Part I ns m := by
  cases h with
  | nil => exact ⟨he, fun m hm => absurd hm List.not_mem_nil⟩
  | cons h hrest =>
    obtain ⟨he₁, hparts⟩ := h.parts hI he
    obtain ⟨he', hmore⟩ := hrest.parts hI he₁
    refine ⟨he', fun m hm => ?_⟩
    rw [flattenAll, List.mem_append] at hm
    exact hm.elim (hparts m) (hmore m)

end

/-- The body of a function sees its parameters. -/
theorem Part.body {ns' name : String} {params : List String} {body : Node}
    (h : Part I ns (.defn ns' name params body)) :
    ∃ e, body.Scoped e ns params.reverse := by
  obtain ⟨e, -, ⟨e', h⟩ | ⟨scope, h⟩⟩ := h
  · cases h with
    | expr h => cases h
    | defn name params h => exact ⟨_, h⟩
  · cases h

/-- A call is one of a function of that many parameters, as the environment has it. -/
theorem Part.call {ns' name : String} {args : List Node} (h : Part I ns (.invoke ns' name args)) :
    ∃ e v, I e ∧ e.Sees ns v ∧ v.ns = ns' ∧ v.name = name ∧ v.kind = .fn ∧
      v.arity = args.length := by
  have hscoped : ∃ e scope, I e ∧ Scoped e ns scope (.invoke ns' name args) := by
    obtain ⟨e, he, ⟨e', h⟩ | ⟨scope, h⟩⟩ := h
    · cases h with
      | expr h => exact ⟨e, [], he, h⟩
    · exact ⟨e, scope, he, h⟩
  obtain ⟨e, scope, he, h⟩ := hscoped
  cases h with
  | invoke hv hkind harity => exact ⟨e, _, he, hv, rfl, rfl, hkind, harity⟩

end

end Node

namespace Analysis

open Node (Scoped ScopedAll ScopedBindings Stands StandsAll)

variable {α β : Type} {env : Env} {ns : String} {scope : Scope} {top : Bool}

/-! ## Steps of analysis -/

/-- What the step gives in the environment, and the environment that it leaves. -/
def Yields (env : Env) (x : Run α) (P : α → Env → Prop) : Prop :=
  ∀ a env', x.run.run env = (.ok a, env') → P a env'

namespace Yields

variable {P : α → Env → Prop} {R : β → Env → Prop}

theorem pure {a : α} (h : P a env) : Yields env (Pure.pure a : Run α) P := by
  intro b env' hb
  cases hb
  exact h

theorem refuse (line : Nat) (reason : Reason) :
    Yields env (Analysis.refuse line reason : Run α) P := by
  intro b env' hb
  cases hb

theorem bind {x : Run α} {f : α → Run β} (hx : Yields env x P)
    (hf : ∀ a env', P a env' → Yields env' (f a) R) : Yields env (x >>= f) R := by
  intro b env' hb
  rw [run_bind] at hb
  cases hr : x.run.run env with
  | mk r env₁ =>
    rw [hr] at hb
    cases r with
    | error e => cases hb
    | ok a => exact hf a env₁ (hx a env₁ hr) b env' hb

/-- Nothing comes after a fault. -/
theorem refused (line : Nat) (reason : Reason) {f : α → Run β} :
    Yields env (Analysis.refuse line reason >>= f) R :=
  (refuse (P := fun _ _ => False) line reason).bind fun _ _ h => h.elim

/-- A step that leaves the environment alone, and what follows it. -/
theorem after {x : Run α} {f : α → Run β} (hx : Quiet x) (hf : ∀ a, Yields env (f a) R) :
    Yields env (x >>= f) R := by
  have hsame : Yields env x fun _ env' => env' = env := by
    intro a env' ha
    have henv := hx env
    rwa [ha] at henv
  refine hsame.bind fun a env' h => ?_
  rw [h]
  exact hf a

end Yields

theorem resolve_yields (s : Symbol) (line : Nat) :
    Yields env (resolve ns s line) fun v env' => env' = env ∧ env.Sees ns v := by
  intro v env' h
  rw [run_resolve] at h
  cases hv : env.resolved? ns s.text with
  | none =>
    rw [hv] at h
    cases h
  | some w =>
    rw [hv] at h
    cases h
    exact ⟨rfl, s.text, hv⟩

theorem declare_yields (name : String) (kind : VarKind) (arity : Nat) :
    Yields env (declare ns name kind arity) fun _ env' =>
      env' = (env.intern ns name kind arity).1 := by
  intro a env' h
  cases h
  rfl

/-! ## Where nodes stand -/

/-- How a node may stand where a form does: at the top level, or below with what is in scope there. -/
def At (ns : String) (scope : Scope) : Bool → Env → Node → Env → Prop
  | true, e, n, e' => n.Stands ns e e'
  | false, e, n, e' => e' = e ∧ n.Scoped e ns scope.names

/-- How nodes may stand one after the other where forms do. -/
def AllAt (ns : String) (scope : Scope) : Bool → Env → List Node → Env → Prop
  | true, e, nodes, e' => StandsAll ns e nodes e'
  | false, e, nodes, e' => e' = e ∧ ScopedAll e ns scope.names nodes

/-- Expressions may stand anywhere. At the top level nothing is in scope. -/
theorem at_of_scoped (htop : top = true → scope.names = []) {n : Node}
    (h : n.Scoped env ns scope.names) : At ns scope top env n env := by
  cases top with
  | true =>
    rw [htop rfl] at h
    exact .expr h
  | false => exact ⟨rfl, h⟩

theorem allAt_nil : AllAt ns scope top env [] env := by
  cases top with
  | true => exact StandsAll.nil
  | false => exact ⟨rfl, .nil⟩

theorem AllAt.cons {e e₁ e' : Env} {n : Node} {nodes : List Node} (h : At ns scope top e n e₁)
    (hrest : AllAt ns scope top e₁ nodes e') : AllAt ns scope top e (n :: nodes) e' := by
  cases top with
  | true => exact StandsAll.cons h hrest
  | false =>
    obtain ⟨rfl, hn⟩ := h
    obtain ⟨rfl, hnodes⟩ := hrest
    exact ⟨rfl, .cons hn hnodes⟩

theorem AllAt.seq {e e' : Env} {nodes : List Node} (h : AllAt ns scope top e nodes e') :
    At ns scope top e (.seq nodes) e' := by
  cases top with
  | true => exact .seq h
  | false => exact ⟨h.1, .seq h.2⟩

/-- A definition is let through at the top level only. -/
theorem top_of_atTop (h : ¬ (!scope.atTop top) = true) : top = true := by
  simp only [Scope.atTop, Bool.not_eq_true, Bool.not_eq_false', Bool.and_eq_true] at h
  exact h.1.1

/-! ## Parts of forms -/

theorem symbol_yields (s : Symbol) (line : Nat) (htop : top = true → scope.names = []) :
    Yields env (symbol ns scope s line) fun n env' => At ns scope top env n env' := by
  unfold symbol
  split
  · exact .pure (at_of_scoped htop (.const 0))
  split
  · exact .pure (at_of_scoped htop (.const 1))
  split
  · rename_i hlocal
    have hin : s.name ∈ scope.names := by
      simp only [Scope.has, Bool.and_eq_true, List.contains_eq_mem, decide_eq_true_eq] at hlocal
      exact hlocal.2
    exact .pure (at_of_scoped htop (.localVar hin))
  split
  · exact .pure (at_of_scoped htop (.foreignGet s.name))
  refine (resolve_yields s line).bind fun v env' h => ?_
  obtain ⟨rfl, hv⟩ := h
  split
  · exact .refuse _ _
  · rename_i hkind
    have hvalue : v.kind = .value := by
      cases hk : v.kind with
      | value => rfl
      | fn => exact absurd hk hkind
    exact .pure (at_of_scoped htop (.varRef hv hvalue))

theorem call_yields (head : Symbol) (headLine line : Nat) (htop : top = true → scope.names = [])
    {args : List Node} (h : ScopedAll env ns scope.names args) :
    Yields env (call ns scope head headLine line args) fun n env' => At ns scope top env n env' := by
  unfold call
  split
  · exact .pure (at_of_scoped htop (.foreignCall head.name h))
  split
  · exact .refuse _ _
  refine (resolve_yields head headLine).bind fun v env' hv => ?_
  obtain ⟨rfl, hv⟩ := hv
  split
  · exact .refuse _ _
  rename_i hkind
  split
  · exact .refuse _ _
  rename_i harity
  exact .pure (at_of_scoped htop (.invoke hv (not_not.mp hkind) (not_not.mp harity) h))

theorem scoped_body {names : List String} {nodes : List Node}
    (h : ScopedAll env ns names nodes) : (body nodes).Scoped env ns names := by
  match nodes, h with
  | [], _ => exact .const 0
  | [n], .cons h _ => exact h
  | n :: m :: nodes, h => exact .seq h

/-! ## Forms -/

theorem defGlobal_yields (line : Nat) (args : List Form) :
    Yields env (defGlobal line top args) fun n env' => At ns scope top env n env' := by
  unfold defGlobal
  dsimp only
  split
  · exact .refused _ _
  rename_i htop
  obtain rfl : top = true := by simpa using htop
  refine .after (defName_quiet line "defglobal" args) fun name => ?_
  split
  · exact .pure (.defGlobal name 0)
  · exact .pure (.defGlobal name _)
  · exact .refuse _ _
  · exact .refuse _ _

mutual

/-- The node of a form stands as the form does. -/
theorem form_yields : ∀ (f : Form) (scope : Scope) (top : Bool) (env : Env),
    (top = true → scope.names = []) →
    Yields env (form ns scope top f) fun n env' => At ns scope top env n env'
  | .int v _, scope, top, env, htop => by
    rw [form]
    exact .pure (at_of_scoped htop (.const v))
  | .sym s line, scope, top, env, htop => by
    rw [form]
    exact symbol_yields s line htop
  | .keyword name line, scope, top, env, htop => by
    rw [form]
    exact .refuse _ _
  | .vector items line, scope, top, env, htop => by
    rw [form]
    exact .refuse _ _
  | .list [] line, scope, top, env, htop => by
    rw [form]
    exact .pure (at_of_scoped htop (.const 0))
  | .list (.sym head headLine :: args) line, scope, top, env, htop => by
    unfold form
    split
    · split
      · -- `def`, whose value is an expression
        dsimp only
        split
        · exact .refused _ _
        rename_i hTop
        obtain rfl : top = true := top_of_atTop hTop
        refine .after (defName_quiet _ _ _) fun name => ?_
        split
        · rename_i value
          refine (form_yields value scope false env nofun).bind fun init env₁ hinit => ?_
          obtain ⟨rfl, hinit⟩ := hinit
          rw [htop rfl] at hinit
          refine (declare_yields name .value 0).bind fun _ env' henv => ?_
          subst henv
          exact .pure (.bindVar name hinit)
        · exact .refuse _ _
      · -- `defn`, whose body sees the function and its parameters
        dsimp only
        split
        · exact .refused _ _
        rename_i hTop
        obtain rfl : top = true := top_of_atTop hTop
        refine .after (defName_quiet _ _ _) fun name => ?_
        split
        · rename_i items vecLine forms
          refine .after (params_quiet _ _ _) fun ps => ?_
          refine (declare_yields name .fn ps.length).bind fun _ env₁ henv => ?_
          subst henv
          refine (forms_yields forms _ false _ nofun).bind fun nodes env' hnodes => ?_
          obtain ⟨-, rfl, hnodes⟩ := hnodes
          exact .pure (.defn name ps (scoped_body hnodes))
        · exact .refuse _ _
        · exact .refuse _ _
      · exact defGlobal_yields line _
      · exact .refuse _ _
      · -- `let` with a vector of bindings
        rename_i items vecLine forms _
        dsimp only
        split
        · exact .refused _ _
        refine (bindings_yields items scope vecLine env).bind fun r env₁ hr => ?_
        obtain ⟨rfl, hr⟩ := hr
        refine (forms_yields forms r.2 false env₁ nofun).bind fun nodes env' hnodes => ?_
        obtain ⟨-, rfl, hnodes⟩ := hnodes
        exact .pure (at_of_scoped htop (.letIn hr (scoped_body hnodes)))
      · exact .refuse _ _
      · -- `if`
        dsimp only
        split
        · exact .refused _ _
        refine (forms_yields _ scope false env nofun).bind fun nodes env' hnodes => ?_
        obtain ⟨-, rfl, hnodes⟩ := hnodes
        split
        · obtain _ | ⟨hcond, _ | ⟨hthen, -⟩⟩ := hnodes
          exact .pure (at_of_scoped htop (.ifElse hcond hthen (.const 0)))
        · obtain _ | ⟨hcond, _ | ⟨hthen, _ | ⟨helse, -⟩⟩⟩ := hnodes
          exact .pure (at_of_scoped htop (.ifElse hcond hthen helse))
        · exact .refuse _ _
      · -- `do`, whose forms stand where it stands
        refine (forms_yields _ scope top env htop).bind fun nodes env' hnodes => ?_
        exact .pure (AllAt.seq hnodes.2)
      · -- `set!` of a symbol
        rename_i target _ value _
        dsimp only
        split
        · exact .refused _ _
        refine (form_yields value scope false env nofun).bind fun v env' hv => ?_
        obtain ⟨rfl, hv⟩ := hv
        exact .pure (at_of_scoped htop (.foreignSet _ hv))
      · exact .refuse _ _
      · exact .refuse _ _
      · exact .refuse _ _
      · -- a primitive or a call
        dsimp only
        split
        · exact .refused _ _
        split
        · rename_i bounds hbounds
          split
          · exact .refused _ _
          rename_i hfits
          refine (forms_yields _ scope false env nofun).bind fun nodes env' hnodes => ?_
          obtain ⟨hlength, rfl, hnodes⟩ := hnodes
          refine .pure (at_of_scoped htop (.prim hbounds ?_ hnodes))
          rw [hlength]
          simpa using hfits
        · refine (forms_yields _ scope false env nofun).bind fun nodes env₁ hnodes => ?_
          obtain ⟨-, rfl, hnodes⟩ := hnodes
          exact call_yields head headLine line htop hnodes
    · refine (forms_yields args scope false env nofun).bind fun nodes env₁ hnodes => ?_
      obtain ⟨-, rfl, hnodes⟩ := hnodes
      exact call_yields head headLine line htop hnodes
  | .list (.int v l :: args) line, scope, top, env, htop => by
    rw [form]
    · exact .refuse _ _
    · simp
  | .list (.keyword v l :: args) line, scope, top, env, htop => by
    rw [form]
    · exact .refuse _ _
    · simp
  | .list (.list v l :: args) line, scope, top, env, htop => by
    rw [form]
    · exact .refuse _ _
    · simp
  | .list (.vector v l :: args) line, scope, top, env, htop => by
    rw [form]
    · exact .refuse _ _
    · simp
termination_by f => sizeOf f

theorem forms_yields : ∀ (fs : List Form) (scope : Scope) (top : Bool) (env : Env),
    (top = true → scope.names = []) →
    Yields env (forms' ns scope top fs) fun nodes env' =>
      nodes.length = fs.length ∧ AllAt ns scope top env nodes env'
  | [], scope, top, env, htop => by
    rw [forms']
    exact .pure ⟨rfl, allAt_nil⟩
  | f :: fs, scope, top, env, htop => by
    rw [forms']
    refine (form_yields f scope top env htop).bind fun n env₁ hn => ?_
    refine (forms_yields fs scope top env₁ htop).bind fun nodes env' hnodes => ?_
    exact .pure ⟨congrArg (· + 1) hnodes.1, AllAt.cons hn hnodes.2⟩
termination_by fs => sizeOf fs

theorem bindings_yields : ∀ (fs : List Form) (scope : Scope) (line : Nat) (env : Env),
    Yields env (bindings ns scope line fs) fun r env' =>
      env' = env ∧ ScopedBindings env ns scope.names r.1 r.2.names
  | .sym s l :: value :: rest, scope, line, env => by
    rw [bindings]
    dsimp only
    split
    · exact .refused _ _
    refine (form_yields value scope false env nofun).bind fun v env₁ hv => ?_
    obtain ⟨rfl, hv⟩ := hv
    refine (bindings_yields rest (scope.push s.name) line env₁).bind fun r env' hr => ?_
    obtain ⟨rfl, hr⟩ := hr
    exact .pure ⟨rfl, .cons hv hr⟩
  | [], scope, line, env => by
    rw [bindings]
    exact .pure ⟨rfl, .nil⟩
  | [f], scope, line, env => by
    rw [bindings]
    · exact .refuse _ _
    all_goals simp
  | .int _ _ :: _ :: _, scope, line, env | .keyword _ _ :: _ :: _, scope, line, env
  | .list _ _ :: _ :: _, scope, line, env | .vector _ _ :: _ :: _, scope, line, env => by
    rw [bindings]
    · exact .refuse _ _
    all_goals simp
termination_by fs => sizeOf fs

end

end Analysis

/-- The node of a form stands at the top level, between the environments before and after. -/
theorem analyze_stands {env env' : Env} {ns : String} {f : Form} {n : Node}
    (h : f.analyze env ns = (env', .ok n)) : n.Stands ns env env' := by
  unfold Form.analyze at h
  cases hr : (Analysis.topLevel ns f).run.run env with
  | mk r env₁ =>
    rw [hr] at h
    obtain ⟨henv, hok⟩ := Prod.mk.inj h
    subst henv
    cases r with
    | error e => cases hok
    | ok m =>
      cases hok
      exact Analysis.form_yields f {} true env (fun _ => rfl) n env₁ hr

/-- The functions of a preamble come from forms in the core namespace. -/
theorem Preamble.mem_functions {p : Preamble} {d : Defn} (h : d ∈ p.functions) :
    ∃ (f : Form) (env env' : Env), f.analyze env Env.coreNs = (env', .ok d.node) := by
  unfold functions at h
  split at h
  · rename_i fns hload
    obtain ⟨-, f, env, env', -, -, hanalyzed⟩ := mem_load hload h
    exact ⟨f, env, env', hanalyzed⟩
  · exact absurd h List.not_mem_nil

end WasmLisp
