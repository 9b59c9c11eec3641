import Mathlib
import WasmLisp.Proofs.Analysis
import WasmLisp.Proofs.Directory

/-!
# What analysis declares

Analysis declares a var wherever it gives a node that defines one, and definitions stand only at the
top of a form or in the sequences there.

* `Node.definitions`: the vars that nodes define, wherever the definitions stand;
* `Node.Orderly`: the definitions all stand in the spine, which is run from one end to the other;
* `Node.declarations`: the vars that are declared for the spine in order, with their kinds and arities;
* `Analysis.Declares`: what a step of analysis declares;
* `Form.analyze_declared`: the environment after the analysis of a form, by one induction over it;
* `analyze_declares`: what that means for its directory.
-/

namespace WasmLisp

/-! ## Declarations -/

/-- A var is declared, with its kind and arity. -/
structure Declaration where
  ns : String
  name : String
  kind : VarKind
  arity : Int
  deriving DecidableEq, Repr

/-- The namespace and the name of the var. -/
def Declaration.var (d : Declaration) : String × String := (d.ns, d.name)

namespace Env

/-- Declares vars one after the other. -/
def declared (e : Env) (ds : List Declaration) : Env :=
  ds.foldl (fun e d => (e.intern d.ns d.name d.kind d.arity).1) e

theorem declared_append (e : Env) (ds ds' : List Declaration) :
    e.declared (ds ++ ds') = (e.declared ds).declared ds' := List.foldl_append

theorem directory_declared (e : Env) (ds : List Declaration) :
    (e.declared ds).directory = e.directory.declare {q | ∃ d ∈ ds, d.var = q} := by
  induction ds generalizing e with
  | nil => simp [declared]
  | cons d ds ih =>
    have hstep : e.declared (d :: ds) = (e.intern d.ns d.name d.kind d.arity).1.declared ds := rfl
    rw [hstep, ih, directory_intern, Directory.declare_declare]
    congr 1
    ext q
    simp [Declaration.var, eq_comm]

end Env

namespace Node

/-! ## Definitions -/

/-- The namespace and the name of the var that a node defines. -/
def defined? : Node → Option (String × String)
  | .bindVar ns name _ => some (ns, name)
  | .defn ns name _ _ => some (ns, name)
  | _ => none

/-- What is declared for a node that defines a var. -/
def declaration? : Node → Option Declaration
  | .bindVar ns name _ => some { ns, name, kind := .value, arity := 0 }
  | .defn ns name params _ => some { ns, name, kind := .fn, arity := params.length }
  | _ => none

theorem defined?_eq (n : Node) : n.defined? = n.declaration?.map (·.var) := by
  cases n <;> rfl

/-- The vars that nodes define, at the top and below. -/
def definitions (nodes : List Node) : Set (String × String) :=
  {q | ∃ m ∈ flattenAll nodes, m.defined? = some q}

mutual

/-- The nodes that are run whenever the node is, sequences taken apart. -/
def spine : Node → List Node
  | .seq forms => spineAll forms
  | n => [n]

def spineAll : List Node → List Node
  | [] => []
  | n :: rest => n.spine ++ spineAll rest

end

/-- All definitions stand in the spine. -/
def Orderly (nodes : List Node) : Prop :=
  ∀ m ∈ flattenAll nodes, m.defined? ≠ none → m ∈ spineAll nodes

/-- What is declared for nodes, in order. -/
def declarations (nodes : List Node) : List Declaration := (spineAll nodes).filterMap declaration?

variable {nodes more : List Node}

@[simp] theorem definitions_nil : definitions [] = ∅ := by
  simp [definitions, flattenAll]

theorem definitions_append (nodes more : List Node) :
    definitions (nodes ++ more) = definitions nodes ∪ definitions more := by
  ext q
  simp only [definitions, flattenAll_append, List.mem_append, Set.mem_union, Set.mem_ofPred_eq]
  constructor
  · rintro ⟨m, hm | hm, hq⟩
    · exact .inl ⟨m, hm, hq⟩
    · exact .inr ⟨m, hm, hq⟩
  · rintro (⟨m, hm, hq⟩ | ⟨m, hm, hq⟩)
    · exact ⟨m, .inl hm, hq⟩
    · exact ⟨m, .inr hm, hq⟩

theorem spineAll_append (nodes more : List Node) :
    spineAll (nodes ++ more) = spineAll nodes ++ spineAll more := by
  induction nodes with
  | nil => rfl
  | cons n nodes ih => simp only [List.cons_append, spineAll, ih, List.append_assoc]

theorem declarations_append (nodes more : List Node) :
    declarations (nodes ++ more) = declarations nodes ++ declarations more := by
  simp only [declarations, spineAll_append, List.filterMap_append]

mutual

/-- What is declared for the spine is defined. -/
theorem mem_flatten_of_mem_spine {m : Node} (hm : m.declaration? ≠ none) : ∀ {n : Node},
    m ∈ n.spine → m ∈ n.flatten
  | .seq forms, h => by
    rw [spine] at h
    rw [flatten]
    exact List.mem_cons_of_mem _ (mem_flattenAll_of_mem_spineAll hm h)
  | .absent, h => by
    obtain rfl := List.mem_singleton.mp h
    exact absurd rfl hm
  | .const _, h | .localVar _, h | .varRef _ _, h | .foreignGet _, h | .defGlobal _ _, h => by
    obtain rfl := List.mem_singleton.mp h
    exact absurd rfl hm
  | .bindVar _ _ _, h | .defn _ _ _ _, h | .invoke _ _ _, h | .foreignCall _ _, h | .foreignSet _ _, h
  | .prim _ _, h | .ifElse _ _ _, h | .letIn _ _, h => by
    obtain rfl := List.mem_singleton.mp h
    rw [flatten]
    exact List.mem_cons_self

theorem mem_flattenAll_of_mem_spineAll {m : Node} (hm : m.declaration? ≠ none) :
    ∀ {nodes : List Node}, m ∈ spineAll nodes → m ∈ flattenAll nodes
  | [], h => absurd h List.not_mem_nil
  | n :: nodes, h => by
    rw [spineAll, List.mem_append] at h
    rw [flattenAll, List.mem_append]
    exact h.imp (mem_flatten_of_mem_spine hm) (mem_flattenAll_of_mem_spineAll hm)

end

/-- If all definitions stand in the spine, the vars that are declared for it are those that are defined. -/
theorem Orderly.definitions (h : Orderly nodes) :
    definitions nodes = {q | ∃ d ∈ declarations nodes, d.var = q} := by
  ext q
  constructor
  · rintro ⟨m, hm, hq⟩
    have hspine := h m hm (by rw [hq]; exact Option.some_ne_none q)
    rw [defined?_eq] at hq
    obtain ⟨d, hd, rfl⟩ := Option.map_eq_some_iff.mp hq
    exact ⟨d, List.mem_filterMap.mpr ⟨m, hspine, hd⟩, rfl⟩
  · rintro ⟨d, hd, rfl⟩
    obtain ⟨m, hm, hdeclared⟩ := List.mem_filterMap.mp hd
    refine ⟨m, mem_flattenAll_of_mem_spineAll (by rw [hdeclared]; exact Option.some_ne_none d) hm, ?_⟩
    rw [defined?_eq, hdeclared]
    rfl

theorem orderly_nil : Orderly [] := by simp [Orderly, flattenAll]

theorem Orderly.append (h : Orderly nodes) (h' : Orderly more) : Orderly (nodes ++ more) := by
  intro m hm hdefined
  rw [flattenAll_append, List.mem_append] at hm
  rw [spineAll_append, List.mem_append]
  exact hm.imp (h m · hdefined) (h' m · hdefined)

/-- Nodes without definitions. -/
def Plain (nodes : List Node) : Prop := ∀ m ∈ flattenAll nodes, m.defined? = none

theorem Plain.declarations (h : Plain nodes) : declarations nodes = [] := by
  refine List.filterMap_eq_nil_iff.mpr fun m hm => ?_
  by_contra hne
  have hdefined := h m (mem_flattenAll_of_mem_spineAll hne hm)
  rw [defined?_eq, Option.map_eq_none_iff] at hdefined
  exact hne hdefined

theorem Plain.orderly (h : Plain nodes) : Orderly nodes := fun m hm hne => absurd (h m hm) hne

theorem Plain.append (h : Plain nodes) (h' : Plain more) : Plain (nodes ++ more) := by
  intro m hm
  rw [flattenAll_append, List.mem_append] at hm
  exact hm.elim (h m) (h' m)

theorem flattenAll_singleton (n : Node) : flattenAll [n] = n.flatten := by
  simp [flattenAll]

/-- A node that defines nothing is plain if what is below it is. -/
theorem plain_of_below {n : Node} {below : List Node} (hf : n.flatten = n :: below)
    (hn : n.defined? = none) (h : ∀ m ∈ below, m.defined? = none) : Plain [n] := by
  intro m hm
  rw [flattenAll_singleton, hf] at hm
  rcases List.mem_cons.1 hm with rfl | hm
  · exact hn
  · exact h m hm

/-- A definition whose parts define nothing stands in the spine. -/
theorem orderly_of_below {n : Node} {below : List Node} (hf : n.flatten = n :: below)
    (hs : n.spine = [n]) (h : ∀ m ∈ below, m.defined? = none) : Orderly [n] := by
  intro m hm hne
  rw [flattenAll_singleton, hf] at hm
  rcases List.mem_cons.1 hm with rfl | hm
  · simp [spineAll, hs]
  · exact absurd (h m hm) hne

theorem declarations_seq (nodes : List Node) : declarations [.seq nodes] = declarations nodes := by
  simp only [declarations, spineAll, spine, List.append_nil]

theorem Orderly.seq (h : Orderly nodes) : Orderly [.seq nodes] := by
  intro m hm hne
  rw [flattenAll_singleton, flatten] at hm
  rcases List.mem_cons.1 hm with rfl | hm
  · exact absurd rfl hne
  · simpa [spineAll, spine] using h m hm hne

theorem Plain.seq (h : Plain nodes) : Plain [.seq nodes] :=
  plain_of_below (by rw [flatten]) rfl h

end Node

namespace Analysis

open Node (declarations Orderly Plain flattenAll_singleton)

variable {α β : Type}

/-! ## Steps that declare -/

/-- Whatever the step gives, it declares vars that go with it. -/
def Declares (x : Run α) (P : α → List Declaration → Prop) : Prop :=
  ∀ env a env', x.run.run env = (.ok a, env') →
    ∃ V, env' = env.declared V ∧ P a V

theorem Declares.pure {P : α → List Declaration → Prop} {a : α} (h : P a []) :
    Declares (Pure.pure a : Run α) P := by
  rintro env b env' hb
  cases hb
  exact ⟨[], rfl, h⟩

theorem Declares.refuse {P : α → List Declaration → Prop} (line : Nat) (reason : Reason) :
    Declares (Analysis.refuse line reason : Run α) P := by
  rintro env b env' hb
  cases hb

theorem Declares.bind {P : α → List Declaration → Prop} {R : β → List Declaration → Prop}
    {x : Run α} {f : α → Run β} (hx : Declares x P)
    (hf : ∀ a V, P a V → Declares (f a) fun b W => R b (V ++ W)) : Declares (x >>= f) R := by
  rintro env b env₂ hb
  rw [run_bind] at hb
  cases hr : x.run.run env with
  | mk r env₁ =>
    rw [hr] at hb
    cases r with
    | error e => cases hb
    | ok a =>
      obtain ⟨V, hV, hP⟩ := hx env a env₁ hr
      obtain ⟨W, hW, hR⟩ := hf a V hP env₁ b env₂ hb
      exact ⟨V ++ W, by rw [hW, hV, Env.declared_append], hR⟩

/-- Nothing comes after a fault. -/
theorem Declares.refused {R : β → List Declaration → Prop} (line : Nat) (reason : Reason)
    {f : α → Run β} : Declares (Analysis.refuse line reason >>= f) R :=
  (Declares.refuse (P := fun _ _ => False) line reason).bind fun _ _ h => h.elim

/-- A step that leaves the environment alone. -/
def Quiet (x : Run α) : Prop := ∀ env, (x.run.run env).2 = env

theorem Quiet.pure (a : α) : Quiet (Pure.pure a : Run α) := fun _ => rfl

theorem Quiet.refuse (line : Nat) (reason : Reason) : Quiet (Analysis.refuse line reason : Run α) :=
  fun _ => rfl

theorem Quiet.bind {x : Run α} {f : α → Run β} (hx : Quiet x) (hf : ∀ a, Quiet (f a)) :
    Quiet (x >>= f) := by
  intro env
  have hsame := hx env
  rw [run_bind]
  cases hr : x.run.run env with
  | mk r env₁ =>
    rw [hr] at hsame
    cases r with
    | error e => exact hsame
    | ok a => exact (hf a env₁).trans hsame

/-- A step that leaves the environment alone declares nothing. -/
theorem Quiet.declares {x : Run α} (hx : Quiet x) {P : α → Prop} (hP : Gives x P) :
    Declares x fun a V => V = [] ∧ P a := by
  intro env a env' h
  have hsame := hx env
  rw [h] at hsame
  exact ⟨[], hsame, rfl, hP env a (by rw [h])⟩

theorem Quiet.andThen {x : Run α} {f : α → Run β} {R : β → List Declaration → Prop}
    (hx : Quiet x) (hf : ∀ a, Declares (f a) R) : Declares (x >>= f) R :=
  (hx.declares (Gives.any x)).bind fun a V h => by
    obtain ⟨rfl, -⟩ := h
    exact hf a

theorem declare_declares (ns name : String) (kind : VarKind) (arity : Nat) :
    Declares (declare ns name kind arity) fun _ V => V = [{ ns, name, kind, arity }] := by
  intro env a env' h
  cases h
  exact ⟨_, rfl, rfl⟩

/-! ## Parts of forms -/

theorem resolve_quiet (ns : String) (s : Symbol) (line : Nat) : Quiet (resolve ns s line) := by
  intro env
  rw [run_resolve]
  cases env.resolved? ns s.text <;> rfl

theorem params_quiet (line : Nat) (seen : List String) (items : List Form) :
    Quiet (params line seen items) := by
  induction items generalizing seen with
  | nil => exact .pure _
  | cons f items ih =>
    unfold params
    split
    · rename_i heq
      cases heq
    · rename_i heq
      cases heq
      split
      · exact .refuse _ _
      split
      · exact .refuse _ _
      · exact (ih _).bind fun _ => .pure _
    · exact .refuse _ _

theorem defName_quiet (line : Nat) (head : String) (args : List Form) :
    Quiet (defName line head args) := by
  unfold defName
  split
  · exact .refuse _ _
  · split
    · exact .pure _
    · exact .refuse _ _
  · exact .refuse _ _

/-- What the analysis of forms gives and declares: the vars that the nodes define, all of which stand in
the spine; away from the top there are none. -/
structure Fits (atTop : Bool) (nodes : List Node) (V : List Declaration) : Prop where
  declared : V = declarations nodes
  orderly : Orderly nodes
  plain : atTop = false → Plain nodes

theorem fits_of_plain {atTop : Bool} {nodes : List Node} (h : Plain nodes) : Fits atTop nodes [] :=
  ⟨h.declarations.symm, h.orderly, fun _ => h⟩

variable {ns : String}

/-- Below the top nothing is declared. -/
theorem Declares.below {x : Run α} {f : α → List Node}
    (h : Declares x fun a V => Fits false (f a) V) : Declares x fun a V => V = [] ∧ Plain (f a) := by
  intro env a env' hrun
  obtain ⟨V, hV, hfits⟩ := h env a env' hrun
  have hplain := hfits.plain rfl
  exact ⟨V, hV, by rw [hfits.declared, hplain.declarations], hplain⟩

theorem fits_leaf {atTop : Bool} {n : Node} (hf : n.flatten = [n]) (hn : n.defined? = none) :
    Fits atTop [n] [] := fits_of_plain (Node.plain_of_below hf hn (by simp))

theorem symbol_fits (scope : Scope) (top : Bool) (s : Symbol) (line : Nat) :
    Declares (symbol ns scope s line) fun n V => Fits (scope.atTop top) [n] V := by
  unfold symbol
  split
  · exact .pure (fits_leaf (by simp [Node.flatten]) rfl)
  split
  · exact .pure (fits_leaf (by simp [Node.flatten]) rfl)
  split
  · exact .pure (fits_leaf (by simp [Node.flatten]) rfl)
  split
  · exact .pure (fits_leaf (by simp [Node.flatten]) rfl)
  refine (resolve_quiet ns s line).andThen fun v => ?_
  split
  · exact .refuse _ _
  · exact .pure (fits_leaf (by simp [Node.flatten]) rfl)

theorem call_fits (scope : Scope) (head : Symbol) (headLine line : Nat) {args : List Node}
    (h : Plain args) (atTop : Bool) :
    Declares (call ns scope head headLine line args) fun n V => Fits atTop [n] V := by
  unfold call
  split
  · exact .pure (fits_of_plain (Node.plain_of_below (by rw [Node.flatten]) rfl h))
  split
  · exact .refuse _ _
  refine (resolve_quiet ns head headLine).andThen fun v => ?_
  split
  · exact .refuse _ _
  split
  · exact .refuse _ _
  · exact .pure (fits_of_plain (Node.plain_of_below (by rw [Node.flatten]) rfl h))

theorem defGlobal_fits (line : Nat) (top : Bool) (args : List Form) (atTop : Bool) :
    Declares (defGlobal line top args) fun n V => Fits atTop [n] V := by
  unfold defGlobal
  dsimp only
  split
  · exact .refused _ _
  refine (defName_quiet line "defglobal" args).andThen fun name => ?_
  split
  · exact .pure (fits_leaf (by simp [Node.flatten]) rfl)
  · exact .pure (fits_leaf (by simp [Node.flatten]) rfl)
  · exact .refuse _ _
  · exact .refuse _ _

theorem plain_body {nodes : List Node} (h : Plain nodes) : Plain [body nodes] := by
  match nodes, h with
  | [], _ =>
    intro m hm
    obtain rfl : m = .const 0 := by simpa [body, Node.flattenAll, Node.flatten] using hm
    rfl
  | [n], h => exact h
  | n :: m :: nodes, h => exact h.seq

/-! ## Forms -/

mutual

/-- What the analysis of a form gives and declares. -/
theorem form_fits : ∀ (f : Form) (scope : Scope) (top : Bool),
    Declares (form ns scope top f) fun n V => Fits (scope.atTop top) [n] V
  | .int v _, scope, top => by
    rw [form]
    exact .pure (fits_leaf (by simp [Node.flatten]) rfl)
  | .sym s line, scope, top => by
    rw [form]
    exact symbol_fits scope top s line
  | .keyword name line, scope, top => by
    rw [form]
    exact .refuse _ _
  | .vector items line, scope, top => by
    rw [form]
    exact .refuse _ _
  | .list [] line, scope, top => by
    rw [form]
    exact .pure (fits_leaf (by simp [Node.flatten]) rfl)
  | .list (.sym head headLine :: args) line, scope, top => by
    unfold form
    split
    · split
      · -- `def`
        dsimp only
        split
        · exact .refused _ _
        rename_i hTop
        refine (defName_quiet _ _ _).andThen fun name => ?_
        split
        · rename_i value
          refine (form_fits value scope false).below.bind fun init V hinit => ?_
          obtain ⟨rfl, hplain⟩ := hinit
          refine (declare_declares ns name .value 0).bind fun _ W hW => .pure ?_
          have horderly := Node.orderly_of_below (n := .bindVar ns name init) (by rw [Node.flatten]) rfl
            (fun m hm => hplain m (by rwa [flattenAll_singleton]))
          refine ⟨by rw [hW]; rfl, horderly, fun hfalse => ?_⟩
          simp [hfalse] at hTop
        · exact .refuse _ _
      · -- `defn`
        dsimp only
        split
        · exact .refused _ _
        rename_i hTop
        refine (defName_quiet _ _ _).andThen fun name => ?_
        split
        · rename_i items vecLine forms
          refine (params_quiet _ _ _).andThen fun ps => ?_
          refine (declare_declares ns name .fn ps.length).bind fun _ W hW => ?_
          refine (forms_fits forms _ false).below.bind fun nodes V hnodes => .pure ?_
          obtain ⟨rfl, hplain⟩ := hnodes
          have horderly := Node.orderly_of_below (n := .defn ns name ps (body nodes))
            (by rw [Node.flatten]) rfl (fun m hm => plain_body hplain m (by rwa [flattenAll_singleton]))
          refine ⟨by rw [hW]; rfl, horderly, fun hfalse => ?_⟩
          simp [hfalse] at hTop
        · exact .refuse _ _
        · exact .refuse _ _
      · exact defGlobal_fits line top _ _
      · exact .refuse _ _
      · -- `let` with a vector of bindings
        rename_i items vecLine forms _
        dsimp only
        split
        · exact .refused _ _
        refine (bindings_below items scope vecLine).bind fun r V hr => ?_
        obtain ⟨rfl, hr⟩ := hr
        refine (forms_fits forms r.2 false).below.bind fun nodes V hnodes => .pure ?_
        obtain ⟨rfl, hplain⟩ := hnodes
        rw [List.nil_append, List.append_nil]
        refine fits_of_plain (Node.plain_of_below (by rw [Node.flatten]) rfl fun m hm => ?_)
        rw [List.mem_append] at hm
        exact hm.elim (hr m) fun hm => plain_body hplain m (by rwa [flattenAll_singleton])
      · exact .refuse _ _
      · -- `if`
        dsimp only
        split
        · exact .refused _ _
        refine (forms_fits _ scope false).below.bind fun nodes V hnodes => ?_
        obtain ⟨rfl, hplain⟩ := hnodes
        simp only [List.nil_append]
        split
        · refine .pure (fits_of_plain (Node.plain_of_below (by rw [Node.flatten]) rfl fun m hm => ?_))
          rw [List.mem_append] at hm
          rcases hm with hm | hm
          · exact hplain m (by simpa [Node.flattenAll] using hm)
          · simp only [Node.flatten, List.mem_singleton] at hm
            subst hm
            rfl
        · refine .pure (fits_of_plain (Node.plain_of_below (by rw [Node.flatten]) rfl fun m hm => ?_))
          exact hplain m (by simpa [Node.flattenAll, or_assoc] using hm)
        · exact .refuse _ _
      · -- `do`, whose forms stand where it stands
        refine (forms_fits _ scope top).bind fun nodes V hnodes => .pure ?_
        rw [List.append_nil]
        exact ⟨by rw [Node.declarations_seq, hnodes.declared], hnodes.orderly.seq,
          fun hfalse => (hnodes.plain hfalse).seq⟩
      · -- `set!` of a symbol
        rename_i value _
        dsimp only
        split
        · exact .refused _ _
        refine (form_fits value scope false).below.bind fun v V hv => .pure ?_
        obtain ⟨rfl, hplain⟩ := hv
        rw [List.append_nil]
        exact fits_of_plain (Node.plain_of_below (by rw [Node.flatten]) rfl fun m hm =>
          hplain m (by rwa [flattenAll_singleton]))
      · exact .refuse _ _
      · exact .refuse _ _
      · exact .refuse _ _
      · -- a primitive or a call
        dsimp only
        split
        · exact .refused _ _
        split
        · split
          · exact .refused _ _
          refine (forms_fits _ scope false).below.bind fun nodes V hnodes => .pure ?_
          obtain ⟨rfl, hplain⟩ := hnodes
          rw [List.append_nil]
          exact fits_of_plain (Node.plain_of_below (by rw [Node.flatten]) rfl hplain)
        · refine (forms_fits _ scope false).below.bind fun nodes V hnodes => ?_
          obtain ⟨rfl, hplain⟩ := hnodes
          simp only [List.nil_append]
          exact call_fits scope head headLine line hplain _
    · refine (forms_fits args scope false).below.bind fun nodes V hnodes => ?_
      obtain ⟨rfl, hplain⟩ := hnodes
      simp only [List.nil_append]
      exact call_fits scope head headLine line hplain _
  | .list (.int v l :: args) line, scope, top => by
    rw [form]
    · exact .refuse _ _
    · simp
  | .list (.keyword v l :: args) line, scope, top => by
    rw [form]
    · exact .refuse _ _
    · simp
  | .list (.list v l :: args) line, scope, top => by
    rw [form]
    · exact .refuse _ _
    · simp
  | .list (.vector v l :: args) line, scope, top => by
    rw [form]
    · exact .refuse _ _
    · simp
termination_by f => sizeOf f

theorem forms_fits : ∀ (fs : List Form) (scope : Scope) (top : Bool),
    Declares (forms' ns scope top fs) fun nodes V => Fits (scope.atTop top) nodes V
  | [], scope, top => by
    rw [forms']
    exact .pure (fits_of_plain (by simp [Plain, Node.flattenAll]))
  | f :: fs, scope, top => by
    rw [forms']
    refine (form_fits f scope top).bind fun n V hn => ?_
    refine (forms_fits fs scope top).bind fun nodes W hnodes => .pure ?_
    rw [List.append_nil]
    exact ⟨by rw [hn.declared, hnodes.declared, ← Node.declarations_append]; rfl,
      hn.orderly.append hnodes.orderly, fun hfalse => (hn.plain hfalse).append (hnodes.plain hfalse)⟩
termination_by fs => sizeOf fs

theorem bindings_below : ∀ (fs : List Form) (scope : Scope) (line : Nat),
    Declares (bindings ns scope line fs) fun r V =>
      V = [] ∧ ∀ m ∈ Node.flattenBindings r.1, m.defined? = none
  | .sym s l :: value :: rest, scope, line => by
    rw [bindings]
    dsimp only
    split
    · exact .refused _ _
    refine (form_fits value scope false).below.bind fun v V hv => ?_
    obtain ⟨rfl, hplain⟩ := hv
    refine (bindings_below rest (scope.push s.name) line).bind fun r V hr => .pure ?_
    obtain ⟨rfl, hr⟩ := hr
    refine ⟨by simp, fun m hm => ?_⟩
    rw [Node.flattenBindings, List.mem_append] at hm
    exact hm.elim (fun hm => hplain m (by rwa [flattenAll_singleton])) (hr m)
  | [], scope, line => by
    rw [bindings]
    exact .pure ⟨rfl, by simp [Node.flattenBindings]⟩
  | [f], scope, line => by
    rw [bindings]
    · exact .refuse _ _
    all_goals simp
  | .int _ _ :: _ :: _, scope, line | .keyword _ _ :: _ :: _, scope, line
  | .list _ _ :: _ :: _, scope, line | .vector _ _ :: _ :: _, scope, line => by
    rw [bindings]
    · exact .refuse _ _
    all_goals simp
termination_by fs => sizeOf fs

end

end Analysis

open Node (declarations definitions Orderly)

/-- The analysis of a form declares what its node defines, and does nothing else to the environment. -/
theorem Form.analyze_declared {env env' : Env} {ns : String} {f : Form} {n : Node}
    (h : f.analyze env ns = (env', .ok n)) : env' = env.declared (declarations [n]) ∧ Orderly [n] := by
  unfold Form.analyze at h
  cases hr : (Analysis.topLevel ns f).run.run env with
  | mk r env₁ =>
    rw [hr] at h
    obtain ⟨henv, hok⟩ := Prod.mk.inj h
    subst henv
    cases r with
    | error e => cases hok
    | ok m =>
      cases hok
      obtain ⟨V, hV, hfits⟩ := Analysis.form_fits f {} true env n env₁ hr
      exact ⟨hfits.declared ▸ hV, hfits.orderly⟩

/-- The analysis of a form declares exactly the vars that its node defines. -/
theorem analyze_declares {env env' : Env} {ns : String} {f : Form} {n : Node}
    (h : f.analyze env ns = (env', .ok n)) :
    env'.directory = env.directory.declare (definitions [n]) ∧ Orderly [n] := by
  obtain ⟨rfl, horderly⟩ := Form.analyze_declared h
  exact ⟨by rw [Env.directory_declared, horderly.definitions], horderly⟩

/-- In a function of a preamble there is no definition but the function itself. -/
theorem Preamble.orderly_load {p : Preamble} {fns : List Defn} (h : p.load = .ok fns) :
    ∀ d ∈ fns, Orderly [d.node] := by
  intro d hd
  obtain ⟨-, f, e, e', -, -, hanalyzed⟩ := mem_load h hd
  exact (analyze_declares hanalyzed).2

end WasmLisp
