import Mathlib
import WasmLisp.Proofs.Analysis.Scoped
import WasmLisp.Proofs.Codegen.Correct

/-!
# What code generation can refuse

Code generation looks up locals and takes primitives apart on its own; nothing of what analysis gives
can fail there.

* `PrimShape.of_eq_ok`: primitives with arguments as they take them have a shape;
* `Halts`: how the code of an expression can fail to be generated, its parts being scoped: it is nested
  too deep, or it calls a function of the module with a wrong number of arguments (`expr_halts`);
* `Refusal`: how the module of a unit can fail to be generated at all (`refusal_of_generate`).
-/

namespace WasmLisp.Codegen

open Artifact (envModule)
open Node (Scoped ScopedAll ScopedBindings Stands StandsAll Plain)

variable {c : Context} {depth next : Nat} {slots : Slots} {ms : List Node} {e : Failure}
  {u : CompUnit} {fns : List Defn}

/-! ## Primitives -/

/-- A primitive with arguments as it takes them has a shape, which asks for no others. -/
theorem PrimShape.of_eq_ok {op : String} {count : Nat} {bounds : Nat × Option Nat}
    (hop : primArity? op = some bounds) (hfits : Analysis.arityFits bounds count = true) :
    ∃ shape, of op count = .ok shape ∧ operands count shape ≤ count := by
  unfold primArity? at hop
  split at hop
  case h_13 => cases hop
  case h_1 | h_2 =>
    match count with
    | 0 => exact ⟨_, rfl, Nat.le_refl _⟩
    | 1 => exact ⟨_, rfl, Nat.le_refl _⟩
    | _ + 2 => exact ⟨_, rfl, Nat.le_refl _⟩
  case h_3 =>
    cases hop
    match count, hfits with
    | 1, _ => exact ⟨_, rfl, Nat.le_refl _⟩
    | _ + 2, _ => exact ⟨_, rfl, Nat.le_refl _⟩
  case h_12 =>
    cases hop
    obtain rfl : count = 1 := by simpa [Analysis.arityFits, Nat.le_antisymm_iff, and_comm] using hfits
    exact ⟨_, rfl, Nat.le_refl _⟩
  all_goals
    cases hop
    obtain rfl : count = 2 := by simpa [Analysis.arityFits, Nat.le_antisymm_iff, and_comm] using hfits
    exact ⟨_, rfl, Nat.le_refl _⟩

/-! ## Expressions -/

theorem bind_eq_error {α β ε : Type} {x : Except ε α} {f : α → Except ε β} {e : ε}
    (h : x >>= f = .error e) : x = .error e ∨ ∃ a, x = .ok a ∧ f a = .error e := by
  cases x with
  | error e' =>
    cases h
    exact .inl rfl
  | ok a => exact .inr ⟨a, rfl, h⟩

/-- Why there is no code for an expression all parts of which are scoped: it is nested too deep, or
among the nodes is a call of a function of the module that has another number of parameters. -/
inductive Halts (c : Context) (ms : List Node) : Failure → Prop where
  | tooDeep : Halts c ms (.backend none s!"expression nesting exceeds {c.maxDepth} levels")
  | wrongCount {ns name : String} {args : List Node} {index params : Nat}
    (hcall : .invoke ns name args ∈ ms)
    (hfunc : c.layout.funcIndex? ns name = some (index, params)) (hne : params ≠ args.length) :
    Halts c ms (.semantic
      s!"wrong number of arguments ({args.length}) to {Symbol.qualify ns name}")

/-- The code of the node can fail in these ways only, wherever it stands. -/
def Sturdy (c : Context) (ms : List Node) (slots : Slots) (n : Node) : Prop :=
  ∀ depth next e, expr c depth slots next n = .error e → Halts c ms e

section

variable {nodes : List Node}

theorem exprs_halts (hn : ∀ n ∈ nodes, Sturdy c ms slots n)
    (h : exprs c depth slots next nodes = .error e) : Halts c ms e := by
  induction nodes generalizing next with
  | nil => cases h
  | cons n nodes ih =>
    obtain ⟨hfirst, hrest⟩ := List.forall_mem_cons.mp hn
    rw [exprs] at h
    rcases bind_eq_error h with h | ⟨⟨code, k⟩, -, h⟩
    · exact hfirst _ _ _ h
    rcases bind_eq_error h with h | ⟨⟨more, k'⟩, -, h⟩
    · exact ih hrest h
    · cases h

theorem sequence_halts (hn : ∀ n ∈ nodes, Sturdy c ms slots n)
    (h : sequence c depth slots next nodes = .error e) : Halts c ms e := by
  induction nodes generalizing next with
  | nil => cases h
  | cons n nodes ih =>
    obtain ⟨hfirst, hrest⟩ := List.forall_mem_cons.mp hn
    cases nodes with
    | nil =>
      rw [sequence] at h
      exact hfirst _ _ _ h
    | cons m nodes =>
      rw [sequence] at h
      · rcases bind_eq_error h with h | ⟨⟨code, k⟩, -, h⟩
        · exact hfirst _ _ _ h
        rcases bind_eq_error h with h | ⟨⟨more, k'⟩, -, h⟩
        · exact ih hrest h
        · cases h
      · simp

theorem operandCodes_halts {count : Nat} (hn : ∀ n ∈ nodes, Sturdy c ms slots n)
    (h : operandCodes c depth slots next count nodes = .error e) : Halts c ms e := by
  induction nodes generalizing count next with
  | nil => cases count <;> cases h
  | cons n nodes ih =>
    obtain ⟨hfirst, hrest⟩ := List.forall_mem_cons.mp hn
    cases count with
    | zero => cases h
    | succ count =>
      rw [operandCodes] at h
      rcases bind_eq_error h with h | ⟨⟨code, k⟩, -, h⟩
      · exact hfirst _ _ _ h
      rcases bind_eq_error h with h | ⟨⟨more, k'⟩, -, h⟩
      · exact ih hrest h
      · cases h

end

/-- Every name in scope has a slot. -/
def Covers (slots : Slots) (scope : List String) : Prop := ∀ x ∈ scope, (slots.lookup x).isSome

theorem Covers.cons {scope : List String} (h : Covers slots scope) (name : String) (i : Nat) :
    Covers ((name, i) :: slots) (name :: scope) := by
  intro x hx
  rw [List.lookup_cons]
  by_cases heq : x = name
  · simp [heq]
  · have hx : x ∈ scope := (List.mem_cons.mp hx).resolve_left heq
    have hne : (x == name) = false := beq_false_of_ne heq
    rw [hne]
    exact h x hx

mutual

/-- The code of an expression can fail in two ways only if its parts are scoped. -/
theorem expr_halts {c : Context} {ms : List Node} {env : Env} {ns : String} {scope : List String}
    {n : Node} (hn : n.Scoped env ns scope) {slots : Slots} (hslots : Covers slots scope)
    (hsub : n.flatten ⊆ ms) : Sturdy c ms slots n := by
  intro depth next e h
  unfold expr at h
  split at h
  · cases h
    exact .tooDeep
  cases hn with
  | const v => cases h
  | localVar hin =>
    obtain ⟨i, hi⟩ := Option.isSome_iff_exists.mp (hslots _ hin)
    dsimp only at h
    rw [hi] at h
    cases h
  | varRef hv hkind => cases h
  | @invoke _ v args hv hkind harity hargs =>
    rw [Node.flatten] at hsub
    obtain ⟨hself, hsub⟩ := List.cons_subset.mp hsub
    dsimp only at h
    rcases bind_eq_error h with h | ⟨⟨code, k⟩, -, h⟩
    · exact exprs_halts (all_halts hargs hslots hsub) h
    · dsimp only at h
      split at h
      · rename_i index params hfunc
        split at h
        · rename_i hne
          cases h
          exact .wrongCount hself hfunc hne
        · cases h
      · cases h
  | foreignCall name hargs =>
    dsimp only at h
    rw [Node.flatten] at hsub
    have hsub := (List.cons_subset.mp hsub).2
    rcases bind_eq_error h with h | ⟨⟨code, k⟩, -, h⟩
    · exact exprs_halts (all_halts hargs hslots hsub) h
    · cases h
  | foreignGet name => cases h
  | foreignSet name hvalue =>
    dsimp only at h
    rw [Node.flatten] at hsub
    have hsub := (List.cons_subset.mp hsub).2
    rcases bind_eq_error h with h | ⟨⟨code, k⟩, -, h⟩
    · exact expr_halts hvalue hslots hsub _ _ _ h
    · cases h
  | prim hop hfits hargs =>
    dsimp only at h
    rw [Node.flatten] at hsub
    have hsub := (List.cons_subset.mp hsub).2
    obtain ⟨shape, hshape, -⟩ := PrimShape.of_eq_ok hop hfits
    rcases bind_eq_error h with h | ⟨shape', -, h⟩
    · rw [hshape] at h
      cases h
    rcases bind_eq_error h with h | ⟨⟨codes, k⟩, -, h⟩
    · exact operandCodes_halts (all_halts hargs hslots hsub) h
    · cases h
  | ifElse hcond hthen helse =>
    dsimp only at h
    rw [Node.flatten] at hsub
    simp only [List.cons_subset, List.append_subset] at hsub
    obtain ⟨-, ⟨hsubc, hsubt⟩, hsube⟩ := hsub
    rcases bind_eq_error h with h | ⟨⟨code, k⟩, -, h⟩
    · exact expr_halts hcond hslots hsubc _ _ _ h
    rcases bind_eq_error h with h | ⟨⟨code, k⟩, -, h⟩
    · exact expr_halts hthen hslots hsubt _ _ _ h
    rcases bind_eq_error h with h | ⟨⟨code, k⟩, -, h⟩
    · exact expr_halts helse hslots hsube _ _ _ h
    · cases h
  | letIn hbindings hbody =>
    dsimp only at h
    rw [Node.flatten] at hsub
    simp only [List.cons_subset, List.append_subset] at hsub
    obtain ⟨-, hsubb, hsub⟩ := hsub
    obtain ⟨herror, hok⟩ := bindingCode_halts (c := c) hbindings hslots hsubb
    rcases bind_eq_error h with h | ⟨⟨code, inner, k⟩, hcode, h⟩
    · exact herror h
    rcases bind_eq_error h with h | ⟨⟨more, k'⟩, -, h⟩
    · exact expr_halts hbody (hok hcode) hsub _ _ _ h
    · cases h
  | seq hforms =>
    dsimp only at h
    rw [Node.flatten] at hsub
    have hsub := (List.cons_subset.mp hsub).2
    exact sequence_halts (all_halts hforms hslots hsub) h

theorem all_halts {c : Context} {ms : List Node} {env : Env} {ns : String} {scope : List String}
    {nodes : List Node} (hn : ScopedAll env ns scope nodes) {slots : Slots}
    (hslots : Covers slots scope) (hsub : Node.flattenAll nodes ⊆ ms) :
    ∀ n ∈ nodes, Sturdy c ms slots n := by
  cases hn with
  | nil => exact fun n hn => absurd hn List.not_mem_nil
  | cons h hrest =>
    rw [Node.flattenAll, List.append_subset] at hsub
    exact List.forall_mem_cons.mpr
      ⟨expr_halts h hslots hsub.1, all_halts hrest hslots hsub.2⟩

/-- So it is with the values of bindings, after which all names have slots. -/
theorem bindingCode_halts {c : Context} {ms : List Node} {env : Env} {ns : String}
    {scope inner : List String} {bindings : List (String × Node)}
    (hn : ScopedBindings env ns scope bindings inner) {slots : Slots} (hslots : Covers slots scope)
    (hsub : Node.flattenBindings bindings ⊆ ms) {depth next : Nat} :
    (∀ {e}, bindingCode c depth slots next bindings = .error e → Halts c ms e) ∧
    ∀ {code slots' next'}, bindingCode c depth slots next bindings = .ok (code, slots', next') →
      Covers slots' inner := by
  cases hn with
  | nil =>
    refine ⟨fun h => (nomatch h), fun h => ?_⟩
    cases h
    exact hslots
  | cons hvalue hrest =>
    rw [Node.flattenBindings, List.append_subset] at hsub
    constructor
    · intro e h
      rw [bindingCode] at h
      rcases bind_eq_error h with h | ⟨⟨code, k⟩, -, h⟩
      · exact expr_halts hvalue hslots hsub.1 _ _ _ h
      rcases bind_eq_error h with h | ⟨⟨more, inner', last⟩, -, h⟩
      · exact (bindingCode_halts hrest (hslots.cons _ _) hsub.2).1 h
      · cases h
    · intro code slots' next' h
      rw [bindingCode] at h
      obtain ⟨⟨code, k⟩, -, h⟩ := Except.bind_eq_ok h
      obtain ⟨⟨more, inner', last⟩, hmore, h⟩ := Except.bind_eq_ok h
      cases h
      exact (bindingCode_halts hrest (hslots.cons _ _) hsub.2).2 hmore

end

mutual

/-- At the top level definitions are worth a value only, so that they cannot fail either. -/
theorem stands_halts {c : Context} {ms : List Node} {ns : String} {env env' : Env} {n : Node}
    (hn : n.Stands ns env env') (hsub : n.flatten ⊆ ms) : Sturdy c ms [] n := by
  cases hn with
  | expr h => exact expr_halts h (fun x hx => absurd hx List.not_mem_nil) hsub
  | bindVar name hinit =>
    intro depth next e h
    rw [Node.flatten] at hsub
    have hsub := (List.cons_subset.mp hsub).2
    unfold expr at h
    split at h
    · cases h
      exact .tooDeep
    dsimp only at h
    rcases bind_eq_error h with h | ⟨⟨code, k⟩, -, h⟩
    · exact expr_halts hinit (fun x hx => absurd hx List.not_mem_nil) hsub _ _ _ h
    · cases h
  | defn | defGlobal =>
    intro depth next e h
    unfold expr at h
    split at h
    · cases h
      exact .tooDeep
    · cases h
  | seq hforms =>
    intro depth next e h
    rw [Node.flatten] at hsub
    have hsub := (List.cons_subset.mp hsub).2
    unfold expr at h
    split at h
    · cases h
      exact .tooDeep
    · exact sequence_halts (standsAll_halts hforms hsub) h

theorem standsAll_halts {c : Context} {ms : List Node} {ns : String} {env env' : Env}
    {nodes : List Node} (hn : StandsAll ns env nodes env') (hsub : Node.flattenAll nodes ⊆ ms) :
    ∀ n ∈ nodes, Sturdy c ms [] n := by
  cases hn with
  | nil => exact fun n hn => absurd hn List.not_mem_nil
  | cons h hrest =>
    rw [Node.flattenAll, List.append_subset] at hsub
    exact List.forall_mem_cons.mpr ⟨stands_halts h hsub.1, standsAll_halts hrest hsub.2⟩

end

/-! ## Functions -/

theorem covers_paramSlots (params : List String) : Covers (paramSlots params) params.reverse := by
  intro x hx
  obtain ⟨i, hi⟩ := List.getElem?_of_mem (List.mem_reverse.mp hx)
  by_contra hnone
  rw [Option.not_isSome_iff_eq_none, List.lookup_eq_none_iff] at hnone
  have hmem : (x, i) ∈ paramSlots params :=
    List.mem_reverse.mpr (List.mk_mem_zipIdx_iff_getElem?.mpr hi)
  simpa using hnone (x, i) hmem

theorem functionCode_halts {d : Defn} (hbody : ∃ env ns, d.body.Scoped env ns d.params.reverse)
    (hsub : d.body.flatten ⊆ ms) (h : functionCode c d = .error e) : Halts c ms e := by
  obtain ⟨env, ns, hbody⟩ := hbody
  rw [functionCode] at h
  rcases bind_eq_error h with h | ⟨⟨code, k⟩, -, h⟩
  · exact expr_halts hbody (covers_paramSlots d.params) hsub _ _ _ h
  · cases h

theorem entryCode_halts {forms : List Node} (hforms : ∀ n ∈ forms, Sturdy c ms [] n)
    (h : entryCode c forms = .error e) : Halts c ms e := by
  rw [entryCode] at h
  rcases bind_eq_error h with h | ⟨⟨code, k⟩, -, h⟩
  · exact sequence_halts hforms h
  · cases h

theorem mapM_eq_error {α β ε : Type} {f : α → Except ε β} {xs : List α} {e : ε}
    (h : xs.mapM f = .error e) : ∃ x ∈ xs, f x = .error e := by
  induction xs with
  | nil => cases h
  | cons x xs ih =>
    rw [List.mapM_cons] at h
    rcases bind_eq_error h with h | ⟨y, -, h⟩
    · exact ⟨x, List.mem_cons_self, h⟩
    rcases bind_eq_error h with h | ⟨ys, -, h⟩
    · obtain ⟨x', hx', hf⟩ := ih h
      exact ⟨x', List.mem_cons_of_mem _ hx', hf⟩
    · cases h

/-! ## Layouts -/

/-- The nodes that a module can be made of: those of the unit and of all preamble functions. -/
def sources (u : CompUnit) (fns : List Defn) : List Node :=
  Node.flattenAll (u.forms ++ fns.map Defn.node)

/-- Why there is no module of a unit whose forms analysis gave: two definitions of one name, two counts
of arguments for one imported function, a count of arguments that a function of the module does not
take, or an expression that is nested too deep. -/
inductive Refusal (u : CompUnit) (fns : List Defn) (maxDepth : Nat) : Failure → Prop where
  | functionTwice {ns name : String}
    (h : ((u.nodes.filterMap definition?).map Linked.key).Duplicate (ns, name)) :
    Refusal u fns maxDepth
      (.semantic s!"function {Symbol.qualify ns name} is defined twice in one unit")
  | globalTwice {name : String}
    (h : ((u.nodes.filterMap dataSymbol?).map (·.1)).Duplicate name) :
    Refusal u fns maxDepth (.semantic s!"global {name} is defined twice in one unit")
  | importTwice {m m' : Node} {name : String} {before params : Nat} (hm : m ∈ sources u fns)
    (hm' : m' ∈ sources u fns) (h : wantedBy? m = some (.func envModule name before 1))
    (h' : wantedBy? m' = some (.func envModule name params 1)) (hne : before ≠ params) :
    Refusal u fns maxDepth
      (.semantic s!"{name} is called with {before} and {params} arguments")
  | wrongCount {ns name : String} {args : List Node} {d : Defn}
    (hcall : .invoke ns name args ∈ sources u fns) (hd : callee? u fns (ns, name) = some d)
    (hne : d.params.length ≠ args.length) :
    Refusal u fns maxDepth (.semantic
      s!"wrong number of arguments ({args.length}) to {Symbol.qualify ns name}")
  | tooDeep :
    Refusal u fns maxDepth (.backend none s!"expression nesting exceeds {maxDepth} levels")

variable {maxDepth : Nat} {nodes : List Node} {l : Layout}

theorem duplicate_of_mem {α : Type} {xs ys : List α} {a : α} (h : a ∈ xs) :
    (xs ++ a :: ys).Duplicate a := by
  rw [List.duplicate_iff_sublist]
  exact (List.singleton_sublist.mpr h).append (List.singleton_sublist.mpr List.mem_cons_self)

theorem definitions_refused (before : List Node) (hu : before ++ nodes = u.nodes)
    (hl : (({} : Layout).define before).Distinct)
    (h : nodes.foldlM addDefinition (({} : Layout).define before) = .error e) :
    Refusal u fns maxDepth e := by
  induction nodes generalizing before with
  | nil => cases h
  | cons n nodes ih =>
    rw [List.foldlM_cons] at h
    rcases bind_eq_error h with h | ⟨l', hl', h⟩
    · cases n with
      | defn ns name params body =>
        rw [addDefinition] at h
        split at h
        · rename_i hin
          cases h
          have hmem : (ns, name) ∈ (before.filterMap definition?).map Linked.key := by
            simpa [Layout.define] using hin
          refine .functionTwice ?_
          rw [← hu, List.filterMap_append, List.map_append]
          exact duplicate_of_mem hmem
        · cases h
      | defGlobal name init =>
        rw [addDefinition] at h
        split at h
        · rename_i hin
          cases h
          obtain ⟨g, hg, hname⟩ := List.any_eq_true.mp hin
          have hmem : name ∈ (before.filterMap dataSymbol?).map (·.1) :=
            List.mem_map.mpr ⟨g, by simpa [Layout.define] using hg, by simpa using hname⟩
          refine .globalTwice ?_
          rw [← hu, List.filterMap_append, List.map_append]
          exact duplicate_of_mem hmem
        · cases h
      | _ => cases h
    · obtain ⟨rfl, hdistinct⟩ := addDefinition_eq hl' hl
      rw [← Layout.define_append] at h hdistinct
      exact ih (before ++ [n]) (by rw [List.append_assoc]; exact hu) hdistinct h

theorem addImport_error {module name : String} {params results : Nat}
    (h : addImport l module name params results = .error e) : module = envModule ∧
      ∃ count results', .func envModule name count results' ∈ l.imports ∧ count ≠ params ∧
        e = .semantic s!"{name} is called with {count} and {params} arguments" := by
  rw [addImport] at h
  split at h
  · cases h
  · rename_i count hcount
    obtain ⟨results', hmem⟩ := importArity?_eq_some hcount
    split at h
    · rename_i hdiffers
      simp only [Bool.and_eq_true, decide_eq_true_eq] at hdiffers
      obtain ⟨rfl, hne⟩ := hdiffers
      cases h
      exact ⟨rfl, count, results', hmem, hne, rfl⟩
    · cases h

/-- Only calls can be at odds with an import, and then with a call before them. -/
theorem addImports_error {n : Node} (h : addImports l n = .error e) :
    ∃ name params count results, wantedBy? n = some (.func envModule name params 1) ∧
      .func envModule name count results ∈ l.imports ∧ count ≠ params ∧
        e = .semantic s!"{name} is called with {count} and {params} arguments" := by
  cases n with
  | invoke ns name args =>
    rw [addImports] at h
    split at h
    · cases h
    · obtain ⟨-, count, results, hmem, hne, he⟩ := addImport_error h
      exact ⟨_, _, count, results, rfl, hmem, hne, he⟩
  | foreignCall name args =>
    obtain ⟨-, count, results, hmem, hne, he⟩ := addImport_error h
    exact ⟨_, _, count, results, rfl, hmem, hne, he⟩
  | varRef ns name | bindVar ns name =>
    obtain ⟨hmodule, -⟩ := addImport_error h
    exact absurd hmodule (by decide)
  | _ => cases h

theorem imports_refused (before : List Node) (hsub : before ++ nodes ⊆ sources u fns) (hl : l.Tidy)
    (hwanted : ∀ w ∈ l.imports, ∃ n ∈ before, wantedBy? n = some w)
    (h : nodes.foldlM addImports l = .error e) : Refusal u fns maxDepth e := by
  induction nodes generalizing before l with
  | nil => cases h
  | cons n nodes ih =>
    rw [List.append_cons] at hsub
    rw [List.foldlM_cons] at h
    rcases bind_eq_error h with h | ⟨l', hl', h⟩
    · obtain ⟨name, params, count, results, hn, hmem, hne, rfl⟩ := addImports_error h
      -- the import before is that of another call, which gives one value too
      obtain ⟨m, hm, hwants⟩ := hwanted _ hmem
      obtain ⟨-, hone⟩ := (hl.roles _ _ _ _ hmem).unique (.env count) (fun _ => rfl)
      rw [hone] at hwants
      have hbefore : m ∈ sources u fns :=
        hsub (List.mem_append_left _ (List.mem_append_left _ hm))
      have hthis : n ∈ sources u fns := hsub (List.mem_append_left _ (by simp))
      exact .importTwice hbefore hthis hwants hn hne
    · obtain ⟨more, rfl, hmore, htidy, -⟩ := addImports_spec hl' hl
      refine ih (before ++ [n]) hsub htidy (fun w hw => ?_) h
      rcases List.mem_append.mp hw with hw | hw
      · obtain ⟨m, hm, hwants⟩ := hwanted w hw
        exact ⟨m, List.mem_append_left _ hm, hwants⟩
      · exact ⟨n, by simp, (hmore w hw).1⟩

theorem reachedNodes_subset {new : List Reached}
    (h : ∀ r ∈ new, shared? fns r.1 = some r.2) : reachedNodes u new ⊆ sources u fns := by
  intro m hm
  obtain ⟨root, hroot, hm⟩ := Node.mem_flattenAll.mp hm
  refine Node.mem_flattenAll.mpr ⟨root, ?_, hm⟩
  rcases List.mem_append.mp hroot with hroot | hroot
  · exact List.mem_append_left _ hroot
  · obtain ⟨r, hr, rfl⟩ := List.mem_map.mp hroot
    exact List.mem_append_right _ (List.mem_map_of_mem (List.mem_of_find?_eq_some (h r hr)))

/-- Only definitions and imports can keep a unit from having a layout. -/
theorem layout_refused (h : Layout.ofUnit u fns = .error e) : Refusal u fns maxDepth e := by
  rw [Layout.ofUnit] at h
  rcases bind_eq_error h with h | ⟨base, hbase, h⟩
  · exact definitions_refused [] (List.nil_append _) ⟨List.nodup_nil, List.nodup_nil⟩ h
  obtain ⟨rfl, hdistinct⟩ := definitions_eq hbase ⟨List.nodup_nil, List.nodup_nil⟩
  obtain ⟨new, hlink, -, hfound, -⟩ :=
    (linking_linkFuel fns u.forms hdistinct.keys).spec (C := fun _ => True) hdistinct.keys
      (fun _ _ => trivial) (fun _ _ _ _ _ _ _ => trivial)
  dsimp only at h
  rw [hlink, added_extend] at h
  have hnone : (({} : Layout).define u.nodes).imports = [] := rfl
  refine imports_refused [] ?_ (tidy_extend u.nodes new) ?_ h
  · exact reachedNodes_subset fun r hr => (hfound r hr).1
  · simp [Layout.extend, hnone]

/-! ## Modules -/

/-- The expressions of a module fail in the ways in which it may be refused. -/
theorem refusal_of_halts {new : List Reached} (hl : l.Built u fns new)
    (h : Halts { layout := l, maxDepth } (reachedNodes u new) e) : Refusal u fns maxDepth e := by
  cases h with
  | tooDeep => exact .tooDeep
  | @wrongCount ns name args index params hcall hfunc hne =>
    obtain ⟨i, f, hkey, -⟩ := Layout.funcIndex?_eq_some hfunc
    cases hd : callee? u fns (ns, name) with
    | none => exact absurd (List.mem_of_getElem? hkey) (hl.callee?_eq_none hd)
    | some d =>
      -- the index is that of the function, which the call has not the arguments for
      obtain ⟨j, f', -, -, hindex⟩ := hl.callee?_eq_some (mem_callsOf.mpr ⟨args, hcall⟩) hd
      have hparams : params = d.params.length := by
        have heq := hfunc.symm.trans hindex
        cases heq
        rfl
      exact .wrongCount (reachedNodes_subset hl.found hcall) hd (hparams ▸ hne)

/-- What analysis gives stands at the top level of some namespace. -/
theorem stands_of_analyze {n : Node}
    (h : ∃ (f : Form) (env : Env) (ns : String), (f.analyze env ns).2 = .ok n) :
    ∃ ns env env', n.Stands ns env env' := by
  obtain ⟨f, env, ns, hn⟩ := h
  exact ⟨ns, env, (f.analyze env ns).1, analyze_stands (Prod.ext rfl hn)⟩

/-- Every function of a module has a body that sees its parameters. -/
theorem body_scoped {preamble : Preamble} {new : List Reached}
    (hforms : ∀ n ∈ u.forms, ∃ (f : Form) (env : Env) (ns : String), (f.analyze env ns).2 = .ok n)
    (hl : l.Built u preamble.functions new) {f : Linked} (hf : f ∈ l.funcs) :
    ∃ env ns, f.defn.body.Scoped env ns f.defn.params.reverse := by
  have hroot : ∃ (root : Node) (ns : String) (env env' : Env),
      root.Stands ns env env' ∧ f.defn.node ∈ root.flatten := by
    rw [hl.funcs, List.mem_append] at hf
    rcases hf with hf | hf
    · obtain ⟨root, hroot, hin⟩ := Node.mem_flattenAll.mp (definition?_exported hf).2
      obtain ⟨ns, env, env', hstands⟩ := stands_of_analyze (hforms root hroot)
      exact ⟨root, ns, env, env', hstands, hin⟩
    · obtain ⟨r, hr, rfl⟩ := List.mem_map.mp hf
      obtain ⟨g, env, env', hanalyzed⟩ :=
        Preamble.mem_functions (List.mem_of_find?_eq_some (hl.found r hr))
      refine ⟨r.2.node, _, env, env', analyze_stands hanalyzed, ?_⟩
      rw [Defn.node, Node.flatten]
      exact List.mem_cons_self
  obtain ⟨root, ns, env, env', hstands, hin⟩ := hroot
  obtain ⟨-, hparts⟩ := hstands.parts (I := fun _ => True) (fun _ _ _ _ _ => trivial) trivial
  obtain ⟨e, hbody⟩ := (hparts _ hin).body
  exact ⟨e, ns, hbody⟩

/-- The program of a unit of analysed forms is refused for one of few reasons. -/
theorem program_refused {preamble : Preamble}
    (hforms : ∀ n ∈ u.forms, ∃ (f : Form) (env : Env) (ns : String), (f.analyze env ns).2 = .ok n)
    (h : Program.ofUnit u preamble.functions maxDepth = .error e) :
    Refusal u preamble.functions maxDepth e := by
  rw [Program.ofUnit] at h
  rcases bind_eq_error h with h | ⟨l, hl, h⟩
  · exact layout_refused h
  obtain ⟨new, hbuilt⟩ := ofUnit_built hl
  refine refusal_of_halts hbuilt ?_
  rcases bind_eq_error h with h | ⟨functions, -, h⟩
  · obtain ⟨f, hf, h⟩ := mapM_eq_error h
    exact functionCode_halts (body_scoped hforms hbuilt hf) (hbuilt.body_subset hf) h
  rcases bind_eq_error h with h | ⟨entry, -, h⟩
  · refine entryCode_halts (fun n hn => ?_) h
    obtain ⟨ns, env, env', hstands⟩ := stands_of_analyze (hforms n hn)
    exact stands_halts hstands (Layout.Built.form_subset hn)
  · cases h

/-- All primitives in the sources have arguments as they take them. -/
theorem primFits_of_mem_sources {preamble : Preamble}
    (hforms : ∀ n ∈ u.forms, ∃ (f : Form) (env : Env) (ns : String), (f.analyze env ns).2 = .ok n)
    {m : Node} (hm : m ∈ sources u preamble.functions) : PrimFits m := by
  obtain ⟨root, hroot, hm⟩ := Node.mem_flattenAll.mp hm
  rcases List.mem_append.mp hroot with hroot | hroot
  · obtain ⟨f, env, ns, hn⟩ := hforms root hroot
    exact primFits_of_sound (analyze_sound hn f.allSymbols_true m hm)
  · obtain ⟨d, hd, rfl⟩ := List.mem_map.mp hroot
    exact primFits_of_sound (functions_sound hd m hm)

/-- The node of a form stands at the top level, with everything in it bound, seen and applied as it
should be. Code generation of a unit of such nodes, linked with a preamble, takes every primitive
apart, and refuses the unit only for its definitions and calls or for its depth: never for a local,
a primitive or a kind of node. -/
theorem generate_of_analyzed {u : CompUnit} {preamble : Preamble} {maxDepth : Int}
    (hforms : ∀ n ∈ u.forms, ∃ (f : Form) (env : Env) (ns : String), (f.analyze env ns).2 = .ok n) :
    (∀ (f : Form) (env env' : Env) (ns : String) (n : Node),
      f.analyze env ns = (env', .ok n) → n.Stands ns env env') ∧
    (∀ op args, .prim op args ∈ sources u preamble.functions → ∃ shape,
      PrimShape.of op args.length = .ok shape ∧
        PrimShape.operands args.length shape ≤ args.length) ∧
    ∀ e, generate u preamble.functions maxDepth = .error e →
      Refusal u preamble.functions (effectiveDepth maxDepth) e := by
  refine ⟨fun f env env' ns n h => analyze_stands h, fun op args hin => ?_, fun e h => ?_⟩
  · obtain ⟨bounds, hop, hfits⟩ := primFits_of_mem_sources hforms hin
    exact PrimShape.of_eq_ok hop hfits
  · rw [generate] at h
    rcases bind_eq_error h with h | ⟨program, -, h⟩
    · exact program_refused hforms h
    · cases h

/-- A function of one parameter whose body binds a local. -/
def doubling : Form :=
  .list [.sym { name := "defn" } 1, .sym { name := "f" } 1, .vector [.sym { name := "x" } 1] 1,
    .list [.sym { name := "let" } 1,
      .vector [.sym { name := "y" } 1,
        .list [.sym { name := "+" } 1, .sym { name := "x" } 1, .sym { name := "x" } 1] 1] 1,
      .sym { name := "y" } 1] 1] 1

/-- The node of that form. -/
def doublingNode : Node :=
  .defn "user" "f" ["x"]
    (.letIn [("y", .prim "+" [.localVar "x", .localVar "x"])] (.localVar "y"))

theorem generate_doubling_twice :
    (doubling.analyze .initial "user").2 = .ok doublingNode ∧
    doublingNode.Stands "user" .initial (doubling.analyze .initial "user").1 ∧
    ∃ e, generate { forms := [doublingNode, doublingNode] } ({ source := "" } : Preamble).functions
        0 = .error e ∧
      Refusal { forms := [doublingNode, doublingNode] } ({ source := "" } : Preamble).functions
        4096 e := by
  have hnode : (doubling.analyze .initial "user").2 = .ok doublingNode := by cbv
  have hforms : ∀ n ∈ [doublingNode, doublingNode],
      ∃ (f : Form) (env : Env) (ns : String), (f.analyze env ns).2 = .ok n := by
    intro n hn
    obtain rfl : n = doublingNode := by simpa using hn
    exact ⟨doubling, .initial, "user", hnode⟩
  obtain ⟨hstands, -, hrefused⟩ :=
    @generate_of_analyzed { forms := [doublingNode, doublingNode] } { source := "" } 0 hforms
  refine ⟨hnode, hstands doubling _ _ _ _ (Prod.ext rfl hnode), ?_⟩
  cases h : generate { forms := [doublingNode, doublingNode] }
      ({ source := "" } : Preamble).functions 0 with
  | error e => exact ⟨e, rfl, hrefused e h⟩
  | ok g =>
    have hfail : (generate { forms := [doublingNode, doublingNode] }
        ({ source := "" } : Preamble).functions 0).isOk = false := by decide +kernel
    rw [h] at hfail
    cases hfail

end WasmLisp.Codegen
