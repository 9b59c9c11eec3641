import Mathlib
import WasmLisp.Codegen.Layout
import WasmLisp.Proofs.Nodes

/-!
# What a layout holds

A layout is made by three walks: over the definitions, over the calls that reach preamble functions,
and over the imports. The facts here say what each walk leaves behind:

* `definitions_eq`: the functions and data symbols are those of the definitions, in order;
* `Linking`: linking without a bound, which the bound does not cut short (`linking_linkFuel`). It adds
  the preamble functions that calls reach, until every call of a tree that it has gone through is
  placed or has no function to be placed (`Linking.spec`);
* `Layout.Built`: what the whole layout is, as generated code relies on it (`ofUnit_linked`).
-/

namespace WasmLisp.Codegen

open Artifact (envModule varModule varDefModule)

/-! ## Definitions -/

/-- The function that a node defines. -/
def definition? : Node → Option Linked
  | .defn ns name params body => some { defn := { ns, name, params, body }, exported := true }
  | _ => none

/-- The data symbol that a node defines. -/
def dataSymbol? : Node → Option (String × Int64)
  | .defGlobal name init => some (name, init)
  | _ => none

/-- A layout with the definitions of nodes after its own. -/
def Layout.define (l : Layout) (nodes : List Node) : Layout :=
  { l with
    funcs := l.funcs ++ nodes.filterMap definition?
    keys := l.keys ++ (nodes.filterMap definition?).map Linked.key
    globals := l.globals ++ nodes.filterMap dataSymbol? }

theorem Layout.define_append (l : Layout) (nodes more : List Node) :
    l.define (nodes ++ more) = (l.define nodes).define more := by
  simp [define]

theorem Layout.define_of_none (l : Layout) {n : Node} (h : definition? n = none)
    (h' : dataSymbol? n = none) : l.define [n] = l := by
  simp [define, h, h']

/-- No two functions have the same pair and no two data symbols the same name. -/
structure Layout.Distinct (l : Layout) : Prop where
  keys : l.keys.Nodup
  globals : (l.globals.map (·.1)).Nodup

/-- One definition goes to the end, and only if its name is free. -/
theorem addDefinition_eq {l l' : Layout} {n : Node} (h : addDefinition l n = .ok l')
    (hl : l.Distinct) : l' = l.define [n] ∧ l'.Distinct := by
  cases n with
  | defn ns name params body =>
    simp only [addDefinition] at h
    split at h
    · cases h
    · rename_i hnew
      cases h
      refine ⟨by simp [Layout.define, definition?, dataSymbol?, Linked.key], ?_, hl.globals⟩
      have hnot : (ns, name) ∉ l.keys := by simpa using hnew
      exact hl.keys.append (List.nodup_singleton _) (by simpa using hnot)
  | defGlobal name init =>
    simp only [addDefinition] at h
    split at h
    · cases h
    · rename_i hnew
      cases h
      refine ⟨by simp [Layout.define, definition?, dataSymbol?], hl.keys, ?_⟩
      rw [List.map_append]
      refine hl.globals.append (List.nodup_singleton _) ?_
      simpa using hnew
  | _ =>
    cases h
    exact ⟨(l.define_of_none rfl rfl).symm, hl⟩

/-- The definitions that nodes add, one after the other. -/
theorem definitions_eq {l l' : Layout} {nodes : List Node}
    (h : nodes.foldlM addDefinition l = .ok l') (hl : l.Distinct) :
    l' = l.define nodes ∧ l'.Distinct := by
  induction nodes generalizing l with
  | nil =>
    cases h
    exact ⟨by simp [Layout.define], hl⟩
  | cons n nodes ih =>
    rw [List.foldlM_cons] at h
    cases hn : addDefinition l n with
    | error e => rw [hn] at h; cases h
    | ok l₁ =>
      rw [hn] at h
      obtain ⟨rfl, hd⟩ := addDefinition_eq hn hl
      obtain ⟨rfl, hd'⟩ := ih h hd
      exact ⟨(l.define_append [n] nodes).symm, hd'⟩

/-! ## Preamble functions -/

/-- The pairs that nodes call. -/
def callsOf (nodes : List Node) : List (String × String) :=
  nodes.filterMap fun
    | .invoke ns name _ => some (ns, name)
    | _ => none

theorem callCount_eq (nodes : List Node) : callCount nodes = (callsOf nodes).length := by
  induction nodes with
  | nil => rfl
  | cons n nodes ih =>
    cases n with
    | invoke ns name args =>
      have hcalls : callsOf (.invoke ns name args :: nodes) = (ns, name) :: callsOf nodes := rfl
      rw [hcalls, List.length_cons, ← ih]
      exact List.countP_cons_of_pos rfl
    | _ => exact (List.countP_cons_of_neg Bool.false_ne_true).trans ih

theorem mem_callsOf {nodes : List Node} {p : String × String} :
    p ∈ callsOf nodes ↔ ∃ args, .invoke p.1 p.2 args ∈ nodes := by
  unfold callsOf
  rw [List.mem_filterMap]
  constructor
  · rintro ⟨n, hn, h⟩
    cases n <;> simp only [reduceCtorEq, Option.some.injEq] at h
    subst h
    exact ⟨_, hn⟩
  · rintro ⟨args, h⟩
    exact ⟨_, h, rfl⟩

theorem callsOf_subset {nodes more : List Node} (h : nodes ⊆ more) :
    callsOf nodes ⊆ callsOf more := by
  intro p hp
  obtain ⟨args, ha⟩ := mem_callsOf.1 hp
  exact mem_callsOf.2 ⟨args, h ha⟩

theorem callsOf_append (nodes more : List Node) :
    callsOf (nodes ++ more) = callsOf nodes ++ callsOf more := List.filterMap_append

/-- The preamble function that a call of a pair stands for. -/
def shared? (fns : List Defn) (p : String × String) : Option Defn :=
  fns.find? (·.qualified == Symbol.qualify p.1 p.2)

/-- A preamble function that got a place, with the pair that calls of it use. -/
abbrev Reached := (String × String) × Defn

/-- A layout with preamble functions after its own. -/
def Layout.extend (l : Layout) (new : List Reached) : Layout :=
  { l with
    funcs := l.funcs ++ new.map fun r => { defn := r.2, exported := false }
    keys := l.keys ++ new.map (·.1) }

theorem Layout.extend_nil (l : Layout) : l.extend [] = l := by simp [extend]

theorem Layout.extend_append (l : Layout) (new more : List Reached) :
    l.extend (new ++ more) = (l.extend new).extend more := by simp [extend]

/-- What is linked into a layout: functions of the preamble that calls reach, none twice. -/
structure Linkable (fns : List Defn) (calls : List (String × String)) (l : Layout)
    (new : List Reached) : Prop where
  found : ∀ r ∈ new, shared? fns r.1 = some r.2
  called : ∀ r ∈ new, r.1 ∈ calls
  nodup : (l.extend new).keys.Nodup

theorem Linkable.trans {fns : List Defn} {calls : List (String × String)} {l : Layout}
    {new more : List Reached} (h : Linkable fns calls l new)
    (h' : Linkable fns calls (l.extend new) more) : Linkable fns calls l (new ++ more) where
  found r hr := (List.mem_append.1 hr).elim (h.found r) (h'.found r)
  called r hr := (List.mem_append.1 hr).elim (h.called r) (h'.called r)
  nodup := by rw [l.extend_append]; exact h'.nodup

theorem Linkable.mono {fns : List Defn} {calls calls' : List (String × String)} {l : Layout}
    {new : List Reached} (h : Linkable fns calls l new) (hc : calls ⊆ calls') :
    Linkable fns calls' l new where
  found := h.found
  called r hr := hc (h.called r hr)
  nodup := h.nodup

/-- There are no more linked functions than calls. -/
theorem Linkable.length_le {fns : List Defn} {calls : List (String × String)} {l : Layout}
    {new : List Reached} (h : Linkable fns calls l new) : new.length ≤ calls.length := by
  have hn : (new.map (·.1)).Nodup := by
    have hk := h.nodup
    simp only [Layout.extend] at hk
    exact hk.of_append_right
  have hs : new.map (·.1) ⊆ calls := by
    intro p hp
    obtain ⟨r, hr, rfl⟩ := List.mem_map.1 hp
    exact h.called r hr
  simpa using (hn.subperm hs).length_le

/-- A called pair has a place, or there is no function for it. -/
def Settled (fns : List Defn) (l : Layout) (p : String × String) : Prop :=
  p ∈ l.keys ∨ shared? fns p = none

theorem Settled.extend {fns : List Defn} {l : Layout} {p : String × String}
    (h : Settled fns l p) (new : List Reached) : Settled fns (l.extend new) p := by
  rcases h with h | h
  · exact .inl (List.mem_append_left _ h)
  · exact .inr h

/-- Going through nodes settles all their calls. -/
theorem newlyReached_spec (fns : List Defn) (l : Layout) (nodes : List Node)
    (hl : l.keys.Nodup) :
    ∃ new, newlyReached fns l nodes = (l.extend new, new.map (·.2.node)) ∧
      Linkable fns (callsOf nodes) l new ∧
      ∀ p ∈ callsOf nodes, Settled fns (l.extend new) p := by
  fun_induction newlyReached fns l nodes with
  | case1 l =>
    refine ⟨[], by simp [l.extend_nil], ⟨by simp, by simp, by simpa [l.extend_nil]⟩, ?_⟩
    simp [callsOf]
  | case2 l ns name args rest hin ih =>
    obtain ⟨new, heq, hlink, hset⟩ := ih hl
    refine ⟨new, heq, hlink.mono (by simp [callsOf]), ?_⟩
    have hin : (ns, name) ∈ l.keys := by simpa using hin
    intro p hp
    rcases List.mem_cons.1 (show p ∈ (ns, name) :: callsOf rest from hp) with rfl | hp
    · exact Settled.extend (.inl hin) new
    · exact hset p hp
  | case3 l ns name args rest hin hfind ih =>
    obtain ⟨new, heq, hlink, hset⟩ := ih hl
    refine ⟨new, heq, hlink.mono (by simp [callsOf]), ?_⟩
    intro p hp
    rcases List.mem_cons.1 (show p ∈ (ns, name) :: callsOf rest from hp) with rfl | hp
    · exact .inr hfind
    · exact hset p hp
  | case4 l ns name args rest hin d hfind l₁ l₂ more heq₁ ih =>
    have hin : (ns, name) ∉ l.keys := by simpa using hin
    have hl₁ : l₁ = l.extend [((ns, name), d)] := rfl
    have hnd : l₁.keys.Nodup :=
      hl.append (List.nodup_singleton _) (by simpa using hin)
    obtain ⟨new, heq, hlink, hset⟩ := ih hnd
    rw [heq₁] at heq
    cases heq
    have hfirst : Linkable fns (callsOf (.invoke ns name args :: rest)) l [((ns, name), d)] :=
      ⟨by simpa [shared?] using hfind, by simp [callsOf], hnd⟩
    refine ⟨((ns, name), d) :: new, ?_, ?_, ?_⟩
    · rw [show ((ns, name), d) :: new = [((ns, name), d)] ++ new from rfl, l.extend_append]
      rfl
    · exact hfirst.trans (hlink.mono (by simp [callsOf]))
    · rw [show ((ns, name), d) :: new = [((ns, name), d)] ++ new from rfl, l.extend_append]
      intro p hp
      rcases List.mem_cons.1 (show p ∈ (ns, name) :: callsOf rest from hp) with rfl | hp
      · exact Settled.extend (.inl (by simp [Layout.extend])) new
      · exact hset p hp
  | case5 l n rest hn ih =>
    obtain ⟨new, heq, hlink, hset⟩ := ih hl
    have hc : callsOf (n :: rest) = callsOf rest := by
      cases n with
      | invoke ns name args => exact absurd rfl (hn ns name args)
      | _ => rfl
    rw [hc]
    exact ⟨new, heq, hlink, hset⟩

/-- Linking without a bound: the waiting trees are gone through one after the other, and the functions
that a tree reaches wait behind them, until none is left. -/
inductive Linking (fns : List Defn) : Layout → List Node → Layout → Prop where
  | done {l : Layout} : Linking fns l [] l
  | next {l l₁ l' : Layout} {root : Node} {waiting found : List Node}
    (h : newlyReached fns l root.flatten = (l₁, found))
    (hrest : Linking fns l₁ (waiting ++ found) l') : Linking fns l (root :: waiting) l'

/-- Linking comes to its end within the fuel if the trees still to go through, and the calls that have
not led to a function yet, are no more than that. -/
theorem linking_link (fns : List Defn) (calls : List (String × String)) (base : Layout)
    (hfns : ∀ d ∈ fns, callsOf d.node.flatten ⊆ calls) (fuel : Nat) (old : List Reached)
    (waiting : List Node) (hold : Linkable fns calls base old)
    (hcalls : callsOf (Node.flattenAll waiting) ⊆ calls)
    (hfuel : waiting.length + (calls.length - old.length) ≤ fuel) :
    Linking fns (base.extend old) waiting (link fns fuel (base.extend old) waiting) := by
  induction fuel generalizing old waiting with
  | zero =>
    obtain rfl : waiting = [] := List.eq_nil_of_length_eq_zero (by omega)
    exact .done
  | succ fuel ih =>
    cases waiting with
    | nil => exact .done
    | cons root waiting =>
      obtain ⟨found, heq, hlink, -⟩ :=
        newlyReached_spec fns (base.extend old) root.flatten hold.nodup
      have hroot : callsOf root.flatten ⊆ calls := fun p hp =>
        hcalls (callsOf_subset (Node.flatten_subset_flattenAll List.mem_cons_self) hp)
      have hboth : Linkable fns calls base (old ++ found) := hold.trans (hlink.mono hroot)
      have hlen : old.length + found.length ≤ calls.length := by simpa using hboth.length_le
      have hmore : callsOf (Node.flattenAll (waiting ++ found.map (·.2.node))) ⊆ calls := by
        intro p hp
        obtain ⟨args, ha⟩ := mem_callsOf.1 hp
        obtain ⟨n, hn, hin⟩ := Node.mem_flattenAll.1 ha
        rcases List.mem_append.1 hn with hn | hn
        · exact hcalls (mem_callsOf.2
            ⟨args, Node.mem_flattenAll.2 ⟨n, List.mem_cons_of_mem _ hn, hin⟩⟩)
        · obtain ⟨r, hr, rfl⟩ := List.mem_map.1 hn
          have hd : r.2 ∈ fns := List.mem_of_find?_eq_some (hlink.found r hr)
          exact hfns r.2 hd (mem_callsOf.2 ⟨args, hin⟩)
      have hfuel' : (waiting ++ found.map (·.2.node)).length
          + (calls.length - (old ++ found).length) ≤ fuel := by
        simp only [List.length_append, List.length_map, List.length_cons] at hfuel ⊢
        omega
      refine .next heq ?_
      rw [link, heq, ← base.extend_append]
      exact ih (old ++ found) _ hboth hmore hfuel'

/-- Linking the functions that forms reach comes to its end. -/
theorem linking_linkFuel (fns : List Defn) (forms : List Node) {base : Layout}
    (hbase : base.keys.Nodup) : Linking fns base forms (link fns (linkFuel fns forms) base forms) := by
  let calls := callsOf (Node.flattenAll forms) ++ callsOf (Node.flattenAll (fns.map Defn.node))
  have hempty : Linkable fns calls base [] :=
    ⟨by simp, by simp, by rw [base.extend_nil]; exact hbase⟩
  have hfns : ∀ d ∈ fns, callsOf d.node.flatten ⊆ calls := fun d hd =>
    List.subset_append_of_subset_right _
      (callsOf_subset (Node.flatten_subset_flattenAll (List.mem_map_of_mem hd)))
  have hfuel : forms.length + (calls.length - ([] : List Reached).length)
      ≤ linkFuel fns forms := by
    simp only [linkFuel, callCount_eq, calls, List.length_append, List.length_nil]
    omega
  have hlink := linking_link fns calls base hfns (linkFuel fns forms) [] forms hempty
    (List.subset_append_left _ _) hfuel
  rwa [base.extend_nil] at hlink

/-- Linking adds functions until every call in the waiting trees, and in the functions that it adds, is
settled. What is true of the calls there, and hands itself on to the calls in the functions that
these stand for, is true of all that it adds. -/
theorem Linking.spec {fns : List Defn} {l l' : Layout} {waiting : List Node}
    (h : Linking fns l waiting l') (hl : l.keys.Nodup) {C : String × String → Prop}
    (hwaiting : ∀ p ∈ callsOf (Node.flattenAll waiting), C p)
    (hclosed : ∀ p d, C p → p ∉ l.keys → shared? fns p = some d →
      ∀ q ∈ callsOf d.node.flatten, C q) :
    ∃ new, l' = l.extend new ∧ (l.extend new).keys.Nodup ∧
      (∀ r ∈ new, shared? fns r.1 = some r.2 ∧ C r.1) ∧
      ∀ p ∈ callsOf (Node.flattenAll (waiting ++ new.map (·.2.node))),
        Settled fns (l.extend new) p := by
  induction h with
  | @done l =>
    exact ⟨[], l.extend_nil.symm, by rwa [l.extend_nil], by simp,
      by simp [Node.flattenAll, callsOf]⟩
  | @next l l₁ l' root waiting found hreached hrest ih =>
    obtain ⟨new, heq, hlink, hset⟩ := newlyReached_spec fns l root.flatten hl
    rw [hreached] at heq
    obtain ⟨rfl, rfl⟩ := Prod.mk.inj heq
    have hsplit : ∀ p, p ∈ callsOf (Node.flattenAll (root :: waiting)) ↔
        p ∈ callsOf root.flatten ∨ p ∈ callsOf (Node.flattenAll waiting) := by
      intro p
      rw [Node.flattenAll, callsOf_append, List.mem_append]
    have hnew : ∀ r ∈ new, shared? fns r.1 = some r.2 ∧ C r.1 := fun r hr =>
      ⟨hlink.found r hr, hwaiting _ ((hsplit _).mpr (.inl (hlink.called r hr)))⟩
    have hfresh : ∀ r ∈ new, r.1 ∉ l.keys := by
      intro r hr hin
      have hdisjoint := List.disjoint_of_nodup_append hlink.nodup
      exact hdisjoint hin (List.mem_map_of_mem hr)
    obtain ⟨more, rfl, hnodup, hmore, hsettled⟩ := ih hlink.nodup
      (fun p hp => by
        rw [Node.flattenAll_append, callsOf_append, List.mem_append] at hp
        rcases hp with hp | hp
        · exact hwaiting p ((hsplit p).mpr (.inr hp))
        · obtain ⟨args, ha⟩ := mem_callsOf.1 hp
          obtain ⟨n, hn, hin⟩ := Node.mem_flattenAll.1 ha
          obtain ⟨r, hr, rfl⟩ := List.mem_map.1 hn
          exact hclosed r.1 r.2 (hnew r hr).2 (hfresh r hr) (hnew r hr).1 p
            (mem_callsOf.2 ⟨args, hin⟩))
      (fun p d hp hout => hclosed p d hp fun hin => hout (List.mem_append_left _ hin))
    refine ⟨new ++ more, (l.extend_append new more).symm, ?_, ?_, ?_⟩
    · rwa [l.extend_append]
    · exact fun r hr => (List.mem_append.mp hr).elim (hnew r) (hmore r)
    · intro p hp
      rw [l.extend_append]
      rw [List.cons_append, Node.flattenAll, callsOf_append, List.mem_append] at hp
      rcases hp with hp | hp
      · exact (hset p hp).extend more
      · exact hsettled p (by simpa using hp)

/-! ## Imports -/

/-- How many values a function import takes and gives, by the module it is from. -/
inductive Role : String → Nat → Nat → Prop where
  | env (params : Nat) : Role envModule params 1
  | var : Role varModule 0 1
  | varDef : Role varDefModule 1 0

theorem Role.unique {module : String} {p q r t : Nat} (h : Role module p r)
    (h' : Role module q t) (henv : module = envModule → p = q) : p = q ∧ r = t := by
  generalize hm : module = module' at h'
  cases h with
  | env =>
    cases h' with
    | env => exact ⟨henv rfl, rfl⟩
    | var => exact absurd hm (by decide)
    | varDef => exact absurd hm (by decide)
  | var =>
    cases h' with
    | env => exact absurd hm (by decide)
    | var => exact ⟨rfl, rfl⟩
    | varDef => exact absurd hm (by decide)
  | varDef =>
    cases h' with
    | env => exact absurd hm (by decide)
    | var => exact absurd hm (by decide)
    | varDef => exact ⟨rfl, rfl⟩

/-- The name of a function import. -/
def Wanted.func? : Wanted → Option (String × String)
  | .func module name _ _ => some (module, name)
  | .global _ => none

/-- The name of an imported data symbol. -/
def Wanted.global? : Wanted → Option String
  | .func .. => none
  | .global name => some name

/-- The imports of a layout: nothing twice, each function in its role, and no data symbol that the
module has itself. -/
structure Layout.Tidy (l : Layout) : Prop where
  funcs : (l.imports.filterMap Wanted.func?).Nodup
  roles : ∀ module name params results, .func module name params results ∈ l.imports →
    Role module params results
  globals : (l.imports.filterMap Wanted.global?).Nodup
  foreign : ∀ name, .global name ∈ l.imports → name ∉ l.globals.map (·.1)

/-- What a node refers to has a place in the layout. -/
def Layout.Places (l : Layout) : Node → Prop
  | .invoke ns name args =>
    (ns, name) ∈ l.keys ∨ .func envModule (Symbol.qualify ns name) args.length 1 ∈ l.imports
  | .foreignCall name args => .func envModule name args.length 1 ∈ l.imports
  | .varRef ns name => .func varModule (Symbol.qualify ns name) 0 1 ∈ l.imports
  | .bindVar ns name _ => .func varDefModule (Symbol.qualify ns name) 1 0 ∈ l.imports
  | .foreignGet name => name ∈ l.globals.map (·.1) ∨ .global name ∈ l.imports
  | .foreignSet name _ => name ∈ l.globals.map (·.1) ∨ .global name ∈ l.imports
  | _ => True

/-- The import that a node needs unless the module has what it refers to itself. -/
def wantedBy? : Node → Option Wanted
  | .invoke ns name args => some (.func envModule (Symbol.qualify ns name) args.length 1)
  | .foreignCall name args => some (.func envModule name args.length 1)
  | .varRef ns name => some (.func varModule (Symbol.qualify ns name) 0 1)
  | .bindVar ns name _ => some (.func varDefModule (Symbol.qualify ns name) 1 0)
  | .foreignGet name => some (.global name)
  | .foreignSet name _ => some (.global name)
  | _ => none

/-- The layout has no function for what the node calls. -/
def Layout.Lacks (l : Layout) : Node → Prop
  | .invoke ns name _ => (ns, name) ∉ l.keys
  | _ => True

/-- A layout with imports after its own. -/
def Layout.importing (l : Layout) (more : List Wanted) : Layout :=
  { l with imports := l.imports ++ more }

theorem Layout.Places.importing {l : Layout} {n : Node} (h : l.Places n) (more : List Wanted) :
    (l.importing more).Places n := by
  cases n with
  | invoke ns name args => exact h.imp_right (List.mem_append_left _)
  | foreignCall name args => exact List.mem_append_left _ h
  | varRef ns name => exact List.mem_append_left _ h
  | bindVar ns name init => exact List.mem_append_left _ h
  | foreignGet name => exact h.imp_right (List.mem_append_left _)
  | foreignSet name value => exact h.imp_right (List.mem_append_left _)
  | _ => trivial

theorem importArity?_eq_none {imports : List Wanted} {module name : String}
    (h : importArity? imports module name = none) :
    (module, name) ∉ imports.filterMap Wanted.func? := by
  rw [importArity?, List.findSome?_eq_none_iff] at h
  intro hmem
  obtain ⟨w, hw, hname⟩ := List.mem_filterMap.1 hmem
  cases w with
  | func m n p r =>
    cases hname
    have := h _ hw
    simp at this
  | global n => cases hname

theorem importArity?_eq_some {imports : List Wanted} {module name : String} {params : Nat}
    (h : importArity? imports module name = some params) :
    ∃ results, .func module name params results ∈ imports := by
  rw [importArity?] at h
  obtain ⟨w, hw, hp⟩ := List.exists_of_findSome?_eq_some h
  cases w with
  | func m n p r =>
    simp only [Bool.and_eq_true, decide_eq_true_eq] at hp
    split at hp
    · rename_i hmn
      cases hp
      exact ⟨r, hmn.1 ▸ hmn.2 ▸ hw⟩
    · cases hp
  | global n => cases hp

/-- A function is imported in its role, whether it was there before or not. -/
theorem addImport_spec {l l' : Layout} {module name : String} {params results : Nat}
    (h : addImport l module name params results = .ok l') (hrole : Role module params results)
    (hl : l.Tidy) :
    ∃ more, l' = l.importing more ∧ more ⊆ [.func module name params results] ∧ l'.Tidy ∧
      .func module name params results ∈ l'.imports := by
  rw [addImport] at h
  cases ha : importArity? l.imports module name with
  | none =>
    rw [ha] at h
    cases h
    have hnew := importArity?_eq_none ha
    refine ⟨[.func module name params results], rfl, List.Subset.refl _, ⟨?_, ?_, ?_, ?_⟩, by simp⟩
    · rw [List.filterMap_append]
      exact hl.funcs.append (List.nodup_singleton _) (by simpa [Wanted.func?] using hnew)
    · intro m n p r hm
      rcases List.mem_append.1 hm with hm | hm
      · exact hl.roles m n p r hm
      · simp only [List.mem_singleton, Wanted.func.injEq] at hm
        obtain ⟨rfl, rfl, rfl, rfl⟩ := hm
        exact hrole
    · simpa [List.filterMap_append, List.filterMap_cons, Wanted.global?] using hl.globals
    · intro n hn
      exact hl.foreign n (by simpa using hn)
  | some before =>
    rw [ha] at h
    simp only [Bool.and_eq_true, decide_eq_true_eq] at h
    split at h
    · cases h
    · rename_i hagree
      cases h
      obtain ⟨r, hmem⟩ := importArity?_eq_some ha
      have heq := (hl.roles _ _ _ _ hmem).unique hrole fun henv => by
        by_contra hne
        exact hagree ⟨henv, hne⟩
      obtain ⟨rfl, rfl⟩ := heq
      exact ⟨[], by simp [Layout.importing], List.nil_subset _, hl, hmem⟩

theorem addGlobalImport_spec (l : Layout) (name : String) (hl : l.Tidy) :
    ∃ more, addGlobalImport l name = l.importing more ∧ more ⊆ [.global name] ∧
      (addGlobalImport l name).Tidy ∧
      (name ∈ l.globals.map (·.1) ∨ .global name ∈ (addGlobalImport l name).imports) := by
  unfold addGlobalImport
  split
  · rename_i hin
    refine ⟨[], by simp [Layout.importing], List.nil_subset _, hl, ?_⟩
    rcases Bool.or_eq_true_iff.1 hin with hin | hin
    · left
      simpa using hin
    · right
      simpa using hin
  · rename_i hnew
    simp only [Bool.or_eq_true, not_or, Bool.not_eq_true, List.contains_eq_mem,
      decide_eq_false_iff_not] at hnew
    obtain ⟨hown, hnot⟩ := hnew
    have hown : name ∉ l.globals.map (·.1) := by
      rintro hmem
      obtain ⟨g, hg, rfl⟩ := List.mem_map.1 hmem
      simpa using List.any_eq_false.1 hown g hg
    refine ⟨[.global name], rfl, List.Subset.refl _, ⟨?_, ?_, ?_, ?_⟩, by simp⟩
    · simpa [List.filterMap_append, List.filterMap_cons, Wanted.func?] using hl.funcs
    · intro m n p r hm
      exact hl.roles m n p r (by simpa using hm)
    · rw [List.filterMap_append]
      refine hl.globals.append (List.nodup_singleton _) ?_
      simp only [List.filterMap_cons, Wanted.global?, List.filterMap_nil,
        List.disjoint_singleton, List.mem_filterMap, not_exists, not_and]
      intro w hw hname
      cases w with
      | func => cases hname
      | global n => cases hname; exact hnot hw
    · intro n hn
      rcases List.mem_append.1 hn with hn | hn
      · exact hl.foreign n hn
      · simp only [List.mem_singleton, Wanted.global.injEq] at hn
        subst hn
        exact hown

/-- What a node refers to gets its place. -/
theorem addImports_spec {l l' : Layout} {n : Node} (h : addImports l n = .ok l') (hl : l.Tidy) :
    ∃ more, l' = l.importing more ∧ (∀ w ∈ more, wantedBy? n = some w ∧ l.Lacks n) ∧ l'.Tidy ∧
      l'.Places n := by
  have hone : ∀ {more : List Wanted} {w : Wanted}, wantedBy? n = some w → l.Lacks n →
      more ⊆ [w] → ∀ w' ∈ more, wantedBy? n = some w' ∧ l.Lacks n := by
    intro more w hw hlacks hsub w' hw'
    rw [hw, List.mem_singleton.1 (hsub hw')]
    exact ⟨rfl, hlacks⟩
  cases n with
  | invoke ns name args =>
    rw [addImports] at h
    split at h
    · rename_i hin
      cases h
      exact ⟨[], by simp [Layout.importing], by simp, hl, .inl (by simpa using hin)⟩
    · rename_i hout
      have hlacks : (ns, name) ∉ l.keys := by simpa using hout
      obtain ⟨more, heq, hsub, ht, hmem⟩ := addImport_spec h (.env _) hl
      exact ⟨more, heq, hone rfl hlacks hsub, ht, .inr hmem⟩
  | foreignCall name args =>
    obtain ⟨more, heq, hsub, ht, hmem⟩ := addImport_spec h (.env _) hl
    exact ⟨more, heq, hone rfl trivial hsub, ht, hmem⟩
  | varRef ns name =>
    obtain ⟨more, heq, hsub, ht, hmem⟩ := addImport_spec h .var hl
    exact ⟨more, heq, hone rfl trivial hsub, ht, hmem⟩
  | bindVar ns name init =>
    obtain ⟨more, heq, hsub, ht, hmem⟩ := addImport_spec h .varDef hl
    exact ⟨more, heq, hone rfl trivial hsub, ht, hmem⟩
  | foreignGet name | foreignSet name _ =>
    cases h
    obtain ⟨more, heq, hsub, ht, hp⟩ := addGlobalImport_spec l name hl
    refine ⟨more, heq, hone rfl trivial hsub, ht, ?_⟩
    rw [heq] at hp ⊢
    exact hp
  | _ =>
    cases h
    exact ⟨[], by simp [Layout.importing], by simp, hl, trivial⟩

/-- What nodes refer to gets its place, one after the other, and nothing else is imported. -/
theorem imports_spec {l l' : Layout} {nodes : List Node}
    (h : nodes.foldlM addImports l = .ok l') (hl : l.Tidy) :
    ∃ more, l' = l.importing more ∧
      (∀ w ∈ more, ∃ n ∈ nodes, wantedBy? n = some w ∧ l.Lacks n) ∧ l'.Tidy ∧
      ∀ n ∈ nodes, l'.Places n := by
  induction nodes generalizing l with
  | nil =>
    cases h
    exact ⟨[], by simp [Layout.importing], by simp, hl, by simp⟩
  | cons n nodes ih =>
    rw [List.foldlM_cons] at h
    cases hn : addImports l n with
    | error e => rw [hn] at h; cases h
    | ok l₁ =>
      rw [hn] at h
      obtain ⟨m₁, rfl, hw, ht, hp⟩ := addImports_spec hn hl
      obtain ⟨m₂, rfl, hws, ht', hps⟩ := ih h ht
      refine ⟨m₁ ++ m₂, by simp [Layout.importing], fun w hw' => ?_, ht', ?_⟩
      · rcases List.mem_append.1 hw' with hw' | hw'
        · exact ⟨n, List.mem_cons_self, hw w hw'⟩
        · -- imports leave the functions alone
          obtain ⟨m, hm, hwant, hlacks⟩ := hws w hw'
          exact ⟨m, List.mem_cons_of_mem _ hm, hwant, hlacks⟩
      · intro m hm
        rcases List.mem_cons.1 hm with rfl | hm
        · exact hp.importing m₂
        · exact hps m hm

/-! ## The whole layout -/

/-- The nodes that code is generated of: those of the unit and of the functions linked to it. -/
def reachedNodes (u : CompUnit) (new : List Reached) : List Node :=
  Node.flattenAll (u.forms ++ new.map (·.2.node))

/-- The layout of a unit, in which the preamble functions `new` are linked. -/
structure Layout.Built (u : CompUnit) (fns : List Defn) (new : List Reached) (l : Layout) :
    Prop where
  funcs : l.funcs = u.nodes.filterMap definition? ++
    new.map fun r => { defn := r.2, exported := false }
  keys : l.keys = (u.nodes.filterMap definition?).map Linked.key ++ new.map (·.1)
  globals : l.globals = u.nodes.filterMap dataSymbol?
  found : ∀ r ∈ new, shared? fns r.1 = some r.2
  distinct : l.Distinct
  tidy : l.Tidy
  places : ∀ n ∈ reachedNodes u new, l.Places n
  wanted : ∀ w ∈ l.imports, ∃ n ∈ reachedNodes u new, wantedBy? n = some w
  settled : ∀ p ∈ callsOf (reachedNodes u new), Settled fns l p

theorem definition?_exported {nodes : List Node} {f : Linked}
    (h : f ∈ nodes.filterMap definition?) : f.exported = true ∧ f.defn.node ∈ nodes := by
  obtain ⟨n, hn, hf⟩ := List.mem_filterMap.1 h
  cases n with
  | defn ns name params body => cases hf; exact ⟨rfl, hn⟩
  | _ => cases hf

/-- The preamble functions in a layout are those that linking has added. -/
theorem added_extend (nodes : List Node) (new : List Reached) :
    (((({} : Layout).define nodes).extend new).funcs.filter (!·.exported)).map (·.defn.node) =
      new.map (·.2.node) := by
  have hown : (nodes.filterMap definition?).filter (!·.exported) = [] := by
    rw [List.filter_eq_nil_iff]
    intro f hf
    simp [(definition?_exported hf).1]
  have hnew : (new.map fun r : Reached => ({ defn := r.2, exported := false } : Linked)).filter
      (!·.exported) = new.map fun r => { defn := r.2, exported := false } := by
    rw [List.filter_eq_self]
    intro f hf
    obtain ⟨r, -, rfl⟩ := List.mem_map.1 hf
    rfl
  simp only [Layout.extend, Layout.define, List.nil_append, List.filter_append, hown, hnew,
    List.map_map]
  rfl

/-- Before the last walk there are no imports. -/
theorem tidy_extend (nodes : List Node) (new : List Reached) :
    ((({} : Layout).define nodes).extend new).Tidy :=
  ⟨List.nodup_nil, fun _ _ _ _ hm => absurd hm List.not_mem_nil, List.nodup_nil,
    fun _ hm => absurd hm List.not_mem_nil⟩

/-- Every layout of a unit is built so, and its imports are for what it has no function for. What is
true of the calls in the unit, and hands itself on to the calls in the preamble functions that these
stand for, is true of all calls that functions are linked for. -/
theorem ofUnit_linked {u : CompUnit} {fns : List Defn} {l : Layout}
    (h : Layout.ofUnit u fns = .ok l) {C : String × String → Prop} (hunit : ∀ p ∈ callsOf u.nodes, C p)
    (hclosed : ∀ p d, C p → p ∉ (u.nodes.filterMap definition?).map Linked.key →
      shared? fns p = some d → ∀ q ∈ callsOf d.node.flatten, C q) :
    ∃ new, Layout.Built u fns new l ∧ (∀ r ∈ new, C r.1) ∧
      ∀ w ∈ l.imports, ∃ n ∈ reachedNodes u new, wantedBy? n = some w ∧ l.Lacks n := by
  rw [Layout.ofUnit] at h
  cases hdef : u.nodes.foldlM addDefinition {} with
  | error e => rw [hdef] at h; cases h
  | ok base =>
    rw [hdef] at h
    replace h : (Node.flattenAll (u.forms ++ ((link fns (linkFuel fns u.forms) base u.forms).funcs.filter
      (!·.exported)).map (·.defn.node))).foldlM addImports
        (link fns (linkFuel fns u.forms) base u.forms) = .ok l := h
    obtain ⟨rfl, hdist⟩ := definitions_eq hdef ⟨List.nodup_nil, List.nodup_nil⟩
    obtain ⟨new, heq, hnodup, hfound, hset⟩ :=
      (linking_linkFuel fns u.forms hdist.keys).spec hdist.keys hunit
        (fun p d hp hout => hclosed p d hp (by simpa [Layout.define] using hout))
    rw [heq, added_extend] at h
    obtain ⟨more, rfl, hw, ht, hp⟩ := imports_spec h (tidy_extend u.nodes new)
    have hwanted : ∀ w ∈ (((({} : Layout).define u.nodes).extend new).importing more).imports,
        ∃ n ∈ reachedNodes u new, wantedBy? n = some w ∧
          (({} : Layout).define u.nodes |>.extend new).Lacks n := by
      simpa [Layout.importing, Layout.extend, Layout.define, reachedNodes] using hw
    refine ⟨new, ⟨by simp [Layout.importing, Layout.extend, Layout.define],
      by simp [Layout.importing, Layout.extend, Layout.define],
      by simp [Layout.importing, Layout.extend, Layout.define],
      fun r hr => (hfound r hr).1, ⟨hnodup, hdist.globals⟩, ht, hp, fun w hw => ?_, hset⟩,
      fun r hr => (hfound r hr).2, hwanted⟩
    obtain ⟨n, hn, hwant, -⟩ := hwanted w hw
    exact ⟨n, hn, hwant⟩

theorem ofUnit_built {u : CompUnit} {fns : List Defn} {l : Layout}
    (h : Layout.ofUnit u fns = .ok l) : ∃ new, Layout.Built u fns new l := by
  obtain ⟨new, hnew, -, -⟩ := ofUnit_linked h (C := fun _ => True) (fun _ _ => trivial)
    (fun _ _ _ _ _ _ _ => trivial)
  exact ⟨new, hnew⟩

namespace Layout.Built

variable {u : CompUnit} {fns : List Defn} {new : List Reached} {l : Layout}

theorem length_keys (h : l.Built u fns new) : l.keys.length = l.funcs.length := by
  simp [h.keys, h.funcs]

/-- Code is generated of all nodes of a form. -/
theorem form_subset {n : Node} (hn : n ∈ u.forms) : n.flatten ⊆ reachedNodes u new :=
  Node.flatten_subset_flattenAll (List.mem_append_left _ hn)

/-- Code is generated of all nodes of a function's body. -/
theorem body_subset (h : l.Built u fns new) {f : Linked} (hf : f ∈ l.funcs) :
    f.defn.body.flatten ⊆ reachedNodes u new := by
  rw [h.funcs, List.mem_append] at hf
  have hbody : f.defn.body.flatten ⊆ f.defn.node.flatten := by
    rw [Defn.node, Node.flatten]
    exact List.subset_cons_self _ _
  refine List.Subset.trans hbody ?_
  rcases hf with hf | hf
  · have hin : f.defn.node ∈ Node.flattenAll u.forms := (definition?_exported hf).2
    rw [reachedNodes, Node.flattenAll_append]
    exact List.subset_append_of_subset_left _ (Node.flatten_subset_all hin)
  · obtain ⟨r, hr, rfl⟩ := List.mem_map.1 hf
    exact Node.flatten_subset_flattenAll
      (List.mem_append_right _ (List.mem_map_of_mem hr))

end Layout.Built

/-! ## Indices -/

namespace Layout

variable {l : Layout}

/-- The names behind the indices of globals. -/
def globalNames (l : Layout) : List String := l.globalImports ++ l.globals.map (·.1)

theorem globalImports_eq (l : Layout) : l.globalImports = l.imports.filterMap Wanted.global? := by
  unfold globalImports
  congr 1
  funext w
  cases w <;> rfl

theorem mem_globalImports {name : String} : name ∈ l.globalImports ↔ .global name ∈ l.imports := by
  rw [globalImports_eq, List.mem_filterMap]
  constructor
  · rintro ⟨w, hw, h⟩
    cases w with
    | func => cases h
    | global n => cases h; exact hw
  · intro h
    exact ⟨_, h, rfl⟩

theorem mem_funcImports {w : Wanted} : w ∈ l.funcImports ↔ w ∈ l.imports ∧ w.func?.isSome := by
  unfold funcImports
  cases w <;> simp [Wanted.func?]

theorem map_func?_funcImports (l : Layout) :
    l.funcImports.map Wanted.func? = (l.imports.filterMap Wanted.func?).map some := by
  unfold funcImports
  induction l.imports with
  | nil => rfl
  | cons w ws ih => cases w <;> simp [List.filterMap_cons, Wanted.func?, ih]

/-- The names behind the indices of function imports are distinct. -/
theorem Tidy.nodup_funcImports (h : l.Tidy) : (l.funcImports.map Wanted.func?).Nodup := by
  rw [map_func?_funcImports]
  exact h.funcs.map fun _ _ => Option.some.inj

/-- The index of an import leads to it. -/
theorem Tidy.importIndex_spec (h : l.Tidy) {module name : String} {params results : Nat}
    (hin : .func module name params results ∈ l.imports) :
    l.funcImports[l.importIndex module name]? = some (.func module name params results) := by
  have hmem : .func module name params results ∈ l.funcImports := mem_funcImports.2 ⟨hin, rfl⟩
  rw [importIndex]
  cases hi : l.funcImports.findIdx? _ with
  | none =>
    have := List.findIdx?_eq_none_iff.1 hi _ hmem
    simp at this
  | some i =>
    obtain ⟨hlt, hp, -⟩ := List.findIdx?_eq_some_iff_getElem.1 hi
    rw [Option.getD_some, List.getElem?_eq_getElem hlt]
    obtain ⟨j, hj, hjw⟩ := List.getElem_of_mem hmem
    -- two imports of one name are the same import
    have hname : (l.funcImports[i]).func? = some (module, name) := by
      cases hw : l.funcImports[i] with
      | func m n p r => simpa [hw, Wanted.func?] using hp
      | global n => simp [hw] at hp
    have hij : i = j := by
      refine (List.getElem?_inj (by simpa) h.nodup_funcImports).1 ?_
      rw [List.getElem?_map, List.getElem?_map, List.getElem?_eq_getElem hlt,
        List.getElem?_eq_getElem hj, hjw, Option.map_some, hname]
      rfl
    subst hij
    rw [hjw]

/-- The index of a data symbol leads to its name. -/
theorem globalIndex_spec {name : String}
    (hin : name ∈ l.globals.map (·.1) ∨ .global name ∈ l.imports) :
    l.globalNames[l.globalIndex name]? = some name := by
  rw [globalIndex, globalNames]
  cases hi : l.globals.findIdx? (·.1 == name) with
  | some i =>
    obtain ⟨hlt, hp, -⟩ := List.findIdx?_eq_some_iff_getElem.1 hi
    rw [List.getElem?_append_right (Nat.le_add_right _ _), Nat.add_sub_cancel_left,
      List.getElem?_map, List.getElem?_eq_getElem hlt]
    simpa using hp
  | none =>
    have hout : name ∉ l.globals.map (·.1) := by
      intro hmem
      obtain ⟨g, hg, rfl⟩ := List.mem_map.1 hmem
      simpa using List.findIdx?_eq_none_iff.1 hi g hg
    have hmem : name ∈ l.globalImports := mem_globalImports.2 (hin.resolve_left hout)
    have hlt := List.idxOf_lt_length_of_mem hmem
    rw [List.getElem?_append_left hlt, List.getElem?_eq_getElem hlt, List.getElem_idxOf hlt]

/-- The index of a defined function leads to the function that has its pair. -/
theorem funcIndex?_eq_some {ns name : String} {index params : Nat}
    (h : l.funcIndex? ns name = some (index, params)) :
    ∃ i f, l.keys[i]? = some (ns, name) ∧ l.funcs[i]? = some f ∧
      index = l.funcImports.length + i ∧ params = f.defn.params.length := by
  simp only [funcIndex?, bind, Option.bind_eq_some_iff] at h
  obtain ⟨i, hi, f, hf, hp⟩ := h
  cases hp
  obtain ⟨hlt, hk, -⟩ := List.findIdx?_eq_some_iff_getElem.1 hi
  refine ⟨i, f, ?_, hf, rfl, rfl⟩
  rw [List.getElem?_eq_getElem hlt]
  simpa using hk

/-- A pair without an index has no function. -/
theorem funcIndex?_eq_none {ns name : String} (hl : l.keys.length = l.funcs.length)
    (h : l.funcIndex? ns name = none) : (ns, name) ∉ l.keys := by
  intro hmem
  simp only [funcIndex?, bind, Option.bind_eq_none_iff] at h
  cases hi : l.keys.findIdx? (· == (ns, name)) with
  | none =>
    have := List.findIdx?_eq_none_iff.1 hi _ hmem
    simp at this
  | some i =>
    obtain ⟨hlt, -, -⟩ := List.findIdx?_eq_some_iff_getElem.1 hi
    have := h i hi l.funcs[i] (List.getElem?_eq_getElem (hl ▸ hlt))
    simp at this

theorem funcIndex?_of_key {i : Nat} {p : String × String} {f : Linked} (hd : l.Distinct)
    (hk : l.keys[i]? = some p) (hf : l.funcs[i]? = some f) :
    l.funcIndex? p.1 p.2 = some (l.funcImports.length + i, f.defn.params.length) := by
  obtain ⟨hlt, hp⟩ := List.getElem?_eq_some_iff.1 hk
  have hi : l.keys.findIdx? (· == p) = some i := by
    refine List.findIdx?_eq_some_iff_getElem.2 ⟨hlt, by simp [hp], fun j hj => ?_⟩
    have hne : l.keys[j] ≠ l.keys[i] := fun heq =>
      absurd ((hd.keys.getElem_inj_iff).1 heq) (by omega)
    rw [hp] at hne
    simpa using hne
  simp only [funcIndex?, hi, hf, bind, pure, Option.bind_some]

end Layout

/-! ## Calls -/

/-- The function that calls of a pair stand for: one of the unit, or else a preamble function. -/
def callee? (u : CompUnit) (fns : List Defn) (p : String × String) : Option Defn :=
  match (u.nodes.filterMap definition?).find? (·.key == p) with
  | some f => some f.defn
  | none => shared? fns p

namespace Layout.Built

variable {u : CompUnit} {fns : List Defn} {new : List Reached} {l : Layout}

/-- Calls of a function use its index. -/
theorem callee?_eq_some (h : l.Built u fns new) {p : String × String} {d : Defn}
    (hp : p ∈ callsOf (reachedNodes u new)) (hd : callee? u fns p = some d) :
    ∃ i f, l.funcs[i]? = some f ∧ f.defn = d ∧
      l.funcIndex? p.1 p.2 = some (l.funcImports.length + i, d.params.length) := by
  suffices hplace : ∃ (i : Nat) (f : Linked), l.keys[i]? = some p ∧ l.funcs[i]? = some f ∧ f.defn = d by
    obtain ⟨i, f, hk, hf, rfl⟩ := hplace
    exact ⟨i, f, hf, rfl, funcIndex?_of_key h.distinct hk hf⟩
  unfold callee? at hd
  split at hd
  · rename_i f hfind
    cases hd
    obtain ⟨i, hi, hif⟩ := List.getElem_of_mem (List.mem_of_find?_eq_some hfind)
    have hkey : f.key = p := by simpa using List.find?_some hfind
    refine ⟨i, f, ?_, ?_, rfl⟩
    · rw [h.keys, List.getElem?_append_left (by simpa using hi), List.getElem?_map,
        List.getElem?_eq_getElem hi, hif, Option.map_some, hkey]
    · rw [h.funcs, List.getElem?_append_left hi, List.getElem?_eq_getElem hi, hif]
  · rename_i hfind
    have hin : p ∈ l.keys := (h.settled p hp).resolve_right (by simp [hd])
    rw [h.keys, List.mem_append] at hin
    have hown : p ∉ (u.nodes.filterMap definition?).map Linked.key := by
      intro hmem
      obtain ⟨f, hf, rfl⟩ := List.mem_map.1 hmem
      simpa using List.find?_eq_none.1 hfind f hf
    obtain ⟨r, hr, rfl⟩ := List.mem_map.1 (hin.resolve_left hown)
    obtain ⟨j, hj, rfl⟩ := List.getElem_of_mem hr
    have heq : new[j].2 = d := Option.some.inj ((h.found _ hr).symm.trans hd)
    refine ⟨(u.nodes.filterMap definition?).length + j, { defn := new[j].2, exported := false },
      ?_, ?_, heq⟩
    · rw [h.keys, List.getElem?_append_right (by simp), List.length_map,
        Nat.add_sub_cancel_left, List.getElem?_map, List.getElem?_eq_getElem hj, Option.map_some]
    · rw [h.funcs, List.getElem?_append_right (Nat.le_add_right _ _), Nat.add_sub_cancel_left,
        List.getElem?_map, List.getElem?_eq_getElem hj, Option.map_some]

/-- Calls of what is no function have no index. -/
theorem callee?_eq_none (h : l.Built u fns new) {p : String × String}
    (hd : callee? u fns p = none) : p ∉ l.keys := by
  unfold callee? at hd
  split at hd
  · cases hd
  · rename_i hfind
    rw [h.keys, List.mem_append]
    rintro (hmem | hmem)
    · obtain ⟨f, hf, rfl⟩ := List.mem_map.1 hmem
      simpa using List.find?_eq_none.1 hfind f hf
    · obtain ⟨r, hr, rfl⟩ := List.mem_map.1 hmem
      rw [h.found r hr] at hd
      cases hd

end Layout.Built

end WasmLisp.Codegen
