import Mathlib
import WasmLisp.Proofs.Renaming
import WasmLisp.Proofs.Results

/-!
# What the digest of a unit says of its forms

* `Node.AlphaEq`: nodes that differ by a renaming of the parameters of functions and of the names
  that `let` binds, told from the names alone;
* `Node.outline_eq_iff`: these are the nodes of equal outlines;
* `CompUnit.encode_outline_eq_iff_alphaEq`: the bytes that a unit's digest is taken of determine its
  effects, and its forms up to such a renaming.
-/

namespace WasmLisp

namespace Node

/-- The names that two nodes give to corresponding binders, the innermost first. -/
abbrev Binders := List (String × String)

/-- Two names stand for the same thing: for corresponding binders, or, if no binder has either name,
for themselves. A binder hides those further out that have its name. -/
inductive SameName : Binders → String → String → Prop where
  | here (ρ : Binders) (x y : String) : SameName ((x, y) :: ρ) x y
  | there {ρ : Binders} {x y a b : String} (hx : x ≠ a) (hy : y ≠ b) (h : SameName ρ x y) :
    SameName ((a, b) :: ρ) x y
  | free (x : String) : SameName [] x x

mutual

/-- The nodes are the same but for the names that they give to their binders. -/
inductive AlphaEq : Binders → Node → Node → Prop where
  | absent {ρ : Binders} : AlphaEq ρ .absent .absent
  | const {ρ : Binders} (v : Int64) : AlphaEq ρ (.const v) (.const v)
  | localVar {ρ : Binders} {x y : String} (h : SameName ρ x y) :
    AlphaEq ρ (.localVar x) (.localVar y)
  | varRef {ρ : Binders} (ns name : String) : AlphaEq ρ (.varRef ns name) (.varRef ns name)
  | bindVar {ρ : Binders} (ns name : String) {init init' : Node} (h : AlphaEq ρ init init') :
    AlphaEq ρ (.bindVar ns name init) (.bindVar ns name init')
  /-- A function sees its parameters, and no binder around it. -/
  | defn {ρ : Binders} (ns name : String) {params params' : List String} {body body' : Node}
    (hparams : params.length = params'.length)
    (h : AlphaEq (params.zip params').reverse body body') :
    AlphaEq ρ (.defn ns name params body) (.defn ns name params' body')
  | invoke {ρ : Binders} (ns name : String) {args args' : List Node} (h : AlphaAll ρ args args') :
    AlphaEq ρ (.invoke ns name args) (.invoke ns name args')
  | foreignCall {ρ : Binders} (name : String) {args args' : List Node}
    (h : AlphaAll ρ args args') : AlphaEq ρ (.foreignCall name args) (.foreignCall name args')
  | foreignGet {ρ : Binders} (name : String) : AlphaEq ρ (.foreignGet name) (.foreignGet name)
  | foreignSet {ρ : Binders} (name : String) {value value' : Node} (h : AlphaEq ρ value value') :
    AlphaEq ρ (.foreignSet name value) (.foreignSet name value')
  | defGlobal {ρ : Binders} (name : String) (init : Int64) :
    AlphaEq ρ (.defGlobal name init) (.defGlobal name init)
  | prim {ρ : Binders} (op : String) {args args' : List Node} (h : AlphaAll ρ args args') :
    AlphaEq ρ (.prim op args) (.prim op args')
  | ifElse {ρ : Binders} {c c' t t' e e' : Node} (hc : AlphaEq ρ c c') (ht : AlphaEq ρ t t')
    (he : AlphaEq ρ e e') : AlphaEq ρ (.ifElse c t e) (.ifElse c' t' e')
  | letIn {ρ σ : Binders} {bs bs' : List (String × Node)} {body body' : Node}
    (hbs : AlphaBindings ρ bs bs' σ) (h : AlphaEq σ body body') :
    AlphaEq ρ (.letIn bs body) (.letIn bs' body')
  | seq {ρ : Binders} {forms forms' : List Node} (h : AlphaAll ρ forms forms') :
    AlphaEq ρ (.seq forms) (.seq forms')

/-- The nodes of two lists are so one by one. -/
inductive AlphaAll : Binders → List Node → List Node → Prop where
  | nil {ρ : Binders} : AlphaAll ρ [] []
  | cons {ρ : Binders} {n n' : Node} {ns ns' : List Node} (h : AlphaEq ρ n n')
    (hs : AlphaAll ρ ns ns') : AlphaAll ρ (n :: ns) (n' :: ns')

/-- The values of bindings are so, each under the binders before it; with the binders after them. -/
inductive AlphaBindings : Binders → List (String × Node) → List (String × Node) → Binders → Prop where
  | nil {ρ : Binders} : AlphaBindings ρ [] [] ρ
  | cons {ρ σ : Binders} {x y : String} {n n' : Node} {bs bs' : List (String × Node)}
    (h : AlphaEq ρ n n') (hs : AlphaBindings ((x, y) :: ρ) bs bs' σ) :
    AlphaBindings ρ ((x, n) :: bs) ((y, n') :: bs') σ

end

/-! ## Names and positions -/

/-- Names stand for the same thing if they are at equal distances from their binders. -/
theorem sameName_iff {ρ : Binders} {x y : String} :
    SameName ρ x y ↔ scopeIndex? (ρ.map Prod.fst) x = scopeIndex? (ρ.map Prod.snd) y ∧
      (scopeIndex? (ρ.map Prod.fst) x = none → x = y) := by
  unfold scopeIndex?
  induction ρ with
  | nil =>
    constructor
    · rintro ⟨⟩
      simp
    · rintro ⟨-, h⟩
      rw [h (by simp)]
      exact .free y
  | cons p ρ ih =>
    obtain ⟨a, b⟩ := p
    simp only [List.map_cons, List.findIdx?_cons, beq_iff_eq]
    constructor
    · intro h
      cases h with
      | here => simp
      | there hx hy h =>
        obtain ⟨hindex, hfree⟩ := ih.mp h
        simp only [Ne.symm hx, Ne.symm hy, if_false, hindex, Option.map_eq_none_iff, true_and]
        rwa [hindex] at hfree
    · rintro ⟨hindex, hfree⟩
      split_ifs at hindex hfree with hx hy hy
      · rw [← hx, ← hy]
        exact .here ρ a b
      · simp at hindex
      · simp at hindex
      · refine .there (Ne.symm hx) (Ne.symm hy) (ih.mpr ⟨?_, ?_⟩)
        · exact Option.map_injective (add_left_injective 1) hindex
        · simpa using hfree

theorem map_fst_params {params params' : List String} (h : params.length = params'.length) :
    (params.zip params').reverse.map Prod.fst = params.reverse := by
  rw [List.map_reverse, List.map_fst_zip h.le]

theorem map_snd_params {params params' : List String} (h : params.length = params'.length) :
    (params.zip params').reverse.map Prod.snd = params'.reverse := by
  rw [List.map_reverse, List.map_snd_zip h.ge]

/-! ## Equal outlines -/

mutual

/-- Nodes that differ in the names of their binders have one outline. -/
theorem AlphaEq.outline_eq {ρ : Binders} {n n' : Node} (h : AlphaEq ρ n n') :
    n.outline (ρ.map Prod.fst) = n'.outline (ρ.map Prod.snd) := by
  cases h with
  | absent | const | varRef | foreignGet | defGlobal => simp only [outline]
  | @localVar ρ x y h =>
    obtain ⟨hindex, hfree⟩ := sameName_iff.mp h
    simp only [outline, hindex]
    split
    · rfl
    · rename_i hnone
      rw [hfree (hindex.trans hnone)]
  | bindVar ns name h | foreignSet name h => simp only [outline, h.outline_eq]
  | defn ns name hparams h =>
    have hbody := h.outline_eq
    rw [map_fst_params hparams, map_snd_params hparams] at hbody
    simp only [outline, hparams, hbody]
  | invoke ns name h | foreignCall name h | prim op h | seq h => simp only [outline, h.outlineAll_eq]
  | ifElse hc ht he => simp only [outline, hc.outline_eq, ht.outline_eq, he.outline_eq]
  | letIn hbs h =>
    obtain ⟨hvalues, hfst, hsnd⟩ := hbs.outlineBindings_eq
    simp only [outline, hvalues, ← hfst, ← hsnd, h.outline_eq]

theorem AlphaAll.outlineAll_eq {ρ : Binders} {ns ns' : List Node} (h : AlphaAll ρ ns ns') :
    outlineAll (ρ.map Prod.fst) ns = outlineAll (ρ.map Prod.snd) ns' := by
  cases h with
  | nil => simp only [outlineAll]
  | cons h hs => simp only [outlineAll, h.outline_eq, hs.outlineAll_eq]

theorem AlphaBindings.outlineBindings_eq {ρ σ : Binders} {bs bs' : List (String × Node)}
    (h : AlphaBindings ρ bs bs' σ) :
    (outlineBindings (ρ.map Prod.fst) bs).1 = (outlineBindings (ρ.map Prod.snd) bs').1 ∧
      σ.map Prod.fst = (outlineBindings (ρ.map Prod.fst) bs).2 ∧
      σ.map Prod.snd = (outlineBindings (ρ.map Prod.snd) bs').2 := by
  cases h with
  | nil => simp only [outlineBindings, and_self]
  | cons h hs =>
    obtain ⟨hvalues, hfst, hsnd⟩ := hs.outlineBindings_eq
    simp only [List.map_cons] at hvalues hfst hsnd
    simp only [outlineBindings, h.outline_eq, hvalues, hfst, hsnd, and_self]

end

mutual

/-- Nodes that are equal up to the names of locals differ in the names of their binders only. -/
theorem Alike.alphaEq : ∀ {ρ : Binders} {n n' : Node},
    Alike (ρ.map Prod.fst) (ρ.map Prod.snd) n n' → AlphaEq ρ n n'
  | ρ, .absent, n', h => by
    rw [show n' = _ from h]
    exact .absent
  | ρ, .const v, n', h => by
    rw [show n' = _ from h]
    exact .const v
  | ρ, .localVar x, n', ⟨y, hn, hname⟩ => by
    rw [hn]
    exact .localVar (sameName_iff.mpr hname)
  | ρ, .varRef ns name, n', h => by
    rw [show n' = _ from h]
    exact .varRef ns name
  | ρ, .bindVar ns name init, n', ⟨init', hn, h⟩ => by
    rw [hn]
    exact .bindVar ns name h.alphaEq
  | ρ, .defn ns name params body, n', ⟨params', body', hn, hparams, h⟩ => by
    rw [hn]
    refine .defn ns name hparams (Alike.alphaEq ?_)
    rwa [map_fst_params hparams, map_snd_params hparams]
  | ρ, .invoke ns name args, n', ⟨args', hn, h⟩ => by
    rw [hn]
    exact .invoke ns name h.alphaAll
  | ρ, .foreignCall name args, n', ⟨args', hn, h⟩ => by
    rw [hn]
    exact .foreignCall name h.alphaAll
  | ρ, .foreignGet name, n', h => by
    rw [show n' = _ from h]
    exact .foreignGet name
  | ρ, .foreignSet name value, n', ⟨value', hn, h⟩ => by
    rw [hn]
    exact .foreignSet name h.alphaEq
  | ρ, .defGlobal name init, n', h => by
    rw [show n' = _ from h]
    exact .defGlobal name init
  | ρ, .prim op args, n', ⟨args', hn, h⟩ => by
    rw [hn]
    exact .prim op h.alphaAll
  | ρ, .ifElse c t e, n', ⟨c', t', e', hn, hc, ht, he⟩ => by
    rw [hn]
    exact .ifElse hc.alphaEq ht.alphaEq he.alphaEq
  | ρ, .letIn bs body, n', ⟨bs', body', hn, hbs, h⟩ => by
    rw [hn]
    obtain ⟨σ, hbindings, hfst, hsnd⟩ := hbs.alphaBindings
    refine .letIn hbindings (Alike.alphaEq ?_)
    rwa [hfst, hsnd]
  | ρ, .seq forms, n', ⟨forms', hn, h⟩ => by
    rw [hn]
    exact .seq h.alphaAll

theorem AllAlike.alphaAll : ∀ {ρ : Binders} {ns ns' : List Node},
    AllAlike (ρ.map Prod.fst) (ρ.map Prod.snd) ns ns' → AlphaAll ρ ns ns'
  | ρ, [], ns', h => by
    rw [show ns' = _ from h]
    exact .nil
  | ρ, n :: rest, ns', ⟨n', rest', hns, hn, hrest⟩ => by
    rw [hns]
    exact .cons hn.alphaEq hrest.alphaAll

theorem BindingsAlike.alphaBindings : ∀ {ρ : Binders} {bs bs' : List (String × Node)},
    BindingsAlike (ρ.map Prod.fst) (ρ.map Prod.snd) bs bs' →
    ∃ σ, AlphaBindings ρ bs bs' σ ∧
      σ.map Prod.fst = (bs.map Prod.fst).reverse ++ ρ.map Prod.fst ∧
      σ.map Prod.snd = (bs'.map Prod.fst).reverse ++ ρ.map Prod.snd
  | ρ, [], bs', h => by
    rw [show bs' = _ from h]
    exact ⟨ρ, .nil, rfl, rfl⟩
  | ρ, (x, n) :: rest, bs', ⟨y, n', rest', hbs, hn, hrest⟩ => by
    obtain ⟨σ, hbindings, hfst, hsnd⟩ := BindingsAlike.alphaBindings (ρ := (x, y) :: ρ) hrest
    rw [hbs]
    exact ⟨σ, .cons hn.alphaEq hbindings, by simp [hfst], by simp [hsnd]⟩

end

/-- The nodes of equal outlines are those that differ in the names of their binders only. -/
theorem outline_eq_iff {ρ : Binders} {n n' : Node} :
    n.outline (ρ.map Prod.fst) = n'.outline (ρ.map Prod.snd) ↔ AlphaEq ρ n n' :=
  ⟨fun h => (alike_of_outline h).alphaEq, AlphaEq.outline_eq⟩

/-- Two bindings of which the second reads the first, and a body that reads one of them. -/
def twice (x y z : String) : Node :=
  .letIn [(x, .const 1), (y, .prim "+" [.localVar x, .const 1])] (.localVar z)

-- a second binding of a name hides the first, so that the body reads the second
example : AlphaEq [] (twice "a" "a" "a") (twice "p" "q" "q") ∧
    ¬ AlphaEq [] (twice "a" "a" "a") (twice "p" "q" "p") := by
  rw [← outline_eq_iff, ← outline_eq_iff]
  simp [twice, outline, outlineBindings, outlineAll, scopeIndex?, List.findIdx?_cons]

end Node

/-! ## Units -/

namespace CompUnit

/-- The bytes that the digest of a unit is taken of determine its effects, and its forms up to the
names of parameters and of what `let` binds, and they depend on nothing else. -/
theorem encode_outline_eq_iff_alphaEq (u u' : CompUnit) :
    u.outline.encode = u'.outline.encode ↔
      u.effects = u'.effects ∧ List.Forall₂ (Node.AlphaEq []) u.forms u'.forms := by
  constructor
  · intro h
    have houtline := outline_eq_of_encode h
    refine ⟨effects_eq_of_outline houtline, ?_⟩
    exact (Node.allAlike_iff.mp (alike_of_outline houtline)).imp fun _ _ hn =>
      Node.Alike.alphaEq (ρ := []) hn
  · rintro ⟨heffects, hforms⟩
    have hmap : u.forms.map (Node.outline []) = u'.forms.map (Node.outline []) :=
      map_eq_of_forall₂ hforms fun _ _ hn => hn.outline_eq
    rw [outline, outline, heffects, hmap]

end CompUnit

end WasmLisp
