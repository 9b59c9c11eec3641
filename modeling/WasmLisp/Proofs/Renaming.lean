import Mathlib
import WasmLisp.CompUnit
import WasmLisp.Proofs.Cbor

/-!
# Nodes that differ in the names of their locals only

* `Node.Alike`: two nodes are equal up to the names of locals, each in a scope of its own;
* `Node.alike_of_outline`: nodes of equal outlines are;
* `CompUnit.outline_eq_of_encode`: equal encodings of outlines come from equal outlines.
-/

namespace WasmLisp

namespace Node

/-! ## Outlines are plain -/

mutual

/-- The outline of a node has no entry that could be left out, so that it can be read off its encoding.
-/
theorem plain_outline : ∀ (scope : List String) (n : Node), (n.outline scope).Plain
  | scope, .localVar name => by
    unfold outline
    split <;> simp [Cbor.Plain, Cbor.AllPlain]
  | scope, .bindVar ns name init => by
    simp only [outline, Cbor.Plain, Cbor.AllPlain, and_true, true_and]
    exact plain_outline scope init
  | scope, .defn ns name params body => by
    simp only [outline, Cbor.Plain, Cbor.AllPlain, and_true, true_and]
    exact plain_outline params.reverse body
  | scope, .invoke ns name args => by
    simp only [outline, Cbor.Plain, Cbor.AllPlain, and_true, true_and]
    exact plain_outlineAll scope args
  | scope, .foreignCall name args => by
    simp only [outline, Cbor.Plain, Cbor.AllPlain, and_true, true_and]
    exact plain_outlineAll scope args
  | scope, .foreignSet name value => by
    simp only [outline, Cbor.Plain, Cbor.AllPlain, and_true, true_and]
    exact plain_outline scope value
  | scope, .prim op args => by
    simp only [outline, Cbor.Plain, Cbor.AllPlain, and_true, true_and]
    exact plain_outlineAll scope args
  | scope, .ifElse c t e => by
    simp only [outline, Cbor.Plain, Cbor.AllPlain, and_true, true_and]
    exact ⟨plain_outline scope c, plain_outline scope t, plain_outline scope e⟩
  | scope, .letIn bindings body => by
    simp only [outline, Cbor.Plain, Cbor.AllPlain, and_true, true_and]
    exact ⟨plain_outlineBindings scope bindings, plain_outline _ body⟩
  | scope, .seq forms => by
    simp only [outline, Cbor.Plain, Cbor.AllPlain, and_true, true_and]
    exact plain_outlineAll scope forms
  | scope, .absent | scope, .const v | scope, .varRef ns name | scope, .foreignGet name
  | scope, .defGlobal name init => by simp [outline, Cbor.Plain, Cbor.AllPlain]

/-- So are outlines of several nodes. -/
theorem plain_outlineAll : ∀ (scope : List String) (ns : List Node),
    Cbor.AllPlain (outlineAll scope ns)
  | _, [] => by simp [outlineAll, Cbor.AllPlain]
  | scope, n :: rest => by
    simp only [outlineAll, Cbor.AllPlain]
    exact ⟨plain_outline scope n, plain_outlineAll scope rest⟩

/-- So are those of bindings, each in the scope that the ones before it leave. -/
theorem plain_outlineBindings : ∀ (scope : List String) (bs : List (String × Node)),
    Cbor.AllPlain (outlineBindings scope bs).1
  | _, [] => by simp [outlineBindings, Cbor.AllPlain]
  | scope, (name, n) :: rest => by
    simp only [outlineBindings, Cbor.AllPlain]
    exact ⟨plain_outline scope n, plain_outlineBindings (name :: scope) rest⟩

end

/-! ## Equality up to the names of locals -/

/-- The names of bindings are in scope after them, the last first. -/
theorem outlineBindings_scope (scope : List String) (bs : List (String × Node)) :
    (outlineBindings scope bs).2 = (bs.map Prod.fst).reverse ++ scope := by
  induction bs generalizing scope with
  | nil => simp [outlineBindings]
  | cons b bs ih => simp [outlineBindings, ih]

mutual

/-- The nodes are equal up to the names of their locals, which the scopes list, the innermost
first. Locals agree if they are at equal distances from their bindings; one without a binding
keeps its name. -/
def Alike (s t : List String) : Node → Node → Prop
  | .absent, n' => n' = .absent
  | .const v, n' => n' = .const v
  | .localVar name, n' => ∃ name', n' = .localVar name' ∧
    scopeIndex? s name = scopeIndex? t name' ∧ (scopeIndex? s name = none → name = name')
  | .varRef ns name, n' => n' = .varRef ns name
  | .bindVar ns name init, n' => ∃ init', n' = .bindVar ns name init' ∧ Alike s t init init'
  | .defn ns name params body, n' => ∃ params' body', n' = .defn ns name params' body' ∧
    params.length = params'.length ∧ Alike params.reverse params'.reverse body body'
  | .invoke ns name args, n' => ∃ args', n' = .invoke ns name args' ∧ AllAlike s t args args'
  | .foreignCall name args, n' => ∃ args', n' = .foreignCall name args' ∧ AllAlike s t args args'
  | .foreignGet name, n' => n' = .foreignGet name
  | .foreignSet name value, n' => ∃ value', n' = .foreignSet name value' ∧ Alike s t value value'
  | .defGlobal name init, n' => n' = .defGlobal name init
  | .prim op args, n' => ∃ args', n' = .prim op args' ∧ AllAlike s t args args'
  | .ifElse c t₁ e, n' => ∃ c' t₁' e', n' = .ifElse c' t₁' e' ∧
    Alike s t c c' ∧ Alike s t t₁ t₁' ∧ Alike s t e e'
  | .letIn bindings body, n' => ∃ bindings' body', n' = .letIn bindings' body' ∧
    BindingsAlike s t bindings bindings' ∧
    Alike ((bindings.map Prod.fst).reverse ++ s) ((bindings'.map Prod.fst).reverse ++ t) body body'
  | .seq forms, n' => ∃ forms', n' = .seq forms' ∧ AllAlike s t forms forms'

/-- The lists have the same length, and nodes in the same place are alike in the same scopes. -/
def AllAlike (s t : List String) : List Node → List Node → Prop
  | [], ns' => ns' = []
  | n :: rest, ns' => ∃ n' rest', ns' = n' :: rest' ∧ Alike s t n n' ∧ AllAlike s t rest rest'

/-- The values of bindings are alike, each in the scopes that the bindings before it leave. -/
def BindingsAlike (s t : List String) : List (String × Node) → List (String × Node) → Prop
  | [], bs' => bs' = []
  | (name, n) :: rest, bs' => ∃ name' n' rest', bs' = (name', n') :: rest' ∧
    Alike s t n n' ∧ BindingsAlike (name :: s) (name' :: t) rest rest'

end

/-- No other node has the outline of a local. -/
theorem outline_localVar_ne {s : List String} {name tag : String} {items : List Cbor}
    (hlocal : tag ≠ "local") (hfree : tag ≠ "free") :
    Cbor.array (.text tag :: items) ≠ outline s (.localVar name) := by
  unfold outline
  split <;> simp [hlocal, hfree]

mutual

/-- Nodes of equal outlines are equal up to the names of their locals. -/
theorem alike_of_outline : ∀ {s t : List String} {n n' : Node},
    n.outline s = n'.outline t → Alike s t n n'
  | s, t, .localVar name, n', h => by
    cases n' with
    | localVar name' =>
      refine ⟨name', rfl, ?_⟩
      unfold outline at h
      split at h <;> split at h <;> simp_all
    | _ => unfold outline at h; split at h <;> simp at h
  | s, t, .absent, n', h => by
    cases n' with
    | absent =>
      simp [Alike]
    | localVar => exact absurd h (outline_localVar_ne (by decide) (by decide))
    | _ => simp [outline] at h
  | s, t, .const v, n', h => by
    cases n' with
    | const v' =>
      simp only [outline, Cbor.array.injEq, List.cons.injEq, Cbor.int.injEq, Int64.toInt_inj,
        true_and, and_true] at h
      simp [Alike, h]
    | localVar => exact absurd h (outline_localVar_ne (by decide) (by decide))
    | _ => simp [outline] at h
  | s, t, .varRef ns name, n', h => by
    cases n' with
    | varRef ns' name' =>
      simp only [outline, Cbor.array.injEq, List.cons.injEq, Cbor.text.injEq, true_and, and_true] at h
      simp [Alike, h]
    | localVar => exact absurd h (outline_localVar_ne (by decide) (by decide))
    | _ => simp [outline] at h
  | s, t, .foreignGet name, n', h => by
    cases n' with
    | foreignGet name' =>
      simp only [outline, Cbor.array.injEq, List.cons.injEq, Cbor.text.injEq, true_and, and_true] at h
      simp [Alike, h]
    | localVar => exact absurd h (outline_localVar_ne (by decide) (by decide))
    | _ => simp [outline] at h
  | s, t, .defGlobal name init, n', h => by
    cases n' with
    | defGlobal name' init' =>
      simp only [outline, Cbor.array.injEq, List.cons.injEq, Cbor.text.injEq, Cbor.int.injEq,
        Int64.toInt_inj, true_and, and_true] at h
      simp [Alike, h]
    | localVar => exact absurd h (outline_localVar_ne (by decide) (by decide))
    | _ => simp [outline] at h
  | s, t, .bindVar ns name init, n', h => by
    cases n' with
    | bindVar ns' name' init' =>
      simp only [outline, Cbor.array.injEq, List.cons.injEq, Cbor.text.injEq, true_and, and_true] at h
      obtain ⟨rfl, rfl, hinit⟩ := h
      exact ⟨init', rfl, alike_of_outline hinit⟩
    | localVar => exact absurd h (outline_localVar_ne (by decide) (by decide))
    | _ => simp [outline] at h
  | s, t, .foreignSet name value, n', h => by
    cases n' with
    | foreignSet name' value' =>
      simp only [outline, Cbor.array.injEq, List.cons.injEq, Cbor.text.injEq, true_and, and_true] at h
      obtain ⟨rfl, hvalue⟩ := h
      exact ⟨value', rfl, alike_of_outline hvalue⟩
    | localVar => exact absurd h (outline_localVar_ne (by decide) (by decide))
    | _ => simp [outline] at h
  | s, t, .defn ns name params body, n', h => by
    cases n' with
    | defn ns' name' params' body' =>
      simp only [outline, Cbor.array.injEq, List.cons.injEq, Cbor.text.injEq, Cbor.int.injEq,
        Int.natCast_inj, true_and, and_true] at h
      obtain ⟨rfl, rfl, hlen, hbody⟩ := h
      exact ⟨params', body', rfl, hlen, alike_of_outline hbody⟩
    | localVar => exact absurd h (outline_localVar_ne (by decide) (by decide))
    | _ => simp [outline] at h
  | s, t, .invoke ns name args, n', h => by
    cases n' with
    | invoke ns' name' args' =>
      simp only [outline, Cbor.array.injEq, List.cons.injEq, Cbor.text.injEq, true_and, and_true] at h
      obtain ⟨rfl, rfl, hargs⟩ := h
      exact ⟨args', rfl, allAlike_of_outline hargs⟩
    | localVar => exact absurd h (outline_localVar_ne (by decide) (by decide))
    | _ => simp [outline] at h
  | s, t, .foreignCall name args, n', h => by
    cases n' with
    | foreignCall name' args' =>
      simp only [outline, Cbor.array.injEq, List.cons.injEq, Cbor.text.injEq, true_and, and_true] at h
      obtain ⟨rfl, hargs⟩ := h
      exact ⟨args', rfl, allAlike_of_outline hargs⟩
    | localVar => exact absurd h (outline_localVar_ne (by decide) (by decide))
    | _ => simp [outline] at h
  | s, t, .prim op args, n', h => by
    cases n' with
    | prim op' args' =>
      simp only [outline, Cbor.array.injEq, List.cons.injEq, Cbor.text.injEq, true_and, and_true] at h
      obtain ⟨rfl, hargs⟩ := h
      exact ⟨args', rfl, allAlike_of_outline hargs⟩
    | localVar => exact absurd h (outline_localVar_ne (by decide) (by decide))
    | _ => simp [outline] at h
  | s, t, .ifElse c₁ t₁ e₁, n', h => by
    cases n' with
    | ifElse c₂ t₂ e₂ =>
      simp only [outline, Cbor.array.injEq, List.cons.injEq, true_and, and_true] at h
      obtain ⟨hc, ht, he⟩ := h
      exact ⟨c₂, t₂, e₂, rfl, alike_of_outline hc, alike_of_outline ht, alike_of_outline he⟩
    | localVar => exact absurd h (outline_localVar_ne (by decide) (by decide))
    | _ => simp [outline] at h
  | s, t, .letIn bindings body, n', h => by
    cases n' with
    | letIn bindings' body' =>
      simp only [outline, Cbor.array.injEq, List.cons.injEq, true_and, and_true,
        outlineBindings_scope] at h
      exact ⟨bindings', body', rfl, bindingsAlike_of_outline h.1, alike_of_outline h.2⟩
    | localVar => exact absurd h (outline_localVar_ne (by decide) (by decide))
    | _ => simp [outline] at h
  | s, t, .seq forms, n', h => by
    cases n' with
    | seq forms' =>
      simp only [outline, Cbor.array.injEq, List.cons.injEq, true_and, and_true] at h
      exact ⟨forms', rfl, allAlike_of_outline h⟩
    | localVar => exact absurd h (outline_localVar_ne (by decide) (by decide))
    | _ => simp [outline] at h

/-- Lists of equal outlines have the same length, and their nodes are alike. -/
theorem allAlike_of_outline : ∀ {s t : List String} {ns ns' : List Node},
    outlineAll s ns = outlineAll t ns' → AllAlike s t ns ns'
  | s, t, [], [], _ => by simp [AllAlike]
  | s, t, n :: rest, n' :: rest', h => by
    simp only [outlineAll, List.cons.injEq] at h
    exact ⟨n', rest', rfl, alike_of_outline h.1, allAlike_of_outline h.2⟩

/-- Bindings of equal outlines have alike values. -/
theorem bindingsAlike_of_outline : ∀ {s t : List String} {bs bs' : List (String × Node)},
    (outlineBindings s bs).1 = (outlineBindings t bs').1 → BindingsAlike s t bs bs'
  | s, t, [], [], _ => by simp [BindingsAlike]
  | s, t, (name, n) :: rest, (name', n') :: rest', h => by
    simp only [outlineBindings, List.cons.injEq] at h
    exact ⟨name', n', rest', rfl, alike_of_outline h.1, bindingsAlike_of_outline h.2⟩

end

/-- A node is alike to itself in any scope. -/
theorem Alike.refl (s : List String) (n : Node) : Alike s s n n :=
  alike_of_outline rfl

/-! ## Parts of nodes -/

/-- The nodes are equal up to the names of their locals in some scopes. -/
def Similar (n n' : Node) : Prop := ∃ s t, Alike s t n n'

/-- A node is similar to itself. -/
theorem Similar.refl (n : Node) : Similar n n := ⟨[], [], .refl [] n⟩

theorem allAlike_iff {s t : List String} {ns ns' : List Node} :
    AllAlike s t ns ns' ↔ List.Forall₂ (Alike s t) ns ns' := by
  induction ns generalizing ns' with
  | nil => simp [AllAlike]
  | cons n ns ih =>
    constructor
    · rintro ⟨n', rest', rfl, hn, hrest⟩
      exact .cons hn (ih.mp hrest)
    · rintro (_ | ⟨hn, hrest⟩)
      exact ⟨_, _, rfl, hn, ih.mpr hrest⟩

theorem AllAlike.length_eq {s t : List String} {ns ns' : List Node} (h : AllAlike s t ns ns') :
    ns.length = ns'.length :=
  (allAlike_iff.mp h).length_eq

/-- Alike lists can be joined. -/
theorem AllAlike.append {s t : List String} {ns ns' more more' : List Node}
    (h : AllAlike s t ns ns') (hmore : AllAlike s t more more') :
    AllAlike s t (ns ++ more) (ns' ++ more') :=
  allAlike_iff.mpr (List.rel_append (allAlike_iff.mp h) (allAlike_iff.mp hmore))

mutual

/-- The parts of nodes that are equal up to the names of locals are so, too, one by one. -/
theorem Alike.flatten : ∀ {s t : List String} {n n' : Node}, Alike s t n n' →
    List.Forall₂ Similar n.flatten n'.flatten
  | s, t, .bindVar ns name init, n', ⟨init', hn, hinit⟩ => by
    subst hn
    exact .cons ⟨s, t, init', rfl, hinit⟩ hinit.flatten
  | s, t, .defn ns name params body, n', ⟨params', body', hn, hlen, hbody⟩ => by
    subst hn
    exact .cons ⟨s, t, params', body', rfl, hlen, hbody⟩ hbody.flatten
  | s, t, .invoke ns name args, n', ⟨args', hn, hargs⟩ => by
    subst hn
    exact .cons ⟨s, t, args', rfl, hargs⟩ hargs.flattenAll
  | s, t, .foreignCall name args, n', ⟨args', hn, hargs⟩ => by
    subst hn
    exact .cons ⟨s, t, args', rfl, hargs⟩ hargs.flattenAll
  | s, t, .foreignSet name value, n', ⟨value', hn, hvalue⟩ => by
    subst hn
    exact .cons ⟨s, t, value', rfl, hvalue⟩ hvalue.flatten
  | s, t, .prim op args, n', ⟨args', hn, hargs⟩ => by
    subst hn
    exact .cons ⟨s, t, args', rfl, hargs⟩ hargs.flattenAll
  | s, t, .ifElse c t₁ e, n', ⟨c', t₁', e', hn, hc, ht, he⟩ => by
    subst hn
    exact .cons ⟨s, t, c', t₁', e', rfl, hc, ht, he⟩
      (List.rel_append (List.rel_append hc.flatten ht.flatten) he.flatten)
  | s, t, .letIn bindings body, n', ⟨bindings', body', hn, hbindings, hbody⟩ => by
    subst hn
    exact .cons ⟨s, t, bindings', body', rfl, hbindings, hbody⟩
      (List.rel_append hbindings.flattenBindings hbody.flatten)
  | s, t, .seq forms, n', ⟨forms', hn, hforms⟩ => by
    subst hn
    exact .cons ⟨s, t, forms', rfl, hforms⟩ hforms.flattenAll
  | s, t, .localVar name, n', h => by
    obtain ⟨name', rfl, hname⟩ := h
    exact .cons ⟨s, t, name', rfl, hname⟩ .nil
  | s, t, .absent, n', h => by rw [show n' = .absent from h]; exact .nil
  | s, t, .const v, n', h => by rw [show n' = _ from h]; exact .cons (.refl _) .nil
  | s, t, .varRef ns name, n', h => by rw [show n' = _ from h]; exact .cons (.refl _) .nil
  | s, t, .foreignGet name, n', h => by rw [show n' = _ from h]; exact .cons (.refl _) .nil
  | s, t, .defGlobal name init, n', h => by rw [show n' = _ from h]; exact .cons (.refl _) .nil

/-- So do lists of nodes that are alike. -/
theorem AllAlike.flattenAll : ∀ {s t : List String} {ns ns' : List Node}, AllAlike s t ns ns' →
    List.Forall₂ Similar (flattenAll ns) (flattenAll ns')
  | s, t, [], _, h => by rw [show _ = [] from h]; exact .nil
  | s, t, n :: rest, ns', ⟨n', rest', hns, hn, hrest⟩ => by
    subst hns
    exact List.rel_append hn.flatten hrest.flattenAll

/-- So do the values of bindings. -/
theorem BindingsAlike.flattenBindings : ∀ {s t : List String} {bs bs' : List (String × Node)},
    BindingsAlike s t bs bs' → List.Forall₂ Similar (flattenBindings bs) (flattenBindings bs')
  | s, t, [], _, h => by rw [show _ = [] from h]; exact .nil
  | s, t, (name, n) :: rest, bs', ⟨name', n', rest', hbs, hn, hrest⟩ => by
    subst hbs
    exact List.rel_append hn.flatten hrest.flattenBindings

end

end Node

/-! ## Units -/

namespace CompUnit

theorem plain_outline (u : CompUnit) : u.outline.Plain := by
  simp only [outline, Cbor.Plain, Cbor.AllPlain, Cbor.allPlain_iff, List.mem_map, true_and, and_true]
  constructor
  · rintro _ ⟨n, -, rfl⟩
    exact Node.plain_outline [] n
  · rintro _ ⟨e, -, rfl⟩
    simp [Cbor.Plain, Cbor.AllPlain]

/-- Equal encodings of the outlines of units come from equal outlines. -/
theorem outline_eq_of_encode {u u' : CompUnit} (h : u.outline.encode = u'.outline.encode) :
    u.outline = u'.outline :=
  (plain_outline u).encode_injective (plain_outline u') h

theorem outlineAll_eq_map (scope : List String) (ns : List Node) :
    Node.outlineAll scope ns = ns.map (Node.outline scope) := by
  induction ns with
  | nil => simp [Node.outlineAll]
  | cons n ns ih => simp [Node.outlineAll, ih]

/-- The forms of units that have the same outline are alike. -/
theorem alike_of_outline {u u' : CompUnit} (h : u.outline = u'.outline) :
    Node.AllAlike [] [] u.forms u'.forms := by
  simp only [outline, Cbor.array.injEq, List.cons.injEq, true_and, and_true] at h
  apply Node.allAlike_of_outline
  rw [outlineAll_eq_map, outlineAll_eq_map, h.1]

/-- Effects are part of the outline as they are. -/
theorem effects_eq_of_outline {u u' : CompUnit} (h : u.outline = u'.outline) :
    u.effects = u'.effects := by
  simp only [outline, Cbor.array.injEq, List.cons.injEq, true_and, and_true] at h
  refine List.map_injective_iff.mpr ?_ h.2
  rintro ⟨⟨k⟩, ns, name, target⟩ ⟨⟨k'⟩, ns', name', target'⟩ heq
  simp only [Cbor.array.injEq, List.cons.injEq, Cbor.int.injEq, Cbor.text.injEq, Int.natCast_inj,
    UInt8.toNat_inj, and_true] at heq
  obtain ⟨rfl, rfl, rfl, rfl⟩ := heq
  rfl

end CompUnit

end WasmLisp
