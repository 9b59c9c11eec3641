import Mathlib
import WasmLisp.Proofs.Analysis.Declared
import WasmLisp.Proofs.Codegen.Expr
import WasmLisp.Proofs.Machine.World

/-!
# Where generated code binds vars

* `expr_straight`: generated code does not jump;
* `expr_binds`: for a definition of a var in the spine, the code outside of all blocks calls the
  binder;
* `Layout.Built.mem_definitions`: only vars that the unit defines have a binder.
-/

namespace WasmLisp

namespace Codegen

open Machine (Instr)
open Machine.Instr (jumps jumpsAll jumpsAll_append)
open Artifact (envModule varModule varDefModule)

variable {c : Context}

/-! ## No jumps -/

theorem jumpsAll_cons (i : Instr) (code : List Instr) :
    jumpsAll (i :: code) = (i.jumps || jumpsAll code) := by
  rw [jumpsAll]

theorem jumpsAll_flatten {codes : List (List Instr)} (h : ∀ code ∈ codes, jumpsAll code = false) :
    jumpsAll codes.flatten = false := by
  induction codes with
  | nil => rfl
  | cons code codes ih =>
    rw [List.flatten_cons, jumpsAll_append, h code List.mem_cons_self,
      ih fun code hc => h code (List.mem_cons_of_mem _ hc)]
    rfl

/-- A primitive does not jump if its operands do not. -/
theorem PrimShape.code_straight (shape : PrimShape) {codes : List (List Instr)}
    (h : ∀ code ∈ codes, jumpsAll code = false) : jumpsAll (shape.code codes) = false := by
  have hall := jumpsAll_flatten h
  cases shape with
  | isZero | relation op => simp [PrimShape.code, hall, jumpsAll, jumps]
  | constant v => rfl
  | negate => simp [PrimShape.code, jumpsAll_cons, hall, jumpsAll, jumps]
  | chain op =>
    cases codes with
    | nil => rfl
    | cons first rest =>
      have hrest : jumpsAll (rest.map (· ++ [.bin .w64 op])).flatten = false := by
        refine jumpsAll_flatten fun code hc => ?_
        obtain ⟨code', hc', rfl⟩ := List.mem_map.1 hc
        rw [jumpsAll_append, h code' (List.mem_cons_of_mem _ hc')]
        rfl
      rw [PrimShape.code, jumpsAll_append, h first List.mem_cons_self, List.flatMap_def, hrest]
      rfl

mutual

/-- The code of an expression does not jump. -/
theorem expr_straight : ∀ {n : Node} {depth : Nat} {slots : Slots} {next k : Nat}
    {code : List Instr}, expr c depth slots next n = .ok (code, k) → jumpsAll code = false
  | .absent, _, _, _, _, _, h | .const _, _, _, _, _, _, h | .varRef _ _, _, _, _, _, _, h
  | .defn _ _ _ _, _, _, _, _, _, h | .defGlobal _ _, _, _, _, _, _, h
  | .foreignGet _, _, _, _, _, _, h => by
    obtain ⟨rfl, rfl⟩ := expr_isCode h
    rfl
  | .localVar _, _, _, _, _, _, h => by
    obtain ⟨i, hi, rfl, rfl⟩ := expr_isCode h
    rfl
  | .bindVar _ _ init, _, _, _, _, _, h => by
    obtain ⟨first, j, hi, rfl, rfl⟩ := expr_isCode h
    rw [jumpsAll_append, expr_straight hi]
    rfl
  | .invoke _ _ args, _, _, _, _, _, h => by
    obtain ⟨codes, index, hc, rfl, -⟩ := expr_isCode h
    rw [jumpsAll_append, jumpsAll_flatten (operandCodes_straight hc)]
    rfl
  | .foreignCall _ args, _, _, _, _, _, h => by
    obtain ⟨codes, hc, rfl⟩ := expr_isCode h
    rw [jumpsAll_append, jumpsAll_flatten (operandCodes_straight hc)]
    rfl
  | .foreignSet _ value, _, _, _, _, _, h => by
    obtain ⟨first, hv, rfl⟩ := expr_isCode h
    rw [jumpsAll_append, expr_straight hv]
    rfl
  | .prim op args, _, _, _, _, _, h => by
    obtain ⟨shape, codes, hs, hc, rfl⟩ := expr_isCode h
    exact shape.code_straight (operandCodes_straight hc)
  | .ifElse cond thenB elseB, _, _, _, _, _, h => by
    obtain ⟨condCode, i, thenCode, j, elseCode, hc, ht, he, rfl⟩ := expr_isCode h
    simp [jumps, jumpsAll, expr_straight hc, expr_straight ht, expr_straight he]
  | .letIn bindings body, _, _, _, _, _, h => by
    obtain ⟨first, inner, j, bodyCode, hb, hn, rfl⟩ := expr_isCode h
    rw [jumpsAll_append, bindingCode_straight hb, expr_straight hn]
    rfl
  | .seq forms, _, _, _, _, _, h => sequence_straight (expr_isCode h)
termination_by n => sizeOf n

theorem sequence_straight : ∀ {ns : List Node} {depth : Nat} {slots : Slots} {next k : Nat}
    {code : List Instr}, sequence c depth slots next ns = .ok (code, k) → jumpsAll code = false
  | [], _, _, _, _, _, h => by
    rw [sequence] at h
    cases h
    rfl
  | [n], _, _, _, _, _, h => by
    rw [sequence] at h
    exact expr_straight h
  | n :: m :: ns, _, _, _, _, _, h => by
    obtain ⟨first, j, more, hn, hm, rfl⟩ := sequence_cons h
    rw [jumpsAll_append, jumpsAll_cons, expr_straight hn, sequence_straight hm]
    rfl
termination_by ns => sizeOf ns

theorem bindingCode_straight : ∀ {bs : List (String × Node)} {depth : Nat} {slots inner : Slots}
    {next k : Nat} {code : List Instr},
      bindingCode c depth slots next bs = .ok (code, inner, k) → jumpsAll code = false
  | [], _, _, _, _, _, _, h => by
    rw [bindingCode] at h
    cases h
    rfl
  | (name, value) :: bs, _, _, _, _, _, _, h => by
    obtain ⟨first, j, more, hn, hm, rfl⟩ := bindingCode_cons h
    rw [jumpsAll_append, jumpsAll_cons, expr_straight hn, bindingCode_straight hm]
    rfl
termination_by bs => sizeOf bs

theorem operandCodes_straight : ∀ {ns : List Node} {count depth : Nat} {slots : Slots}
    {next k : Nat} {codes : List (List Instr)},
      operandCodes c depth slots next count ns = .ok (codes, k) →
        ∀ code ∈ codes, jumpsAll code = false
  | _, 0, _, _, _, _, _, h => by
    rw [operandCodes] at h
    cases h
    simp
  | [], count + 1, _, _, _, _, _, h => by
    rw [operandCodes] at h
    · cases h
      simp
    · simp
  | n :: ns, count + 1, _, _, _, _, _, h => by
    obtain ⟨code, j, more, hn, hm, rfl⟩ := operandCodes_cons h
    rw [List.forall_mem_cons]
    exact ⟨expr_straight hn, operandCodes_straight hm⟩
termination_by ns => sizeOf ns

end

/-! ## Binders in code -/

mutual

/-- The code of an expression calls the binders of the vars that are defined in its spine. -/
theorem expr_binds : ∀ {n : Node} {depth : Nat} {slots : Slots} {next k : Nat} {code : List Instr},
    expr c depth slots next n = .ok (code, k) →
      ∀ {ns name : String} {init : Node}, .bindVar ns name init ∈ n.spine →
        .call (c.layout.importIndex varDefModule (Symbol.qualify ns name)) ∈ code
  | .bindVar ns name init, _, _, _, _, _, h, _, _, _, hm => by
    obtain ⟨first, j, -, rfl, -⟩ := expr_isCode h
    cases List.mem_singleton.1 hm
    simp
  | .seq forms, _, _, _, _, _, h, _, _, _, hm => sequence_binds (expr_isCode h) hm
  | .absent, _, _, _, _, _, _, _, _, _, hm | .const _, _, _, _, _, _, _, _, _, _, hm
  | .localVar _, _, _, _, _, _, _, _, _, _, hm | .varRef _ _, _, _, _, _, _, _, _, _, _, hm
  | .defn _ _ _ _, _, _, _, _, _, _, _, _, _, hm | .defGlobal _ _, _, _, _, _, _, _, _, _, _, hm
  | .invoke _ _ _, _, _, _, _, _, _, _, _, _, hm | .foreignCall _ _, _, _, _, _, _, _, _, _, _, hm
  | .foreignGet _, _, _, _, _, _, _, _, _, _, hm | .foreignSet _ _, _, _, _, _, _, _, _, _, _, hm
  | .prim _ _, _, _, _, _, _, _, _, _, _, hm | .ifElse _ _ _, _, _, _, _, _, _, _, _, _, hm
  | .letIn _ _, _, _, _, _, _, _, _, _, _, hm => by
    cases List.mem_singleton.1 hm
termination_by n => sizeOf n

theorem sequence_binds : ∀ {forms : List Node} {depth : Nat} {slots : Slots} {next k : Nat}
    {code : List Instr}, sequence c depth slots next forms = .ok (code, k) →
      ∀ {ns name : String} {init : Node}, .bindVar ns name init ∈ Node.spineAll forms →
        .call (c.layout.importIndex varDefModule (Symbol.qualify ns name)) ∈ code
  | [], _, _, _, _, _, _, _, _, _, hm => by cases hm
  | [n], _, _, _, _, _, h, _, _, _, hm => by
    rw [sequence] at h
    rw [Node.spineAll, Node.spineAll, List.append_nil] at hm
    exact expr_binds h hm
  | n :: m :: forms, _, _, _, _, _, h, _, _, _, hm => by
    obtain ⟨first, j, more, hn, hrest, rfl⟩ := sequence_cons h
    rw [Node.spineAll] at hm
    rcases List.mem_append.1 hm with hm | hm
    · exact List.mem_append_left _ (expr_binds hn hm)
    · exact List.mem_append_right _ (List.mem_cons_of_mem _ (sequence_binds hrest hm))
termination_by forms => sizeOf forms

end

/-! ## Binders that are imported -/

/-- Only the definition of a var wants its binder. -/
theorem wantedBy?_binder {n : Node} {q : String} {params results : Nat}
    (h : wantedBy? n = some (.func varDefModule q params results)) :
    ∃ ns name init, n = .bindVar ns name init ∧ q = Symbol.qualify ns name ∧ params = 1 ∧
      results = 0 := by
  cases n with
  | bindVar ns name init =>
    cases h
    exact ⟨ns, name, init, rfl, rfl, rfl, rfl⟩
  | invoke ns name args | foreignCall name args =>
    simp only [wantedBy?, Option.some.injEq, Wanted.func.injEq] at h
    exact absurd h.1 (by decide)
  | varRef ns name =>
    simp only [wantedBy?, Option.some.injEq, Wanted.func.injEq] at h
    exact absurd h.1 (by decide)
  | foreignGet name | foreignSet name value => cases h
  | _ => cases h

/-- A module has no binders but those of the vars that the unit defines. -/
theorem Layout.Built.mem_definitions {u : CompUnit} {fns : List Defn} {new : List Reached}
    {l : Layout} (h : l.Built u fns new) (hfns : ∀ d ∈ fns, Node.Orderly [d.node]) {q : String}
    {params results : Nat} (hw : .func varDefModule q params results ∈ l.imports) :
    ∃ p ∈ Node.definitions u.forms, q = Symbol.qualify p.1 p.2 := by
  obtain ⟨n, hn, hwant⟩ := h.wanted _ hw
  obtain ⟨ns, name, init, rfl, rfl, -, -⟩ := wantedBy?_binder hwant
  rw [reachedNodes, Node.flattenAll_append, List.mem_append] at hn
  refine ⟨(ns, name), ⟨_, hn.resolve_right fun hlinked => ?_, rfl⟩, rfl⟩
  -- in a linked function there is no definition but the function itself
  obtain ⟨m, hm, hin⟩ := Node.mem_flattenAll.1 hlinked
  obtain ⟨r, hr, rfl⟩ := List.mem_map.1 hm
  have hd : r.2 ∈ fns := List.mem_of_find?_eq_some (h.found r hr)
  have hspine := hfns r.2 hd (.bindVar ns name init) (by rwa [Node.flattenAll_singleton])
    (Option.some_ne_none (ns, name))
  cases List.mem_singleton.1 hspine

end Codegen

end WasmLisp
