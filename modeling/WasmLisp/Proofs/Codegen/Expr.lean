import Mathlib
import WasmLisp.Codegen
import WasmLisp.Proofs.Codegen.Layout
import WasmLisp.Proofs.Results

/-!
# What code generation of expressions gives

* `IsCode` says for each kind of node what its code is made of, and `expr_isCode` that code
  generation gives nothing else. The proofs about generated code go by this and not by `expr`.
* `expr_locals`: locals are taken one after the other, each by an instruction of the code.
-/

namespace WasmLisp

namespace Codegen

open Machine (Instr)
open Artifact (envModule varModule varDefModule)

variable {c : Context} {depth next k : Nat} {slots inner : Slots} {code : List Instr}

/-! ## Primitives -/

/-- What the shape of a primitive says of its name and the count of its operands. -/
def PrimShape.Suits (name : String) (count : Nat) : PrimShape → Prop
  | .isZero => name = "not" ∧ 0 < count
  | .relation op => name ≠ "not" ∧ relation? name = some op ∧ count = 2
  | .constant v => count = 0 ∧
    (arithmetic? name = some .add ∧ v = 0 ∨ arithmetic? name = some .mul ∧ v = 1)
  | .negate => arithmetic? name = some .sub ∧ count = 1
  | .chain op => arithmetic? name = some op ∧ 0 < count ∧ (op ∉ [.add, .mul] → 2 ≤ count)

theorem arithmetic?_mem {name : String} {op : Machine.Bin} (h : arithmetic? name = some op) :
    op ∈ [.add, .sub, .mul, .divS, .remS] := by
  unfold arithmetic? at h
  split at h <;> cases h <;> decide

theorem PrimShape.of_suits {name : String} {count : Nat} {shape : PrimShape}
    (h : PrimShape.of name count = .ok shape) : shape.Suits name count := by
  unfold PrimShape.of at h
  by_cases hnot : name = "not"
  · rw [if_pos hnot] at h
    split at h
    · cases h
    · rename_i hcount
      cases h
      exact ⟨hnot, Nat.pos_of_ne_zero hcount⟩
  rw [if_neg hnot] at h
  cases hr : relation? name with
  | some op =>
    simp only [hr] at h
    split at h
    · rename_i hcount
      cases h
      exact ⟨hnot, hr, hcount⟩
    · cases h
  | none =>
    cases ha : arithmetic? name with
    | none =>
      simp only [hr, ha] at h
      cases h
    | some op =>
      simp only [hr, ha] at h
      have hop := arithmetic?_mem ha
      simp only [List.mem_cons, List.not_mem_nil, or_false] at hop
      -- whether there are none, one or more operands
      rcases count with _ | _ | n <;> rcases hop with rfl | rfl | rfl | rfl | rfl <;>
        cases h <;> simp [PrimShape.Suits, ha]

/-! ## Several expressions -/

theorem operandCodes_cons {count : Nat} {n : Node} {ns : List Node} {codes : List (List Instr)}
    (h : operandCodes c depth slots next (count + 1) (n :: ns) = .ok (codes, k)) :
    ∃ code j more, expr c depth slots next n = .ok (code, j) ∧
      operandCodes c depth slots j count ns = .ok (more, k) ∧ codes = code :: more := by
  rw [operandCodes] at h
  obtain ⟨⟨code, j⟩, hn, h⟩ := Except.bind_eq_ok h
  obtain ⟨⟨more, k⟩, hm, h⟩ := Except.bind_eq_ok h
  cases h
  exact ⟨code, j, more, hn, hm, rfl⟩

/-- The code of several expressions is that of their codes one by one. -/
theorem exprs_eq_ok {ns : List Node} (h : exprs c depth slots next ns = .ok (code, k)) :
    ∃ codes, operandCodes c depth slots next ns.length ns = .ok (codes, k) ∧
      code = codes.flatten := by
  induction ns generalizing next code with
  | nil =>
    rw [exprs] at h
    cases h
    exact ⟨[], by rw [List.length_nil, operandCodes], rfl⟩
  | cons n ns ih =>
    rw [exprs] at h
    obtain ⟨⟨first, j⟩, hn, h⟩ := Except.bind_eq_ok h
    obtain ⟨⟨more, k⟩, hm, h⟩ := Except.bind_eq_ok h
    cases h
    obtain ⟨codes, hc, rfl⟩ := ih hm
    refine ⟨first :: codes, ?_, rfl⟩
    rw [List.length_cons, operandCodes, hn]
    show operandCodes c depth slots j ns.length ns >>= _ = _
    rw [hc]
    rfl

theorem sequence_cons {n m : Node} {ns : List Node}
    (h : sequence c depth slots next (n :: m :: ns) = .ok (code, k)) :
    ∃ first j more, expr c depth slots next n = .ok (first, j) ∧
      sequence c depth slots j (m :: ns) = .ok (more, k) ∧ code = first ++ .drop :: more := by
  rw [sequence] at h
  · obtain ⟨⟨first, j⟩, hn, h⟩ := Except.bind_eq_ok h
    obtain ⟨⟨more, k⟩, hm, h⟩ := Except.bind_eq_ok h
    cases h
    exact ⟨first, j, more, hn, hm, rfl⟩
  · simp

theorem bindingCode_cons {name : String} {value : Node} {bs : List (String × Node)}
    (h : bindingCode c depth slots next ((name, value) :: bs) = .ok (code, inner, k)) :
    ∃ first j more, expr c depth slots next value = .ok (first, j) ∧
      bindingCode c depth ((name, j) :: slots) (j + 1) bs = .ok (more, inner, k) ∧
      code = first ++ .localSet j :: more := by
  rw [bindingCode] at h
  obtain ⟨⟨first, j⟩, hn, h⟩ := Except.bind_eq_ok h
  obtain ⟨⟨more, inner, k⟩, hm, h⟩ := Except.bind_eq_ok h
  cases h
  exact ⟨first, j, more, hn, hm, rfl⟩

/-! ## One expression -/

/-- What the code of a node is made of, and the first local that is free after it. -/
def IsCode (c : Context) (depth : Nat) (slots : Slots) (next : Nat) (code : List Instr)
    (k : Nat) : Node → Prop
  | .absent => code = [.i64Const 0] ∧ k = next
  | .const v => code = [.i64Const v] ∧ k = next
  | .localVar name => ∃ i, slots.lookup name = some i ∧ code = [.localGet i] ∧ k = next
  | .varRef ns name =>
    code = [.call (c.layout.importIndex varModule (Symbol.qualify ns name))] ∧ k = next
  | .bindVar ns name init =>
    ∃ first j, expr c (depth + 1) slots next init = .ok (first, j) ∧
      code = first ++ [.localTee j,
        .call (c.layout.importIndex varDefModule (Symbol.qualify ns name)), .localGet j] ∧
      k = j + 1
  | .defn _ _ _ _ => code = [.i64Const 0] ∧ k = next
  | .defGlobal _ init => code = [.i64Const init] ∧ k = next
  | .invoke ns name args =>
    ∃ codes index, operandCodes c (depth + 1) slots next args.length args = .ok (codes, k) ∧
      code = codes.flatten ++ [.call index] ∧
      (c.layout.funcIndex? ns name = some (index, args.length) ∨
        c.layout.funcIndex? ns name = none ∧
          index = c.layout.importIndex envModule (Symbol.qualify ns name))
  | .foreignCall name args =>
    ∃ codes, operandCodes c (depth + 1) slots next args.length args = .ok (codes, k) ∧
      code = codes.flatten ++ [.call (c.layout.importIndex envModule name)]
  | .foreignGet name => code = [.globalGet (c.layout.globalIndex name)] ∧ k = next
  | .foreignSet name value =>
    ∃ first, expr c (depth + 1) slots next value = .ok (first, k) ∧
      code = first ++
        [.globalSet (c.layout.globalIndex name), .globalGet (c.layout.globalIndex name)]
  | .prim op args =>
    ∃ shape codes, PrimShape.of op args.length = .ok shape ∧
      operandCodes c (depth + 1) slots next (shape.operands args.length) args = .ok (codes, k) ∧
      code = shape.code codes
  | .ifElse cond thenB elseB =>
    ∃ condCode i thenCode j elseCode, expr c (depth + 1) slots next cond = .ok (condCode, i) ∧
      expr c (depth + 1) slots i thenB = .ok (thenCode, j) ∧
      expr c (depth + 1) slots j elseB = .ok (elseCode, k) ∧
      code = condCode ++ [.i64Const 0, .rel .w64 .ne,
        .ifElse (.value Binary.i64) thenCode elseCode]
  | .letIn bindings body =>
    ∃ first inner j bodyCode,
      bindingCode c (depth + 1) slots next bindings = .ok (first, inner, j) ∧
      expr c (depth + 1) inner j body = .ok (bodyCode, k) ∧ code = first ++ bodyCode
  | .seq forms => sequence c (depth + 1) slots next forms = .ok (code, k)

theorem expr_isCode {n : Node} (h : expr c depth slots next n = .ok (code, k)) :
    IsCode c depth slots next code k n := by
  rw [expr.eq_def] at h
  split at h
  · cases h
  cases n with
  | absent | const | varRef | defn | defGlobal | foreignGet =>
    cases h
    exact ⟨rfl, rfl⟩
  | localVar name =>
    dsimp only at h
    split at h
    · rename_i i hi
      cases h
      exact ⟨i, hi, rfl, rfl⟩
    · cases h
  | bindVar ns name init =>
    obtain ⟨⟨first, j⟩, hi, h⟩ := Except.bind_eq_ok h
    cases h
    exact ⟨first, j, hi, rfl, rfl⟩
  | invoke ns name args =>
    obtain ⟨⟨first, j⟩, ha, h⟩ := Except.bind_eq_ok h
    obtain ⟨codes, hc, rfl⟩ := exprs_eq_ok ha
    dsimp only at h
    split at h
    · rename_i index params hf
      split at h
      · cases h
      · rename_i hp
        cases h
        rw [ne_eq, not_not] at hp
        subst hp
        exact ⟨codes, index, hc, rfl, .inl hf⟩
    · rename_i hf
      cases h
      exact ⟨codes, _, hc, rfl, .inr ⟨hf, rfl⟩⟩
  | foreignCall name args =>
    obtain ⟨⟨first, j⟩, ha, h⟩ := Except.bind_eq_ok h
    obtain ⟨codes, hc, rfl⟩ := exprs_eq_ok ha
    cases h
    exact ⟨codes, hc, rfl⟩
  | foreignSet name value =>
    obtain ⟨⟨first, j⟩, hv, h⟩ := Except.bind_eq_ok h
    cases h
    exact ⟨first, hv, rfl⟩
  | prim op args =>
    obtain ⟨shape, hs, h⟩ := Except.bind_eq_ok h
    obtain ⟨⟨codes, j⟩, hc, h⟩ := Except.bind_eq_ok h
    cases h
    exact ⟨shape, codes, hs, hc, rfl⟩
  | ifElse cond thenB elseB =>
    obtain ⟨⟨condCode, i⟩, hc, h⟩ := Except.bind_eq_ok h
    obtain ⟨⟨thenCode, j⟩, ht, h⟩ := Except.bind_eq_ok h
    obtain ⟨⟨elseCode, k⟩, he, h⟩ := Except.bind_eq_ok h
    cases h
    refine ⟨condCode, i, thenCode, j, elseCode, hc, ht, he, ?_⟩
    simp
  | letIn bindings body =>
    obtain ⟨⟨first, inner, j⟩, hb, h⟩ := Except.bind_eq_ok h
    obtain ⟨⟨bodyCode, k⟩, hn, h⟩ := Except.bind_eq_ok h
    cases h
    exact ⟨first, inner, j, bodyCode, hb, hn, rfl⟩
  | seq forms => exact h

/-! ## Locals -/

/-- How many bytes instructions take. -/
def bytesOf (code : List Instr) : Nat := (Instr.encodeAll code).length

@[simp] theorem bytesOf_nil : bytesOf [] = 0 := rfl

@[simp] theorem bytesOf_cons (i : Instr) (code : List Instr) :
    bytesOf (i :: code) = i.encode.length + bytesOf code := by
  simp [bytesOf, Instr.encodeAll]

@[simp] theorem bytesOf_append (code more : List Instr) :
    bytesOf (code ++ more) = bytesOf code + bytesOf more := by
  induction code with
  | nil => simp
  | cons i code ih => simp [ih, Nat.add_assoc]

/-- A primitive's code holds the codes of its operands. -/
theorem bytesOf_flatten_le {shape : PrimShape} {codes : List (List Instr)}
    (h : ∀ v, shape = .constant v → codes = []) :
    bytesOf codes.flatten ≤ bytesOf (shape.code codes) := by
  cases shape with
  | isZero | relation op => simp [PrimShape.code]
  | negate => simp [PrimShape.code]; omega
  | constant v => simp [h v rfl]
  | chain op =>
    cases codes with
    | nil => simp
    | cons first rest =>
      have hrest : ∀ rest : List (List Instr),
          bytesOf rest.flatten ≤ bytesOf (rest.flatMap (· ++ [.bin .w64 op])) := by
        intro rest
        induction rest with
        | nil => simp
        | cons code rest ih =>
          simp only [List.flatten_cons, List.flatMap_cons, bytesOf_append]
          omega
      simp only [PrimShape.code, List.flatten_cons, bytesOf_append]
      have := hrest rest
      omega

mutual

/-- Locals are taken one after the other, each by an instruction of the code. -/
theorem expr_locals : ∀ {n : Node} {depth : Nat} {slots : Slots} {next k : Nat}
    {code : List Instr}, expr c depth slots next n = .ok (code, k) →
      next ≤ k ∧ k ≤ next + bytesOf code
  | .absent, _, _, _, _, _, h | .const _, _, _, _, _, _, h | .varRef _ _, _, _, _, _, _, h
  | .defn _ _ _ _, _, _, _, _, _, h | .defGlobal _ _, _, _, _, _, _, h
  | .foreignGet _, _, _, _, _, _, h => by
    obtain ⟨rfl, rfl⟩ := expr_isCode h
    omega
  | .localVar _, _, _, _, _, _, h => by
    obtain ⟨i, hi, rfl, rfl⟩ := expr_isCode h
    omega
  | .bindVar _ _ init, _, _, _, _, _, h => by
    obtain ⟨first, j, hi, rfl, rfl⟩ := expr_isCode h
    have := expr_locals hi
    simp only [bytesOf_append, bytesOf_cons, Instr.encode, List.length_cons]
    omega
  | .invoke _ _ args, _, _, _, _, _, h => by
    obtain ⟨codes, index, hc, rfl, -⟩ := expr_isCode h
    have := operandCodes_locals hc
    simp only [bytesOf_append]
    omega
  | .foreignCall _ args, _, _, _, _, _, h => by
    obtain ⟨codes, hc, rfl⟩ := expr_isCode h
    have := operandCodes_locals hc
    simp only [bytesOf_append]
    omega
  | .foreignSet _ value, _, _, _, _, _, h => by
    obtain ⟨first, hv, rfl⟩ := expr_isCode h
    have := expr_locals hv
    simp only [bytesOf_append]
    omega
  | .prim op args, _, _, _, _, _, h => by
    obtain ⟨shape, codes, hs, hc, rfl⟩ := expr_isCode h
    have hl := operandCodes_locals hc
    have hle : bytesOf codes.flatten ≤ bytesOf (shape.code codes) := by
      refine bytesOf_flatten_le fun v hv => ?_
      subst hv
      rw [PrimShape.operands, operandCodes] at hc
      cases hc
      rfl
    omega
  | .ifElse cond thenB elseB, _, _, _, _, _, h => by
    obtain ⟨condCode, i, thenCode, j, elseCode, hc, ht, he, rfl⟩ := expr_isCode h
    have h₁ := expr_locals hc
    have h₂ := expr_locals ht
    have h₃ := expr_locals he
    have hi : bytesOf thenCode + bytesOf elseCode ≤
        (Instr.ifElse (.value Binary.i64) thenCode elseCode).encode.length := by
      cases elseCode with
      | nil => simp [Instr.encode, Instr.encodeAll, bytesOf]; omega
      | cons e elseCode => simp [Instr.encode, bytesOf]; omega
    simp only [bytesOf_append, bytesOf_cons, bytesOf_nil]
    omega
  | .letIn bindings body, _, _, _, _, _, h => by
    obtain ⟨first, inner, j, bodyCode, hb, hn, rfl⟩ := expr_isCode h
    have h₁ := bindingCode_locals hb
    have h₂ := expr_locals hn
    rw [bytesOf_append]
    omega
  | .seq forms, _, _, _, _, _, h => sequence_locals (expr_isCode h)

theorem sequence_locals : ∀ {ns : List Node} {depth : Nat} {slots : Slots} {next k : Nat}
    {code : List Instr}, sequence c depth slots next ns = .ok (code, k) →
      next ≤ k ∧ k ≤ next + bytesOf code
  | [], _, _, _, _, _, h => by
    rw [sequence] at h
    cases h
    omega
  | [n], _, _, _, _, _, h => by
    rw [sequence] at h
    exact expr_locals h
  | n :: m :: ns, _, _, _, _, _, h => by
    obtain ⟨first, j, more, hn, hm, rfl⟩ := sequence_cons h
    have h₁ := expr_locals hn
    have h₂ := sequence_locals hm
    simp only [bytesOf_append, bytesOf_cons]
    omega

theorem bindingCode_locals : ∀ {bs : List (String × Node)} {depth : Nat} {slots inner : Slots}
    {next k : Nat} {code : List Instr},
      bindingCode c depth slots next bs = .ok (code, inner, k) →
        next ≤ k ∧ k ≤ next + bytesOf code
  | [], _, _, _, _, _, _, h => by
    rw [bindingCode] at h
    cases h
    omega
  | (name, value) :: bs, _, _, _, _, _, _, h => by
    obtain ⟨first, j, more, hn, hm, rfl⟩ := bindingCode_cons h
    have h₁ := expr_locals hn
    have h₂ := bindingCode_locals hm
    simp only [bytesOf_append, bytesOf_cons, Instr.encode, List.length_cons]
    omega

theorem operandCodes_locals : ∀ {ns : List Node} {count depth : Nat} {slots : Slots}
    {next k : Nat} {codes : List (List Instr)},
      operandCodes c depth slots next count ns = .ok (codes, k) →
        next ≤ k ∧ k ≤ next + bytesOf codes.flatten
  | _, 0, _, _, _, _, _, h => by
    rw [operandCodes] at h
    cases h
    omega
  | [], count + 1, _, _, _, _, _, h => by
    rw [operandCodes] at h
    · cases h
      omega
    · simp
  | n :: ns, count + 1, _, _, _, _, _, h => by
    obtain ⟨code, j, more, hn, hm, rfl⟩ := operandCodes_cons h
    have h₁ := expr_locals hn
    have h₂ := operandCodes_locals hm
    simp only [List.flatten_cons, bytesOf_append]
    omega

end

end Codegen

end WasmLisp
