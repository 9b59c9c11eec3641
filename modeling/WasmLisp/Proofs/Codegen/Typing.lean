import Mathlib
import WasmLisp.Machine.Validate
import WasmLisp.Proofs.Codegen.Expr
import WasmLisp.Proofs.Machine.Decode

/-!
# Generated code keeps to the types

* `Suits`: the indices of a layout mean in a module what the layout says;
* `Moves`: code that can be written, takes integers off the operand stack and leaves others;
* `expr_moves`: the code of an expression takes none and leaves one.
-/

namespace WasmLisp.Codegen

open Machine (Instr Operands check checkAll)
open Artifact (envModule varModule varDefModule)
open Binary (i64 FuncType)

/-! ## Several instructions -/

/-- Code is checked part by part: what the first part leaves is what the next begins with. -/
theorem checkAll_append (t : Machine.Context) (s : Operands) (code more : List Instr) :
    checkAll t s (code ++ more) = (checkAll t s code).bind fun s => checkAll t s more := by
  induction code generalizing s with
  | nil => rfl
  | cons i code ih =>
    simp only [List.cons_append, checkAll, bind]
    cases check t s i with
    | none => rfl
    | some s => exact ih s

/-- Code can be written if its parts can. -/
theorem fitsAll_append {code more : List Instr} (h : Instr.FitsAll code)
    (h' : Instr.FitsAll more) : Instr.FitsAll (code ++ more) := by
  induction code with
  | nil => exact h'
  | cons i code ih => exact ⟨h.1, ih h.2⟩

/-- The operands of code that never branches, the top first. -/
def operands (n : Nat) (st : List UInt8) : Operands := { types := List.replicate n i64 ++ st }

/-- The code can be written, takes `m` integers off the operand stack and leaves `n` there. -/
structure Moves (t : Machine.Context) (m : Nat) (code : List Instr) (n : Nat) : Prop where
  fits : Instr.FitsAll code
  checked : ∀ st, checkAll t (operands m st) code = some (operands n st)

variable {t : Machine.Context} {c : Context} {total : Nat}

/-- Code that is followed by other code moves the operands as both do in turn. -/
theorem Moves.append {k m n : Nat} {code more : List Instr} (h : Moves t k code m)
    (h' : Moves t m more n) : Moves t k (code ++ more) n where
  fits := fitsAll_append h.fits h'.fits
  checked st := by rw [checkAll_append, h.checked, Option.bind_some, h'.checked]

theorem operands_add (k n : Nat) (st : List UInt8) :
    operands (n + k) st = operands n (List.replicate k i64 ++ st) := by
  simp [operands, ← List.append_assoc]

/-- Integers below are left alone. -/
theorem Moves.frame {m n : Nat} {code : List Instr} (h : Moves t m code n) (k : Nat) :
    Moves t (m + k) code (n + k) where
  fits := h.fits
  checked st := by rw [operands_add, operands_add, h.checked]

/-- No code moves nothing. -/
theorem Moves.nil (n : Nat) : Moves t n [] n := ⟨trivial, fun _ => rfl⟩

/-- What an instruction does to the operands is for its check to say. -/
theorem Moves.single {m n : Nat} {i : Instr} (hf : i.Fits)
    (h : ∀ st, check t (operands m st) i = some (operands n st)) : Moves t m [i] n where
  fits := ⟨hf, trivial⟩
  checked st := by
    simp only [checkAll, h, bind]
    rfl

/-- Code can be looked at instruction by instruction. -/
theorem Moves.cons {k m n : Nat} {i : Instr} {code : List Instr} (h : Moves t k [i] m)
    (h' : Moves t m code n) : Moves t k (i :: code) n := h.append h'

/-! ## Single instructions -/

section Check

variable (t : Machine.Context) (s : Operands) (i : Nat)

theorem check_localGet : check t s (.localGet i) =
    (t.locals[i]?).bind fun u => some (s.push [u]) := rfl

theorem check_localSet : check t s (.localSet i) = (t.locals[i]?).bind s.pop1 := rfl

theorem check_localTee : check t s (.localTee i) =
    (t.locals[i]?).bind fun u => (s.pop1 u).bind fun s => some (s.push [u]) := rfl

theorem check_globalGet : check t s (.globalGet i) =
    (t.globals[i]?).bind fun g => some (s.push [g.valType]) := rfl

theorem check_globalSet : check t s (.globalSet i) =
    (t.globals[i]?).bind fun g => if g.mutable then s.pop1 g.valType else none := rfl

theorem check_call : check t s (.call i) =
    (t.funcs[i]?).bind fun u => (s.pop u.params).bind fun s => some (s.push u.results) := rfl

end Check

/-- A constant is pushed. -/
theorem moves_const (v : Int64) : Moves t 0 [.i64Const v] 1 :=
  .single trivial fun _ => rfl

theorem moves_drop : Moves t 1 [.drop] 0 := .single trivial fun _ => rfl

/-- An operation takes two operands and leaves one. -/
theorem moves_bin (op : Machine.Bin) : Moves t 2 [.bin .w64 op] 1 := .single trivial fun _ => rfl

/-- A comparison takes two operands and leaves one, as an integer of 64 bits. -/
theorem moves_rel (op : Machine.Rel) : Moves t 2 [.rel .w64 op, .extendU] 1 :=
  ⟨⟨trivial, trivial, trivial⟩, fun _ => rfl⟩

theorem moves_eqz : Moves t 1 [.eqz .w64, .extendU] 1 :=
  ⟨⟨trivial, trivial, trivial⟩, fun _ => rfl⟩

/-- What a typing context has to say for the code of a layout: what the indices of the layout lead
to, and that there are `total` locals. -/
structure Suits (l : Layout) (total : Nat) (t : Machine.Context) : Prop where
  keys : l.keys.length = l.funcs.length
  imports : ∀ module name params results, .func module name params results ∈ l.imports →
    t.funcs[l.importIndex module name]? = some (.ofCounts params results)
  funcs : ∀ i f, l.funcs[i]? = some f →
    t.funcs[l.funcImports.length + i]? = some (.ofCounts f.defn.params.length 1)
  globals : ∀ name, name ∈ l.globals.map (·.1) ∨ .global name ∈ l.imports →
    t.globals[l.globalIndex name]? = some { valType := i64, mutable := true }
  locals : t.locals = List.replicate total i64
  funcCount : t.funcs.length ≤ 0x100000000
  globalCount : t.globals.length ≤ 0x100000000
  localCount : total ≤ 0x100000000

/-- Labels are nothing to the indices of a layout. -/
theorem Suits.withLabels {l : Layout} (h : Suits l total t) (labels : List (List UInt8)) :
    Suits l total { t with labels } :=
  ⟨h.keys, h.imports, h.funcs, h.globals, h.locals, h.funcCount, h.globalCount, h.localCount⟩

/-- A local below the total is there, it is an integer, and its index can be written. -/
theorem Suits.local? {l : Layout} (h : Suits l total t) {i : Nat} (hi : i < total) :
    t.locals[i]? = some i64 ∧ i < 0x100000000 := by
  have := h.localCount
  refine ⟨?_, by omega⟩
  rw [h.locals, List.getElem?_replicate, if_pos hi]

/-- A local below the total can be read. -/
theorem Suits.moves_localGet {l : Layout} (h : Suits l total t) {i : Nat} (hi : i < total) :
    Moves t 0 [.localGet i] 1 :=
  .single (h.local? hi).2 fun st => by rw [check_localGet, (h.local? hi).1]; rfl

/-- It can be set, which takes its value off the stack. -/
theorem Suits.moves_localSet {l : Layout} (h : Suits l total t) {i : Nat} (hi : i < total) :
    Moves t 1 [.localSet i] 0 :=
  .single (h.local? hi).2 fun st => by rw [check_localSet, (h.local? hi).1]; rfl

/-- It can be set with the value kept as an operand. -/
theorem Suits.moves_localTee {l : Layout} (h : Suits l total t) {i : Nat} (hi : i < total) :
    Moves t 1 [.localTee i] 1 :=
  .single (h.local? hi).2 fun st => by rw [check_localTee, (h.local? hi).1]; rfl

/-- The index of an item can be written if the list is no longer than the format can say. -/
theorem lt_of_getElem?_eq_some {α : Type} {l : List α} {i : Nat} {a : α} (h : l[i]? = some a)
    (hl : l.length ≤ 0x100000000) : i < 0x100000000 := by
  have := (List.getElem?_eq_some_iff.1 h).1
  omega

/-- A call takes as many operands as the function has parameters and leaves as many as it has results.
-/
theorem moves_call {i params results : Nat}
    (h : t.funcs[i]? = some (.ofCounts params results)) (hl : t.funcs.length ≤ 0x100000000) :
    Moves t params [.call i] results := by
  refine .single (lt_of_getElem?_eq_some h hl) fun st => ?_
  have hpop : ∀ n st, (operands n st).pop (List.replicate n i64) = some (operands 0 st) := by
    intro n st
    rw [Operands.pop, List.reverse_replicate]
    induction n with
    | zero => rfl
    | succ n ih =>
      rw [List.replicate_succ, List.foldlM_cons]
      exact ih
  rw [check_call, h, Option.bind_some]
  simp only [FuncType.ofCounts, hpop, Option.bind_some, Operands.push, List.reverse_replicate]
  rfl

/-- A data symbol that the module defines or imports can be read. -/
theorem Suits.moves_globalGet {l : Layout} (h : Suits l total t) {name : String}
    (hn : name ∈ l.globals.map (·.1) ∨ .global name ∈ l.imports) :
    Moves t 0 [.globalGet (l.globalIndex name)] 1 := by
  refine .single (lt_of_getElem?_eq_some (h.globals name hn) h.globalCount) fun st => ?_
  rw [check_globalGet, h.globals name hn]
  rfl

/-- It can be set, since all data symbols are mutable. -/
theorem Suits.moves_globalSet {l : Layout} (h : Suits l total t) {name : String}
    (hn : name ∈ l.globals.map (·.1) ∨ .global name ∈ l.imports) :
    Moves t 1 [.globalSet (l.globalIndex name)] 0 := by
  refine .single (lt_of_getElem?_eq_some (h.globals name hn) h.globalCount) fun st => ?_
  rw [check_globalSet, h.globals name hn]
  rfl

/-- Both branches of a conditional leave one integer, and so does the conditional. -/
theorem moves_ifElse {thenB elseB : List Instr}
    (ht : Moves { t with labels := [i64] :: t.labels } 0 thenB 1)
    (he : Moves { t with labels := [i64] :: t.labels } 0 elseB 1) :
    Moves t 1 [.i64Const 0, .rel .w64 .ne, .ifElse (.value i64) thenB elseB] 1 := by
  refine ⟨⟨trivial, trivial, ⟨rfl, ht.fits, he.fits⟩, trivial⟩, fun st => ?_⟩
  have h₁ : checkAll { t with labels := [i64] :: t.labels } {} thenB = some (operands 1 []) :=
    ht.checked []
  have h₂ : checkAll { t with labels := [i64] :: t.labels } {} elseB = some (operands 1 []) :=
    he.checked []
  have hc : ∀ s : Operands, check t { s with types := Binary.i32 :: s.types }
      (.ifElse (.value i64) thenB elseB) = some { s with types := i64 :: s.types } := by
    intro s
    simp only [check, Machine.Context.blockType?, bind, Option.bind, Operands.pop1, if_true,
      Operands.pop, Operands.push, List.reverse_nil, List.foldlM_nil, pure, List.nil_append]
    rw [h₁, h₂]
    rfl
  exact congrArg (fun r => Option.bind r fun s => some s) (hc (operands 0 st))

/-! ## Expressions -/

/-- The codes of operands, one by one, each leaving an integer. -/
theorem moves_flatten {codes : List (List Instr)} (h : ∀ code ∈ codes, Moves t 0 code 1) :
    Moves t 0 codes.flatten codes.length := by
  induction codes with
  | nil => exact .nil 0
  | cons code codes ih =>
    have hs := ih fun d hd => h d (List.mem_cons_of_mem _ hd)
    have hc := (h code List.mem_cons_self)
    have := hs.frame 1
    rw [Nat.zero_add] at this
    exact hc.append this

/-- An operation between each operand and the next leaves one integer. -/
theorem moves_chain (op : Machine.Bin) {codes : List (List Instr)}
    (h : ∀ code ∈ codes, Moves t 0 code 1) :
    Moves t 1 (codes.flatMap (· ++ [.bin .w64 op])) 1 := by
  induction codes with
  | nil => exact .nil 1
  | cons code codes ih =>
    have hc := (h code List.mem_cons_self).frame 1
    have hs := ih fun d hd => h d (List.mem_cons_of_mem _ hd)
    rw [List.flatMap_cons]
    exact (hc.append (moves_bin op)).append hs

/-- A primitive's code leaves one integer if those of its operands do. -/
theorem moves_prim {name : String} {count : Nat} {shape : PrimShape} {codes : List (List Instr)}
    (hs : shape.Suits name count) (hl : codes.length = min (shape.operands count) count)
    (h : ∀ code ∈ codes, Moves t 0 code 1) : Moves t 0 (shape.code codes) 1 := by
  have hall := moves_flatten h
  cases shape with
  | isZero =>
    have hone : codes.length = 1 := by
      rw [hl, PrimShape.operands]
      have := hs.2
      omega
    rw [hone] at hall
    exact hall.append moves_eqz
  | relation op =>
    have htwo : codes.length = 2 := by
      have := hs.2.2
      simp only [PrimShape.operands] at hl
      omega
    rw [htwo] at hall
    exact hall.append (moves_rel op)
  | constant v => exact moves_const v
  | negate =>
    have hone : codes.length = 1 := by
      have := hs.2
      simp only [PrimShape.operands] at hl
      omega
    rw [hone] at hall
    exact (moves_const 0).cons ((hall.frame 1).append (moves_bin .sub))
  | chain op =>
    cases codes with
    | nil =>
      have := hs.2.1
      simp only [PrimShape.operands, List.length_nil] at hl
      omega
    | cons first rest =>
      exact (h first List.mem_cons_self).append
        (moves_chain op fun d hd => h d (List.mem_cons_of_mem _ hd))

/-- Every slot is below the first free local. -/
def Below (slots : Slots) (next : Nat) : Prop := ∀ p ∈ slots, p.2 < next

/-- Slots stay below a limit that is raised. -/
theorem Below.mono {slots : Slots} {next k : Nat} (h : Below slots next) (hk : next ≤ k) :
    Below slots k := fun p hp => Nat.lt_of_lt_of_le (h p hp) hk

/-- A new slot is below the limit after it. -/
theorem Below.cons {slots : Slots} {next : Nat} (h : Below slots next) (name : String) :
    Below ((name, next) :: slots) (next + 1) := by
  intro p hp
  rcases List.mem_cons.1 hp with rfl | hp
  · exact Nat.lt_succ_self next
  · exact Nat.lt_succ_of_lt (h p hp)

/-- The slot of a name is below the limit. -/
theorem Below.lookup {slots : Slots} {next : Nat} (h : Below slots next) {name : String} {i : Nat}
    (hi : slots.lookup name = some i) : i < next := by
  obtain ⟨before, after, rfl, -⟩ := List.lookup_eq_some_iff.1 hi
  exact h (name, i) (by simp)

mutual

/-- The code of an expression leaves one integer. -/
theorem expr_moves : ∀ {n : Node} {t : Machine.Context} {depth : Nat} {slots : Slots}
    {next k : Nat} {code : List Instr}, expr c depth slots next n = .ok (code, k) →
      Suits c.layout total t → (∀ m ∈ n.flatten, c.layout.Places m) → Below slots next →
      k ≤ total → Moves t 0 code 1
  | .absent, _, _, _, _, _, _, h, _, _, _, _ | .const _, _, _, _, _, _, _, h, _, _, _, _
  | .defn _ _ _ _, _, _, _, _, _, _, h, _, _, _, _
  | .defGlobal _ _, _, _, _, _, _, _, h, _, _, _, _ => by
    obtain ⟨rfl, rfl⟩ := expr_isCode h
    exact moves_const _
  | .localVar _, _, _, _, _, _, _, h, ht, _, hb, hk => by
    obtain ⟨i, hi, rfl, rfl⟩ := expr_isCode h
    exact ht.moves_localGet (Nat.lt_of_lt_of_le (hb.lookup hi) hk)
  | .varRef ns name, _, _, _, _, _, _, h, ht, hp, _, _ => by
    obtain ⟨rfl, rfl⟩ := expr_isCode h
    have hin := hp (.varRef ns name) (by simp [Node.flatten])
    exact moves_call (ht.imports _ _ _ _ hin) ht.funcCount
  | .bindVar ns name init, _, _, _, _, _, _, h, ht, hp, hb, hk => by
    obtain ⟨first, j, hi, rfl, rfl⟩ := expr_isCode h
    have hin := hp (.bindVar ns name init) (by simp [Node.flatten])
    have hj := expr_locals hi
    have hfirst := expr_moves hi ht (fun m hm => hp m (by simp [Node.flatten, hm])) hb (by omega)
    exact hfirst.append ((ht.moves_localTee (by omega)).cons
      ((moves_call (ht.imports _ _ _ _ hin) ht.funcCount).cons (ht.moves_localGet (by omega))))
  | .invoke ns name args, _, _, _, _, _, _, h, ht, hp, hb, hk => by
    obtain ⟨codes, index, hc, rfl, hindex⟩ := expr_isCode h
    have hin := hp (.invoke ns name args) (by simp [Node.flatten])
    have hargs := operandCodes_moves hc ht (fun m hm => hp m (by simp [Node.flatten, hm])) hb hk
    have hall := moves_flatten hargs.2
    rw [hargs.1, Nat.min_self] at hall
    refine hall.append ?_
    rcases hindex with hindex | ⟨hindex, rfl⟩
    · obtain ⟨i, f, -, hf, rfl, hlen⟩ := Layout.funcIndex?_eq_some hindex
      rw [hlen]
      exact moves_call (ht.funcs i f hf) ht.funcCount
    · have himport := hin.resolve_left (Layout.funcIndex?_eq_none ht.keys hindex)
      exact moves_call (ht.imports _ _ _ _ himport) ht.funcCount
  | .foreignCall name args, _, _, _, _, _, _, h, ht, hp, hb, hk => by
    obtain ⟨codes, hc, rfl⟩ := expr_isCode h
    have hin := hp (.foreignCall name args) (by simp [Node.flatten])
    have hargs := operandCodes_moves hc ht (fun m hm => hp m (by simp [Node.flatten, hm])) hb hk
    have hall := moves_flatten hargs.2
    rw [hargs.1, Nat.min_self] at hall
    exact hall.append (moves_call (ht.imports _ _ _ _ hin) ht.funcCount)
  | .foreignGet name, _, _, _, _, _, _, h, ht, hp, _, _ => by
    obtain ⟨rfl, rfl⟩ := expr_isCode h
    exact ht.moves_globalGet (hp (.foreignGet name) (by simp [Node.flatten]))
  | .foreignSet name value, _, _, _, _, _, _, h, ht, hp, hb, hk => by
    obtain ⟨first, hv, rfl⟩ := expr_isCode h
    have hin := hp (.foreignSet name value) (by simp [Node.flatten])
    have hfirst := expr_moves hv ht (fun m hm => hp m (by simp [Node.flatten, hm])) hb hk
    exact hfirst.append ((ht.moves_globalSet hin).cons (ht.moves_globalGet hin))
  | .prim op args, _, _, _, _, _, _, h, ht, hp, hb, hk => by
    obtain ⟨shape, codes, hs, hc, rfl⟩ := expr_isCode h
    have hargs := operandCodes_moves hc ht (fun m hm => hp m (by simp [Node.flatten, hm])) hb hk
    exact moves_prim (PrimShape.of_suits hs) hargs.1 hargs.2
  | .ifElse cond thenB elseB, _, _, _, _, _, _, h, ht, hp, hb, hk => by
    obtain ⟨condCode, i, thenCode, j, elseCode, hc, hthen, helse, rfl⟩ := expr_isCode h
    have h₁ := expr_locals hc
    have h₂ := expr_locals hthen
    have h₃ := expr_locals helse
    have hcond := expr_moves hc ht (fun m hm => hp m (by simp [Node.flatten, hm])) hb (by omega)
    refine hcond.append (moves_ifElse ?_ ?_)
    · exact expr_moves hthen (ht.withLabels _) (fun m hm => hp m (by simp [Node.flatten, hm]))
        (hb.mono h₁.1) (by omega)
    · exact expr_moves helse (ht.withLabels _) (fun m hm => hp m (by simp [Node.flatten, hm]))
        (hb.mono (by omega)) hk
  | .letIn bindings body, _, _, _, _, _, _, h, ht, hp, hb, hk => by
    obtain ⟨first, inner, j, bodyCode, hbs, hn, rfl⟩ := expr_isCode h
    have h₁ := expr_locals hn
    obtain ⟨hfirst, hinner⟩ := bindingCode_moves hbs ht
      (fun m hm => hp m (by simp [Node.flatten, hm])) hb (by omega)
    exact hfirst.append (expr_moves hn ht (fun m hm => hp m (by simp [Node.flatten, hm])) hinner hk)
  | .seq forms, _, _, _, _, _, _, h, ht, hp, hb, hk =>
    sequence_moves (expr_isCode h) ht (fun m hm => hp m (by simp [Node.flatten, hm])) hb hk

/-- So does the code of a sequence, with the value of its last node. -/
theorem sequence_moves : ∀ {ns : List Node} {t : Machine.Context} {depth : Nat} {slots : Slots}
    {next k : Nat} {code : List Instr}, sequence c depth slots next ns = .ok (code, k) →
      Suits c.layout total t → (∀ m ∈ Node.flattenAll ns, c.layout.Places m) → Below slots next →
      k ≤ total → Moves t 0 code 1
  | [], _, _, _, _, _, _, h, _, _, _, _ => by
    rw [sequence] at h
    cases h
    exact moves_const _
  | [n], _, _, _, _, _, _, h, ht, hp, hb, hk => by
    rw [sequence] at h
    exact expr_moves h ht (fun m hm => hp m (by simp [Node.flattenAll, hm])) hb hk
  | n :: m :: ns, _, _, _, _, _, _, h, ht, hp, hb, hk => by
    obtain ⟨first, j, more, hn, hm, rfl⟩ := sequence_cons h
    have h₁ := expr_locals hn
    have h₂ := sequence_locals hm
    have hfirst := expr_moves hn ht (fun m hm => hp m (by simp [Node.flattenAll, hm])) hb (by omega)
    have hmore := sequence_moves hm ht (fun m hm => hp m (by rw [Node.flattenAll]; simp [hm]))
      (hb.mono h₁.1) hk
    exact hfirst.append (moves_drop.cons hmore)

/-- The code of bindings leaves no operand, and their slots are below the next free one. -/
theorem bindingCode_moves : ∀ {bs : List (String × Node)} {t : Machine.Context} {depth : Nat}
    {slots inner : Slots} {next k : Nat} {code : List Instr},
      bindingCode c depth slots next bs = .ok (code, inner, k) →
      Suits c.layout total t → (∀ m ∈ Node.flattenBindings bs, c.layout.Places m) →
      Below slots next → k ≤ total → Moves t 0 code 0 ∧ Below inner k
  | [], _, _, _, _, _, _, _, h, _, _, hb, _ => by
    rw [bindingCode] at h
    cases h
    exact ⟨.nil 0, hb⟩
  | (name, value) :: bs, _, _, _, _, _, _, _, h, ht, hp, hb, hk => by
    obtain ⟨first, j, more, hn, hm, rfl⟩ := bindingCode_cons h
    have h₁ := expr_locals hn
    have h₂ := bindingCode_locals hm
    have hfirst := expr_moves hn ht (fun m hm => hp m (by simp [Node.flattenBindings, hm])) hb
      (by omega)
    obtain ⟨hmore, hinner⟩ := bindingCode_moves hm ht
      (fun m hm => hp m (by simp [Node.flattenBindings, hm])) ((hb.mono h₁.1).cons name) hk
    exact ⟨hfirst.append ((ht.moves_localSet (by omega)).cons hmore), hinner⟩

/-- The code of operands is one piece for each of them, up to the number that is looked at, and each
piece leaves one integer. -/
theorem operandCodes_moves : ∀ {ns : List Node} {t : Machine.Context} {count depth : Nat}
    {slots : Slots} {next k : Nat} {codes : List (List Instr)},
      operandCodes c depth slots next count ns = .ok (codes, k) →
      Suits c.layout total t → (∀ m ∈ Node.flattenAll ns, c.layout.Places m) → Below slots next →
      k ≤ total → codes.length = min count ns.length ∧ ∀ code ∈ codes, Moves t 0 code 1
  | _, _, 0, _, _, _, _, _, h, _, _, _, _ => by
    rw [operandCodes] at h
    cases h
    simp
  | [], _, count + 1, _, _, _, _, _, h, _, _, _, _ => by
    rw [operandCodes] at h
    · cases h
      simp
    · simp
  | n :: ns, _, count + 1, _, _, _, _, _, h, ht, hp, hb, hk => by
    obtain ⟨code, j, more, hn, hm, rfl⟩ := operandCodes_cons h
    have h₁ := expr_locals hn
    have h₂ := operandCodes_locals hm
    have hcode := expr_moves hn ht (fun m hm => hp m (by simp [Node.flattenAll, hm])) hb (by omega)
    obtain ⟨hlen, hmore⟩ := operandCodes_moves hm ht
      (fun m hm => hp m (by simp [Node.flattenAll, hm])) (hb.mono h₁.1) hk
    refine ⟨by simp [hlen], ?_⟩
    intro d hd
    rcases List.mem_cons.1 hd with rfl | hd
    · exact hcode
    · exact hmore d hd

end

end WasmLisp.Codegen
