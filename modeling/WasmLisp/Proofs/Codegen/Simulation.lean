import Mathlib
import WasmLisp.Proofs.Analysis
import WasmLisp.Proofs.Codegen.Hosted

/-!
# Code does what its expression means

* `Agrees` and `Keeps`: how locals of the machine hold the local names, and which of them code
  leaves alone;
* `prim_runs`, `import_runs`: primitives and calls of functions outside;
* `expr_runs`: the code of an expression runs as the expression is evaluated.
-/

namespace WasmLisp.Codegen

open Machine (Instr Store Extern Callee HostCall Trap Config Scene)
open Artifact (envModule varModule varDefModule)
open Binary (i64 FuncType)

variable {η σ : Type}

/-! ## Locals -/

/-- Locals below the first free one are the same, and there are as many. -/
structure Keeps (next : Nat) (locals locals' : List Int64) : Prop where
  length : locals'.length = locals.length
  same : ∀ i < next, locals'.getD i 0 = locals.getD i 0

theorem Keeps.refl (next : Nat) (locals : List Int64) : Keeps next locals locals :=
  ⟨rfl, fun _ _ => rfl⟩

theorem Keeps.trans {next k : Nat} {l₁ l₂ l₃ : List Int64} (h : Keeps next l₁ l₂)
    (h' : Keeps k l₂ l₃) (hk : next ≤ k) : Keeps next l₁ l₃ where
  length := h'.length.trans h.length
  same i hi := (h'.same i (by omega)).trans (h.same i hi)

theorem keeps_set {next j : Nat} (locals : List Int64) (v : Int64) (h : next ≤ j) :
    Keeps next locals (locals.set j v) where
  length := List.length_set
  same i hi := by
    rw [List.getD_eq_getElem?_getD, List.getElem?_set_ne (by omega), ← List.getD_eq_getElem?_getD]

/-- The locals hold the values of the names in their slots. -/
def Agrees (slots : Slots) (env : Meaning.Locals) (locals : List Int64) : Prop :=
  List.Forall₂ (fun a b => a.1 = b.1 ∧ locals.getD a.2 0 = b.2) slots env

theorem Agrees.keeps {slots : Slots} {env : Meaning.Locals} {locals locals' : List Int64}
    {next : Nat} (h : Agrees slots env locals) (hb : Below slots next)
    (hk : Keeps next locals locals') : Agrees slots env locals' := by
  unfold Agrees at *
  induction h with
  | nil => exact .nil
  | cons hab _ ih =>
    refine .cons ⟨hab.1, ?_⟩ (ih fun p hp => hb p (List.mem_cons_of_mem _ hp))
    rw [hk.same _ (hb _ List.mem_cons_self), hab.2]

theorem Agrees.lookup {slots : Slots} {env : Meaning.Locals} {locals : List Int64}
    (h : Agrees slots env locals) {name : String} {i : Nat} (hi : slots.lookup name = some i) :
    env.lookup name = some (locals.getD i 0) := by
  unfold Agrees at h
  induction h with
  | nil => cases hi
  | @cons a b slots env hab _ ih =>
    obtain ⟨x, j⟩ := a
    obtain ⟨y, v⟩ := b
    obtain ⟨rfl, rfl⟩ := hab
    rw [List.lookup_cons] at hi ⊢
    split at hi
    · rename_i hx
      cases hi
      simp [hx]
    · rename_i hx
      simp [hx, ih hi]

/-- A new local holds the value of a new name. -/
theorem Agrees.bind {slots : Slots} {env : Meaning.Locals} {locals : List Int64} {j : Nat}
    (h : Agrees slots env locals) (hb : Below slots j) (hj : j < locals.length) (name : String)
    (v : Int64) : Agrees ((name, j) :: slots) ((name, v) :: env) (locals.set j v) := by
  refine .cons ⟨rfl, ?_⟩ (h.keeps hb (keeps_set locals v (Nat.le_refl j)))
  simp [List.getD_eq_getElem?_getD, hj]

theorem agrees_params (params : List String) (args rest : List Int64)
    (h : args.length = params.length) :
    Agrees (paramSlots params) (params.zip args).reverse (args ++ rest) := by
  rw [Agrees, paramSlots, List.forall₂_reverse_iff]
  rw [List.forall₂_iff_get]
  refine ⟨by simp [h], fun i h₁ h₂ => ?_⟩
  have hi : i < args.length := by simp at h₂; omega
  simp [List.getD_eq_getElem?_getD, List.getElem?_append_left hi, hi]

/-! ## The scene -/

/-- A primitive has operands as it needs them. -/
def PrimFits : Node → Prop
  | .prim op args =>
    ∃ bounds, primArity? op = some bounds ∧ Analysis.arityFits bounds args.length = true
  | _ => True

/-- The program of a unit, of which an instance has been added to a store. -/
structure Live (p : Program) (u : CompUnit) (fns : List Defn) (depth : Nat) (new : List Reached)
    (s s' : Store η) (inst : Machine.Instance) : Prop where
  built : p.Built u fns depth new
  hosted : Hosted p u s s' inst
  size : p.toModule.encode.length < 0x100000000
  prims : ∀ n ∈ reachedNodes u new, PrimFits n

/-- How runs of the instance are looked at. -/
def scene (host : HostCall η σ) (p : Program) (s s' : Store η) (fuel : Nat) : Scene η σ :=
  { host, module := p.machine, first := s.funcs.size, store := s', fuel }

/-- A function of the instance is active, and all functions below it are of the instance too. -/
structure Within (s : Store η) (c : Config η σ) : Prop where
  inst : c.frame.inst = s.instances.size
  active : ∀ a ∈ c.active, s.funcs.size ≤ a
  limit : c.limit = none

theorem Within.labelled {s : Store η} {c : Config η σ} (h : Within s c) (label : Machine.Label) :
    Within s (Scene.labelled c label) := ⟨h.inst, h.active, h.limit⟩

/-- The value is on top of the operands, and locals below the first free one are the same. -/
def Leaves (next : Nat) (locals stack : List Int64) (v : Int64) (locals' stack' : List Int64) :
    Prop :=
  Keeps next locals locals' ∧ stack' = v :: stack

theorem leaves_of_eq {next : Nat} {locals stack locals' stack' : List Int64} {v : Int64}
    (h : locals' = locals ∧ stack' = v :: stack) : Leaves next locals stack v locals' stack' := by
  obtain ⟨rfl, rfl⟩ := h
  exact ⟨.refl _ _, rfl⟩

section

variable {p : Program} {u : CompUnit} {fns : List Defn} {depth : Nat} {new : List Reached}
  {s s' : Store η} {inst : Machine.Instance} {host : HostCall η σ} {fuel : Nat} {c : Config η σ}
  {locals stack below : List Int64}

/-! ## What is outside -/

/-- A call of an imported function. -/
theorem import_runs (hv : Live p u fns depth new s s' inst) (hc : Within s c)
    {module name : String} {params results : Nat}
    (hin : .func module name params results ∈ p.layout.imports) (args : List Int64)
    (hargs : args.length = params) :
    (scene host p s s' fuel).Runs c locals [.call (p.layout.importIndex module name)]
      (args.reverse ++ below)
      (.doing (.ofImport module name args) (foreign host s module name fuel args))
      fun values locals' stack' => values.length = results ∧ locals' = locals ∧
        stack' = values.reverse ++ below := by
  obtain ⟨a, callee, hexp, hfunc, hlt, hcallee, htype⟩ := hv.hosted.imports _ _ _ _ hin
  obtain ⟨hname, hsig⟩ := hv.built.imports hv.size hin
  have haddr : (scene host p s s' fuel).function? c (p.layout.importIndex module name) =
      some a := by
    simp only [Scene.function?, scene, hc.inst, hv.hosted.added, Option.bind_some, hfunc]
  have hevents : p.machine.callEvents (p.layout.importIndex module name) (args.reverse ++ below) =
      [.ofImport module name args] := by
    simp only [Machine.Module.callEvents, hname, hsig, FuncType.ofCounts, List.length_replicate]
    rw [← hargs, ← List.length_reverse, List.take_left, List.reverse_reverse]
  have hforeign : foreign host s module name fuel args = fun state =>
      (Machine.invokeWithin host none fuel state.1 state.2 a args).answer := by
    funext state
    simp only [foreign, hexp]
  rw [hforeign]
  refine (Scene.Runs.foreign haddr hcallee ?_ hlt hc.limit hc.active hevents).imp ?_
  · rw [htype, FuncType.ofCounts, List.length_replicate, hargs]
  · rintro values locals' stack' ⟨hlen, hrest⟩
    rw [htype, FuncType.ofCounts, List.length_replicate] at hlen
    exact ⟨hlen, hrest⟩

/-- A call of an imported function that gives one value. -/
theorem import_runs_one (hv : Live p u fns depth new s s' inst) (hc : Within s c)
    {module name : String} {params : Nat} (hin : .func module name params 1 ∈ p.layout.imports)
    (args : List Int64) (hargs : args.length = params) :
    (scene host p s s' fuel).Runs c locals [.call (p.layout.importIndex module name)]
      (args.reverse ++ below)
      (.doing (.ofImport module name args) fun state =>
        (foreign host s module name fuel args state).map fun r =>
          (r.1, r.2.map fun values => values.headD 0))
      fun v locals' stack' => locals' = locals ∧ stack' = v :: below := by
  rw [Eval.doing_map]
  refine (import_runs hv hc hin args hargs).map ?_
  rintro values locals' stack' ⟨hlen, rfl, rfl⟩
  obtain ⟨v, rfl⟩ := List.length_eq_one_iff.1 hlen
  exact ⟨rfl, rfl⟩

theorem varRef_runs (hv : Live p u fns depth new s s' inst) (hc : Within s c) {name : String}
    (hin : .func varModule name 0 1 ∈ p.layout.imports) :
    (scene host p s s' fuel).Runs c locals [.call (p.layout.importIndex varModule name)] stack
      (.doing (.readVar name) ((outside host s u).readVar fuel name))
      fun v locals' stack' => locals' = locals ∧ stack' = v :: stack :=
  import_runs_one hv hc hin [] rfl

theorem foreignCall_runs (hv : Live p u fns depth new s s' inst) (hc : Within s c) {name : String}
    {args : List Int64} (hin : .func envModule name args.length 1 ∈ p.layout.imports) :
    (scene host p s s' fuel).Runs c locals [.call (p.layout.importIndex envModule name)]
      (args.reverse ++ below)
      (.doing (.call name args) ((outside host s u).call fuel name args))
      fun v locals' stack' => locals' = locals ∧ stack' = v :: below :=
  import_runs_one hv hc hin args rfl

theorem bindVar_runs (hv : Live p u fns depth new s s' inst) (hc : Within s c) {name : String}
    (hin : .func varDefModule name 1 0 ∈ p.layout.imports) (v : Int64) :
    (scene host p s s' fuel).Runs c locals [.call (p.layout.importIndex varDefModule name)]
      (v :: stack)
      (.doing (.bindVar name v) ((outside host s u).bindVar fuel name v))
      fun _ locals' stack' => locals' = locals ∧ stack' = stack := by
  show (scene host p s s' fuel).Runs c locals _ ([v].reverse ++ stack) (.doing _ fun state =>
    (foreign host s varDefModule name fuel [v] state).map fun r => (r.1, r.2.map fun _ => ())) _
  rw [Eval.doing_map]
  refine (import_runs hv hc hin [v] rfl).map ?_
  rintro values locals' stack' ⟨hlen, rfl, rfl⟩
  rw [List.length_eq_zero_iff.1 hlen]
  exact ⟨rfl, rfl⟩

/-- The index of a data symbol has its name. -/
theorem globalName?_machine (hv : Live p u fns depth new s s' inst) {name : String}
    (hin : name ∈ p.layout.globals.map (·.1) ∨ .global name ∈ p.layout.imports) :
    p.machine.globalName? (p.layout.globalIndex name) = some name := by
  unfold Machine.Module.globalName?
  rcases hv.built.holds hv.size hin with himport | ⟨k, init, hk, -, -, hexport⟩
  · rw [himport]
  · rw [List.getElem?_eq_none (by omega)]
    have hspec := Layout.globalIndex_spec hin
    rw [Program.importedSymbols_machine hv.size] at hk
    have hcount := Program.counts_le (Program.length_types_le hv.size)
    have hsize := hv.size
    cases hfind : p.machine.exports.find? fun e =>
        e.kind == Binary.kindGlobal && e.index.toNat == p.layout.globalIndex name with
    | none =>
      have hno := List.find?_eq_none.1 hfind _ hexport
      have hlt := (List.getElem?_eq_some_iff.1 hspec).1
      rw [UInt32.toNat_ofNat', Nat.mod_eq_of_lt (by omega)] at hno
      simp at hno
    | some e =>
      -- an export of the index is that of the same symbol
      have he := List.find?_some hfind
      simp only [Bool.and_eq_true, beq_iff_eq] at he
      obtain ⟨hkind, hindex⟩ := he
      rcases Program.mem_exports.1 (List.mem_of_find?_eq_some hfind) with
        ⟨i, f, -, -, rfl⟩ | ⟨i, g, hg, rfl⟩ | rfl
      · exact absurd (show Binary.kindFunc = Binary.kindGlobal from hkind) (by decide)
      · have hlt := (List.getElem?_eq_some_iff.1 hg).1
        have hlen : p.layout.globalNames.length =
            p.layout.globalImports.length + p.layout.globals.length := by
          simp [Layout.globalNames]
        rw [UInt32.toNat_ofNat', Nat.mod_eq_of_lt (by omega)] at hindex
        rw [← hindex, Layout.globalNames, List.getElem?_append_right (Nat.le_add_right _ _),
          Nat.add_sub_cancel_left, List.getElem?_map, hg] at hspec
        exact hspec
      · exact absurd (show Binary.kindFunc = Binary.kindGlobal from hkind) (by decide)

theorem global?_scene (hv : Live p u fns depth new s s' inst) (hc : Within s c) {name : String}
    (hin : name ∈ p.layout.globals.map (·.1) ∨ .global name ∈ p.layout.imports) :
    (scene host p s s' fuel).global? c (p.layout.globalIndex name) =
      some (symbolAddress s u name) := by
  simp only [Scene.global?, scene, hc.inst, hv.hosted.added, Option.bind_some,
    (hv.hosted.globals name hin).1]

end

/-! ## Operands -/

section

variable {e : Scene η σ} {c : Config η σ} {o : Outside (Store η × σ)} {fuel : Nat}
  {calls : Meaning.Calls (Store η × σ)} {slots : Slots} {env : Meaning.Locals} {next total : Nat}
  {locals stack : List Int64}

/-- The code of an operand, wherever the operands before it have left the locals. -/
def OperandRuns (e : Scene η σ) (c : Config η σ) (o : Outside (Store η × σ)) (fuel : Nat)
    (calls : Meaning.Calls (Store η × σ)) (slots : Slots) (env : Meaning.Locals)
    (next total : Nat) (code : List Instr) (n : Node) : Prop :=
  ∀ locals stack, locals.length = total → Agrees slots env locals →
    e.Runs c locals code stack (Meaning.value o fuel calls env n) (Leaves next locals stack)

/-- Operands one after the other. -/
theorem flatten_runs {codes : List (List Instr)} {ns : List Node} (hb : Below slots next)
    (h : List.Forall₂ (OperandRuns e c o fuel calls slots env next total) codes ns)
    (hl : locals.length = total) (ha : Agrees slots env locals) :
    e.Runs c locals codes.flatten stack (Meaning.values o fuel calls env ns)
      fun vs locals' stack' => vs.length = ns.length ∧ Keeps next locals locals' ∧
        stack' = vs.reverse ++ stack := by
  induction h generalizing locals stack with
  | nil =>
    rw [Meaning.values]
    exact .pure ⟨rfl, .refl _ _, rfl⟩
  | cons hn _ ih =>
    rw [Meaning.values, List.flatten_cons]
    refine (hn locals stack hl ha).bind ?_
    rintro v locals₁ stack₁ ⟨hk, rfl⟩
    refine (ih (hk.length.trans hl) (ha.keeps hb hk)).map ?_
    rintro vs locals₂ stack₂ ⟨hlen, hk', rfl⟩
    exact ⟨by simp [hlen], hk.trans hk' (Nat.le_refl _), by simp⟩

/-- Operands with an operation between each and the next. -/
theorem chain_runs {op : Machine.Bin} {f : Int64 → Int64 → Int64}
    (hop : ∀ a b, Machine.bin64 op a b = .ok (f a b)) {codes : List (List Instr)} {ns : List Node}
    (hb : Below slots next)
    (h : List.Forall₂ (OperandRuns e c o fuel calls slots env next total) codes ns)
    (hl : locals.length = total) (ha : Agrees slots env locals) (acc : Int64) :
    e.Runs c locals (codes.flatMap (· ++ [.bin .w64 op])) (acc :: stack)
      (Meaning.values o fuel calls env ns >>= fun vs => pure (vs.foldl f acc))
      (Leaves next locals stack) := by
  induction h generalizing locals acc with
  | nil =>
    rw [Meaning.values, pure_bind]
    exact .pure ⟨.refl _ _, rfl⟩
  | @cons code n codes ns hn _ ih =>
    rw [Meaning.values, List.flatMap_cons, List.append_assoc]
    simp only [bind_assoc, pure_bind, List.foldl_cons]
    refine (hn locals (acc :: stack) hl ha).bind ?_
    rintro v locals₁ stack₁ ⟨hk, rfl⟩
    -- the operation never fails, so it does not matter when it is done
    have hrest := ih (hk.length.trans hl) (ha.keeps hb hk) (f acc v)
    exact .consBin (hop acc v) (hrest.imp fun w locals₂ stack₂ hw =>
      ⟨hk.trans hw.1 (Nat.le_refl _), hw.2⟩)

end

/-! ## Primitives -/

/-- The names of the relations. -/
theorem relation?_cases {name : String} {op : Machine.Rel} (h : relation? name = some op) :
    (name, op) ∈ [("<", .ltS), (">", .gtS), ("<=", .leS), (">=", .geS), ("=", .eq), ("not=", .ne)] := by
  unfold relation? at h
  split at h <;> cases h <;> simp

/-- The names of the arithmetic operations. -/
theorem arithmetic?_cases {name : String} {op : Machine.Bin} (h : arithmetic? name = some op) :
    (name, op) ∈ [("+", .add), ("-", .sub), ("*", .mul), ("quot", .divS), ("rem", .remS)] := by
  unfold arithmetic? at h
  split at h <;> cases h <;> simp

theorem primitive_relation {name : String} {op : Machine.Rel} (h : relation? name = some op)
    (a b : Int64) :
    Meaning.primitive name [a, b] = .ok (Machine.ofBool (Machine.rel64 op a b)) := by
  have hcases := relation?_cases h
  simp only [List.mem_cons, Prod.mk.injEq, List.not_mem_nil, or_false] at hcases
  rcases hcases with ⟨rfl, rfl⟩ | ⟨rfl, rfl⟩ | ⟨rfl, rfl⟩ | ⟨rfl, rfl⟩ | ⟨rfl, rfl⟩ | ⟨rfl, rfl⟩ <;>
    simp [Machine.rel64, Machine.ofBool]

theorem primitive_not (a : Int64) :
    Meaning.primitive "not" [a] = .ok (Machine.ofBool (a == 0)) := by
  simp [Machine.ofBool]

theorem primitive_nil {name : String} {v : Int64}
    (h : arithmetic? name = some .add ∧ v = 0 ∨ arithmetic? name = some .mul ∧ v = 1) :
    Meaning.primitive name [] = .ok v := by
  rcases h with ⟨h, rfl⟩ | ⟨h, rfl⟩
  · obtain rfl : name = "+" := by simpa using arithmetic?_cases h
    rfl
  · obtain rfl : name = "*" := by simpa using arithmetic?_cases h
    rfl

theorem primitive_negate {name : String} (h : arithmetic? name = some .sub) (a : Int64) :
    Meaning.primitive name [a] = Machine.bin64 .sub 0 a := by
  obtain rfl : name = "-" := by simpa using arithmetic?_cases h
  simp [Machine.bin64]

/-- The operation between operands of a primitive that has any number of them. -/
theorem primitive_chain {name : String} {op : Machine.Bin} (h : arithmetic? name = some op)
    (hop : op ∈ [.add, .sub, .mul]) :
    ∃ f, (∀ a b, Machine.bin64 op a b = .ok (f a b)) ∧
      ∀ a vs, (op = .sub → vs ≠ []) → Meaning.primitive name (a :: vs) = .ok (vs.foldl f a) := by
  have hcases := arithmetic?_cases h
  simp only [List.mem_cons, Prod.mk.injEq, List.not_mem_nil, or_false] at hcases
  rcases hcases with ⟨rfl, rfl⟩ | ⟨rfl, rfl⟩ | ⟨rfl, rfl⟩ | ⟨rfl, rfl⟩ | ⟨rfl, rfl⟩
  · exact ⟨(· + ·), fun _ _ => rfl, fun a vs _ => by simp⟩
  · refine ⟨(· - ·), fun _ _ => rfl, fun a vs hvs => ?_⟩
    cases vs with
    | nil => exact absurd rfl (hvs rfl)
    | cons b vs => rfl
  · exact ⟨(· * ·), fun _ _ => rfl, fun a vs _ => by simp⟩
  · simp at hop
  · simp at hop

/-- Division takes two operands and can fail. -/
theorem primitive_division {name : String} {op : Machine.Bin} (h : arithmetic? name = some op)
    (hop : op ∉ [.add, .sub, .mul]) {bounds : Nat × Option Nat}
    (hb : primArity? name = some bounds) :
    bounds = (2, some 2) ∧ ∀ a b, Meaning.primitive name [a, b] = Machine.bin64 op a b := by
  have hcases := arithmetic?_cases h
  simp only [List.mem_cons, Prod.mk.injEq, List.not_mem_nil, or_false] at hcases
  rcases hcases with ⟨rfl, rfl⟩ | ⟨rfl, rfl⟩ | ⟨rfl, rfl⟩ | ⟨rfl, rfl⟩ | ⟨rfl, rfl⟩
  · simp at hop
  · simp at hop
  · simp at hop
  · cases hb
    refine ⟨rfl, fun a b => ?_⟩
    simp [Machine.bin64]
  · cases hb
    exact ⟨rfl, fun a b => rfl⟩

section

variable {e : Scene η σ} {c : Config η σ} {o : Outside (Store η × σ)} {fuel : Nat}
  {calls : Meaning.Calls (Store η × σ)} {slots : Slots} {env : Meaning.Locals} {next total : Nat}
  {locals stack : List Int64}

/-- The operands of a primitive, and then instructions that work on their values and on what was
below them. -/
theorem operands_runs {codes : List (List Instr)} {ns : List Node} {more : List Instr}
    {f : List Int64 → Eval (Store η × σ) Int64} {below : List Int64} (hb : Below slots next)
    (h : List.Forall₂ (OperandRuns e c o fuel calls slots env next total) codes ns)
    (hl : locals.length = total) (ha : Agrees slots env locals)
    (hf : ∀ vs locals', vs.length = ns.length →
      e.Runs c locals' more (vs.reverse ++ below) (f vs)
        fun v locals'' stack' => locals'' = locals' ∧ stack' = v :: stack) :
    e.Runs c locals (codes.flatten ++ more) below (Meaning.values o fuel calls env ns >>= f)
      (Leaves next locals stack) := by
  refine (flatten_runs hb h hl ha).bind ?_
  rintro vs locals₁ stack₁ ⟨hlen, hk, rfl⟩
  refine (hf vs locals₁ hlen).imp ?_
  rintro v locals₂ stack₂ ⟨rfl, rfl⟩
  exact ⟨hk, rfl⟩

/-- The code of a primitive does what the primitive does. -/
theorem prim_runs {op : String} {args : List Node} {shape : PrimShape} {codes : List (List Instr)}
    (hs : shape.Suits op args.length) (hfit : PrimFits (.prim op args)) (hb : Below slots next)
    (h : List.Forall₂ (OperandRuns e c o fuel calls slots env next total) codes
      (args.take (shape.operands args.length)))
    (hl : locals.length = total) (ha : Agrees slots env locals) :
    e.Runs c locals (shape.code codes) stack
      (Meaning.values o fuel calls env args >>= fun vs => .lift (Meaning.primitive op vs))
      (Leaves next locals stack) := by
  obtain ⟨bounds, hbounds, hcount⟩ := hfit
  cases shape with
  | isZero =>
    obtain ⟨rfl, -⟩ := hs
    cases hbounds
    have hone : args.length = 1 := by
      simp [Analysis.arityFits] at hcount
      omega
    rw [PrimShape.operands, List.take_of_length_le (by omega)] at h
    refine operands_runs hb h hl ha fun vs locals' hlen => ?_
    obtain ⟨v, rfl⟩ := List.length_eq_one_iff.1 (hlen.trans hone)
    rw [primitive_not]
    exact .cons (fun _ _ => rfl) (fun _ _ => rfl)
      (.one (fun _ _ => rfl) (fun _ _ => rfl) ⟨rfl, rfl⟩)
  | relation rel =>
    obtain ⟨-, hrel, htwo⟩ := hs
    simp only [PrimShape.operands, List.take_length] at h
    refine operands_runs hb h hl ha fun vs locals' hlen => ?_
    obtain ⟨a, b, rfl⟩ := List.length_eq_two.1 (hlen.trans htwo)
    rw [primitive_relation hrel]
    exact .cons (fun _ _ => rfl) (fun _ _ => rfl)
      (.one (fun _ _ => rfl) (fun _ _ => rfl) ⟨rfl, rfl⟩)
  | constant v =>
    obtain ⟨hzero, hname⟩ := hs
    obtain rfl := List.length_eq_zero_iff.1 hzero
    rw [Meaning.values, pure_bind, primitive_nil hname]
    exact .one (fun _ _ => rfl) (fun _ _ => rfl) ⟨.refl _ _, rfl⟩
  | negate =>
    obtain ⟨hname, hone⟩ := hs
    simp only [PrimShape.operands, List.take_length] at h
    refine .const 0 ?_
    refine operands_runs hb h hl ha fun vs locals' hlen => ?_
    obtain ⟨a, rfl⟩ := List.length_eq_one_iff.1 (hlen.trans hone)
    rw [primitive_negate hname]
    exact .bin
  | chain bin =>
    obtain ⟨hname, hpos, hmore⟩ := hs
    simp only [PrimShape.operands, List.take_length] at h
    cases h with
    | nil => simp at hpos
    | @cons code n codes ns hn hns =>
      by_cases hbin : bin ∈ [.add, .sub, .mul]
      · obtain ⟨f, hop, hprim⟩ := primitive_chain hname hbin
        rw [Meaning.values]
        simp only [bind_assoc, pure_bind]
        refine (hn locals stack hl ha).bind ?_
        rintro v locals₁ stack₁ ⟨hk, rfl⟩
        have hfold : ∀ vs : List Int64, vs.length = ns.length →
            Eval.lift (Meaning.primitive op (v :: vs)) =
              (pure (vs.foldl f v) : Eval (Store η × σ) Int64) := by
          intro vs hvs
          rw [hprim]
          · rfl
          · rintro rfl rfl
            have htwo := hmore (by simp)
            simp at hvs htwo
            omega
        rw [Meaning.values_bind_congr hfold]
        refine (chain_runs hop hb hns (hk.length.trans hl) (ha.keeps hb hk) v).imp ?_
        rintro w locals₂ stack₂ ⟨hk', rfl⟩
        exact ⟨hk.trans hk' (Nat.le_refl _), rfl⟩
      · obtain ⟨rfl, hprim⟩ := primitive_division hname hbin hbounds
        have htwo : ns.length = 1 := by
          simp [Analysis.arityFits] at hcount
          omega
        obtain ⟨m, rfl⟩ := List.length_eq_one_iff.1 htwo
        have hall : List.Forall₂ (OperandRuns e c o fuel calls slots env next total)
            (code :: codes) [n, m] := .cons hn hns
        obtain ⟨code', rfl⟩ : ∃ code', codes = [code'] :=
          List.length_eq_one_iff.1 (hns.length_eq.trans rfl)
        have hcode : (PrimShape.chain bin).code [code, code'] =
            [code, code'].flatten ++ [.bin .w64 bin] := by simp [PrimShape.code]
        rw [hcode]
        refine operands_runs hb hall hl ha fun vs locals' hlen => ?_
        obtain ⟨a, b, rfl⟩ := List.length_eq_two.1 hlen
        rw [hprim]
        exact .bin

end

/-! ## Expressions -/

section

variable {p : Program} {u : CompUnit} {fns : List Defn} {depth : Nat} {new : List Reached}
  {s s' : Store η} {inst : Machine.Instance} {host : HostCall η σ} {fuel : Nat}
  {calls : Meaning.Calls (Store η × σ)}

/-- The code of every call does what evaluation says of it. -/
def CallsRun (host : HostCall η σ) (p : Program) (u : CompUnit) (new : List Reached)
    (s s' : Store η) (fuel : Nat) (calls : Meaning.Calls (Store η × σ)) : Prop :=
  ∀ {c : Config η σ} {ns name : String} {nodes : List Node} {args locals below : List Int64}
    {index : Nat}, Within s c → .invoke ns name nodes ∈ reachedNodes u new →
    args.length = nodes.length →
    (p.layout.funcIndex? ns name = some (index, nodes.length) ∨
      p.layout.funcIndex? ns name = none ∧
        index = p.layout.importIndex envModule (Symbol.qualify ns name)) →
    (scene host p s s' fuel).Runs c locals [.call index] (args.reverse ++ below)
      (calls ns name args) fun v locals' stack' => locals' = locals ∧ stack' = v :: below

mutual

/-- The code of an expression runs as the expression is evaluated. -/
theorem expr_runs (hv : Live p u fns depth new s s' inst)
    (hcalls : CallsRun host p u new s s' fuel calls) : ∀ {n : Node} {c : Config η σ} {d : Nat}
    {slots : Slots} {next k : Nat} {code : List Instr} {env : Meaning.Locals}
    {locals stack : List Int64}, expr ⟨p.layout, depth⟩ d slots next n = .ok (code, k) →
      Within s c → n.flatten ⊆ reachedNodes u new → Below slots next → Agrees slots env locals →
      k ≤ locals.length →
      (scene host p s s' fuel).Runs c locals code stack
        (Meaning.value (outside host s u) fuel calls env n) (Leaves next locals stack)
  | .absent, _, _, _, _, _, _, _, _, _, h, _, _, _, _, _
  | .const _, _, _, _, _, _, _, _, _, _, h, _, _, _, _, _
  | .defn _ _ _ _, _, _, _, _, _, _, _, _, _, h, _, _, _, _, _
  | .defGlobal _ _, _, _, _, _, _, _, _, _, _, h, _, _, _, _, _ => by
    obtain ⟨rfl, rfl⟩ := expr_isCode h
    rw [Meaning.value]
    exact .const _ (.pure ⟨.refl _ _, rfl⟩)
  | .localVar name, _, _, _, _, _, _, _, _, _, h, _, _, _, ha, _ => by
    obtain ⟨i, hi, rfl, rfl⟩ := expr_isCode h
    rw [Meaning.value, ha.lookup hi]
    exact .localGet i (.pure ⟨.refl _ _, rfl⟩)
  | .varRef ns name, _, _, _, _, _, _, _, _, _, h, hc, hn, _, _, _ => by
    obtain ⟨rfl, rfl⟩ := expr_isCode h
    have hin := hv.built.layout.places (.varRef ns name) (hn (by simp [Node.flatten]))
    rw [Meaning.value]
    exact (varRef_runs hv hc hin).imp fun _ _ _ => leaves_of_eq
  | .bindVar ns name init, _, _, _, _, _, _, _, _, _, h, hc, hn, hb, ha, hk => by
    obtain ⟨first, j, hi, rfl, rfl⟩ := expr_isCode h
    have hj := (expr_locals hi).1
    have hin := hv.built.layout.places (.bindVar ns name init) (hn (by simp [Node.flatten]))
    rw [Meaning.value]
    refine (expr_runs hv hcalls hi hc (fun m hm => hn (by simp [Node.flatten, hm])) hb ha
      (by omega)).bind ?_
    rintro v locals₁ stack₁ ⟨hk₁, rfl⟩
    -- the value waits in a local while the binder takes it off the stack
    have hlen := hk₁.length
    refine .localTee j ((bindVar_runs hv hc hin v).bind ?_)
    rintro _ locals₂ stack₂ ⟨rfl, rfl⟩
    refine .localGet j (.pure ⟨hk₁.trans (keeps_set _ _ hj) (Nat.le_refl _), ?_⟩)
    simp [List.getD_eq_getElem?_getD, show j < locals₁.length by omega]
  | .invoke ns name args, _, _, _, _, _, _, env, _, _, h, hc, hn, hb, ha, hk => by
    obtain ⟨codes, index, hargs, rfl, hindex⟩ := expr_isCode h
    have hin : .invoke ns name args ∈ reachedNodes u new := hn (by simp [Node.flatten])
    have hops := operandCodes_runs hv hcalls env hargs hc
      (fun m hm => hn (by simp [Node.flatten, hm])) hb hk
    rw [List.take_length] at hops
    rw [Meaning.value]
    exact operands_runs hb hops rfl ha fun vs locals' hlen => hcalls hc hin hlen hindex
  | .foreignCall name args, _, _, _, _, _, _, env, _, _, h, hc, hn, hb, ha, hk => by
    obtain ⟨codes, hargs, rfl⟩ := expr_isCode h
    have hin := hv.built.layout.places (.foreignCall name args) (hn (by simp [Node.flatten]))
    have hops := operandCodes_runs hv hcalls env hargs hc
      (fun m hm => hn (by simp [Node.flatten, hm])) hb hk
    rw [List.take_length] at hops
    rw [Meaning.value]
    refine operands_runs hb hops rfl ha fun vs locals' hlen => ?_
    rw [Layout.Places, ← hlen] at hin
    exact foreignCall_runs hv hc hin
  | .foreignGet name, _, _, _, _, _, _, _, _, _, h, hc, hn, _, _, _ => by
    obtain ⟨rfl, rfl⟩ := expr_isCode h
    have hin := hv.built.layout.places (.foreignGet name) (hn (by simp [Node.flatten]))
    rw [Meaning.value]
    exact (Scene.Runs.globalGet (global?_scene hv hc hin)).imp fun _ _ _ => leaves_of_eq
  | .foreignSet name value, _, _, _, _, _, _, _, _, _, h, hc, hn, hb, ha, hk => by
    obtain ⟨first, hval, rfl⟩ := expr_isCode h
    have hin := hv.built.layout.places (.foreignSet name value) (hn (by simp [Node.flatten]))
    rw [Meaning.value]
    refine (expr_runs hv hcalls hval hc (fun m hm => hn (by simp [Node.flatten, hm])) hb ha
      hk).bind ?_
    rintro v locals₁ stack₁ ⟨hk₁, rfl⟩
    refine (Scene.Runs.globalSet (global?_scene hv hc hin) (hv.hosted.globals name hin).2
      hc.active (globalName?_machine hv hin)).imp ?_
    rintro w locals₂ stack₂ ⟨rfl, rfl⟩
    exact ⟨hk₁, rfl⟩
  | .prim op args, _, _, _, _, _, _, env, _, _, h, hc, hn, hb, ha, hk => by
    obtain ⟨shape, codes, hs, hargs, rfl⟩ := expr_isCode h
    have hops := operandCodes_runs hv hcalls env hargs hc
      (fun m hm => hn (by simp [Node.flatten, hm])) hb hk
    rw [Meaning.value]
    exact prim_runs (PrimShape.of_suits hs) (hv.prims _ (hn (by simp [Node.flatten]))) hb hops
      rfl ha
  | .ifElse cond thenB elseB, _, _, _, _, _, _, _, _, _, h, hc, hn, hb, ha, hk => by
    obtain ⟨condCode, i, thenCode, j, elseCode, hcond, hthen, helse, rfl⟩ := expr_isCode h
    have h₁ := (expr_locals hcond).1
    have h₂ := (expr_locals hthen).1
    have h₃ := (expr_locals helse).1
    rw [Meaning.value]
    refine (expr_runs hv hcalls hcond hc (fun m hm => hn (by simp [Node.flatten, hm])) hb ha
      (by omega)).bind ?_
    rintro v locals₁ stack₁ ⟨hk₁, rfl⟩
    have hlen := hk₁.length
    have ha₁ := ha.keeps hb hk₁
    refine .const 0 (.cons (fun _ _ => rfl) (fun _ _ => rfl) (.ifElse fun label => ?_))
    -- only the branch that is taken runs
    by_cases hzero : v = 0
    · have hval : Machine.compare .w64 .ne v 0 = 0 := by
        simp [Machine.compare, Machine.rel64, Machine.ofBool, hzero]
      rw [if_pos hval, if_neg (by simp [hzero])]
      refine (expr_runs hv hcalls helse (hc.labelled label)
        (fun m hm => hn (by simp [Node.flatten, hm])) (hb.mono (by omega)) ha₁ (by omega)).imp ?_
      rintro w locals₂ stack₂ ⟨hk₂, rfl⟩
      exact ⟨hk₁.trans hk₂ (by omega), rfl⟩
    · have hval : ¬Machine.compare .w64 .ne v 0 = 0 := by
        simp [Machine.compare, Machine.rel64, Machine.ofBool, hzero]
      rw [if_neg hval, if_pos hzero]
      refine (expr_runs hv hcalls hthen (hc.labelled label)
        (fun m hm => hn (by simp [Node.flatten, hm])) (hb.mono h₁) ha₁ (by omega)).imp ?_
      rintro w locals₂ stack₂ ⟨hk₂, rfl⟩
      exact ⟨hk₁.trans hk₂ h₁, rfl⟩
  | .letIn bindings body, _, _, _, _, _, _, _, _, _, h, hc, hn, hb, ha, hk => by
    obtain ⟨first, inner, j, bodyCode, hbs, hbody, rfl⟩ := expr_isCode h
    have h₁ := (expr_locals hbody).1
    rw [Meaning.value]
    refine (bindingCode_runs hv hcalls hbs hc (fun m hm => hn (by simp [Node.flatten, hm])) hb ha
      (by omega)).bind ?_
    rintro env₁ locals₁ stack₁ ⟨hk₁, hinner, ha₁, rfl⟩
    have hlen := hk₁.length
    refine (expr_runs hv hcalls hbody hc (fun m hm => hn (by simp [Node.flatten, hm])) hinner ha₁
      (by omega)).imp ?_
    rintro v locals₂ stack₂ ⟨hk₂, rfl⟩
    exact ⟨hk₁.trans hk₂ (bindingCode_locals hbs).1, rfl⟩
  | .seq forms, _, _, _, _, _, _, _, _, _, h, hc, hn, hb, ha, hk => by
    rw [Meaning.value]
    exact sequence_runs hv hcalls (expr_isCode h) hc (fun m hm => hn (by simp [Node.flatten, hm]))
      hb ha hk

/-- The code of a sequence runs as the sequence is evaluated. -/
theorem sequence_runs (hv : Live p u fns depth new s s' inst)
    (hcalls : CallsRun host p u new s s' fuel calls) : ∀ {ns : List Node} {c : Config η σ}
    {d : Nat} {slots : Slots} {next k : Nat} {code : List Instr} {env : Meaning.Locals}
    {locals stack : List Int64}, sequence ⟨p.layout, depth⟩ d slots next ns = .ok (code, k) →
      Within s c → Node.flattenAll ns ⊆ reachedNodes u new → Below slots next →
      Agrees slots env locals → k ≤ locals.length →
      (scene host p s s' fuel).Runs c locals code stack
        (Meaning.sequence (outside host s u) fuel calls env ns) (Leaves next locals stack)
  | [], _, _, _, _, _, _, _, _, _, h, _, _, _, _, _ => by
    rw [sequence] at h
    cases h
    rw [Meaning.sequence]
    exact .const _ (.pure ⟨.refl _ _, rfl⟩)
  | [n], _, _, _, _, _, _, _, _, _, h, hc, hn, hb, ha, hk => by
    rw [sequence] at h
    rw [Meaning.sequence]
    exact expr_runs hv hcalls h hc (fun m hm => hn (by simp [Node.flattenAll, hm])) hb ha hk
  | n :: m :: ns, _, _, _, _, _, _, _, _, _, h, hc, hn, hb, ha, hk => by
    obtain ⟨first, j, more, hfirst, hmore, rfl⟩ := sequence_cons h
    have h₁ := (expr_locals hfirst).1
    have h₂ := (sequence_locals hmore).1
    rw [Meaning.sequence]
    · refine (expr_runs hv hcalls hfirst hc (fun m hm => hn (by simp [Node.flattenAll, hm])) hb ha
        (by omega)).bind ?_
      rintro v locals₁ stack₁ ⟨hk₁, rfl⟩
      have hlen := hk₁.length
      refine .drop ((sequence_runs hv hcalls hmore hc
        (fun m hm => hn (by rw [Node.flattenAll]; simp [hm])) (hb.mono h₁) (ha.keeps hb hk₁)
        (by omega)).imp ?_)
      rintro w locals₂ stack₂ ⟨hk₂, rfl⟩
      exact ⟨hk₁.trans hk₂ h₁, rfl⟩
    · simp

/-- The code of bindings puts their values into the slots of their names. -/
theorem bindingCode_runs (hv : Live p u fns depth new s s' inst)
    (hcalls : CallsRun host p u new s s' fuel calls) : ∀ {bs : List (String × Node)}
    {c : Config η σ} {d : Nat} {slots inner : Slots} {next k : Nat} {code : List Instr}
    {env : Meaning.Locals} {locals stack : List Int64},
      bindingCode ⟨p.layout, depth⟩ d slots next bs = .ok (code, inner, k) →
      Within s c → Node.flattenBindings bs ⊆ reachedNodes u new → Below slots next →
      Agrees slots env locals → k ≤ locals.length →
      (scene host p s s' fuel).Runs c locals code stack
        (Meaning.bind (outside host s u) fuel calls env bs)
        fun env' locals' stack' => Keeps next locals locals' ∧ Below inner k ∧
          Agrees inner env' locals' ∧ stack' = stack
  | [], _, _, _, _, _, _, _, _, _, _, h, _, _, hb, ha, _ => by
    rw [bindingCode] at h
    cases h
    rw [Meaning.bind]
    exact .pure ⟨.refl _ _, hb, ha, rfl⟩
  | (name, value) :: bs, _, _, _, _, _, _, _, _, _, _, h, hc, hn, hb, ha, hk => by
    obtain ⟨first, j, more, hfirst, hmore, rfl⟩ := bindingCode_cons h
    have h₁ := (expr_locals hfirst).1
    have h₂ := (bindingCode_locals hmore).1
    rw [Meaning.bind]
    refine (expr_runs hv hcalls hfirst hc (fun m hm => hn (by simp [Node.flattenBindings, hm])) hb
      ha (by omega)).bind ?_
    rintro v locals₁ stack₁ ⟨hk₁, rfl⟩
    have hlen := hk₁.length
    have hset := keeps_set locals₁ v h₁
    refine .localSet j ((bindingCode_runs hv hcalls hmore hc
      (fun m hm => hn (by simp [Node.flattenBindings, hm])) ((hb.mono h₁).cons name)
      ((ha.keeps hb hk₁).bind (hb.mono h₁) (by omega) name v)
      (by rw [List.length_set]; omega)).imp ?_)
    rintro env' locals₂ stack₂ ⟨hk₂, hinner, ha₂, rfl⟩
    exact ⟨(hk₁.trans hset (Nat.le_refl _)).trans hk₂ (by omega), hinner, ha₂, rfl⟩

/-- The code of each operand runs as the operand is evaluated. -/
theorem operandCodes_runs (hv : Live p u fns depth new s s' inst)
    (hcalls : CallsRun host p u new s s' fuel calls) (env : Meaning.Locals) : ∀ {ns : List Node}
    {c : Config η σ} {count d : Nat} {slots : Slots} {next k total : Nat}
    {codes : List (List Instr)},
      operandCodes ⟨p.layout, depth⟩ d slots next count ns = .ok (codes, k) →
      Within s c → Node.flattenAll ns ⊆ reachedNodes u new → Below slots next → k ≤ total →
      List.Forall₂ (OperandRuns (scene host p s s' fuel) c (outside host s u) fuel calls slots env
        next total) codes (ns.take count)
  | _, _, 0, _, _, _, _, _, _, h, _, _, _, _ => by
    rw [operandCodes] at h
    cases h
    rw [List.take_zero]
    exact .nil
  | [], _, count + 1, _, _, _, _, _, _, h, _, _, _, _ => by
    rw [operandCodes] at h
    · cases h
      exact .nil
    · simp
  | n :: ns, _, count + 1, _, _, _, _, _, _, h, hc, hn, hb, hk => by
    obtain ⟨code, j, more, hfirst, hmore, rfl⟩ := operandCodes_cons h
    have h₁ := (expr_locals hfirst).1
    have h₂ := (operandCodes_locals hmore).1
    rw [List.take_succ_cons]
    refine .cons ?_ ?_
    · intro locals stack hl ha
      exact expr_runs hv hcalls hfirst hc (fun m hm => hn (by simp [Node.flattenAll, hm])) hb ha
        (by omega)
    · refine (operandCodes_runs hv hcalls env hmore hc
        (fun m hm => hn (by simp [Node.flattenAll, hm])) (hb.mono h₁) hk).imp ?_
      intro code' n' hrun locals stack hl ha
      refine (hrun locals stack hl ha).imp ?_
      rintro v locals' stack' ⟨hk', rfl⟩
      exact ⟨⟨hk'.length, fun i hi => hk'.same i (by omega)⟩, rfl⟩

end

/-! ## Calls -/

/-- A call of what is neither in the unit nor in the preamble. -/
theorem calls_run_outside (hv : Live p u fns depth new s s' inst) {c : Config η σ}
    {ns name : String} {nodes : List Node} {args locals below : List Int64} {index : Nat}
    (hc : Within s c) (hin : .invoke ns name nodes ∈ reachedNodes u new)
    (hargs : args.length = nodes.length)
    (hindex : p.layout.funcIndex? ns name = some (index, nodes.length) ∨
      p.layout.funcIndex? ns name = none ∧
        index = p.layout.importIndex envModule (Symbol.qualify ns name))
    (hd : callee? u fns (ns, name) = none) :
    (scene host p s s' fuel).Runs c locals [.call index] (args.reverse ++ below)
      (Meaning.call (outside host s u) u fns fuel ns name args)
      fun v locals' stack' => locals' = locals ∧ stack' = v :: below := by
  have hout := hv.built.layout.callee?_eq_none hd
  rw [Meaning.call_outside hd]
  rcases hindex with hindex | ⟨-, rfl⟩
  · obtain ⟨i, f, hk, -⟩ := Layout.funcIndex?_eq_some hindex
    exact absurd (List.mem_of_getElem? hk) hout
  · have himport := (hv.built.layout.places _ hin).resolve_left hout
    rw [← hargs] at himport
    exact foreignCall_runs hv hc himport

/-- The code of every call does what evaluation says of it: a function of the unit or the preamble
runs its body, another one is called outside. The induction is on the fuel, of which each call of
the first kind takes one. -/
theorem calls_run (hv : Live p u fns depth new s s' inst) (fuel : Nat) :
    CallsRun host p u new s s' fuel (Meaning.call (outside host s u) u fns fuel) := by
  induction fuel with
  | zero =>
    intro c ns name nodes args locals below index hc hin hargs hindex
    cases hd : callee? u fns (ns, name) with
    | none => exact calls_run_outside hv hc hin hargs hindex hd
    | some d =>
      rw [Meaning.call_zero hd]
      intro state rest _
      exact ⟨0, [], _, Nat.le_refl 0, .refl _⟩
  | succ fuel ih =>
    intro c ns name nodes args locals below index hc hin hargs hindex
    cases hd : callee? u fns (ns, name) with
    | none => exact calls_run_outside hv hc hin hargs hindex hd
    | some d =>
      have hcall : (ns, name) ∈ callsOf (reachedNodes u new) := mem_callsOf.2 ⟨nodes, hin⟩
      obtain ⟨i, f, hf, rfl, hi⟩ := hv.built.layout.callee?_eq_some hcall hd
      obtain ⟨rfl, hparams⟩ : p.layout.funcImports.length + i = index ∧
          f.defn.params.length = nodes.length := by
        rcases hindex with hindex | ⟨hindex, -⟩
        · rw [show p.layout.funcIndex? ns name = _ from hi] at hindex
          simpa using hindex
        · rw [show p.layout.funcIndex? ns name = _ from hi] at hindex
          cases hindex
      obtain ⟨code, hcode, hfun⟩ := hv.built.code_of_func hf
      obtain ⟨k, hbody, hcparams, hclocals⟩ := functionCode_eq_ok hfun
      have hk := (expr_locals hbody).1
      obtain ⟨haddr, idx, hcallee⟩ := hv.hosted.funcs i code hcode
      rw [Meaning.call_succ hd]
      refine Scene.Runs.call rfl ?_ hcallee ?_ rfl ?_ hc.limit ?_
      · simp only [Scene.function?, scene, hc.inst, hv.hosted.added, Option.bind_some, haddr]
      · rw [FuncType.ofCounts, List.length_replicate, hcparams, hargs, hparams]
      · have himports : p.machine.importedFunctions.length = p.layout.funcImports.length := by
          rw [Program.importedFunctions_machine hv.size]
          simpa using (congrArg List.length p.layout.map_func?_funcImports).symm
        exact List.getElem?_eq_none (by simp only [scene]; omega)
      · intro c' hinst hactive hlimit
        have hc' : Within s c' := by
          refine ⟨hinst, ?_, hlimit⟩
          rw [hactive]
          exact List.forall_mem_cons.2 ⟨Nat.le_add_right _ _, hc.active⟩
        have hlen : args.length = f.defn.params.length := by rw [hargs, hparams]
        refine (expr_runs hv ih hbody hc'
          (hv.built.layout.body_subset (List.mem_of_getElem? hf)) (below_paramSlots _)
          (agrees_params _ _ _ hlen) ?_).imp ?_
        · rw [List.length_append, List.length_replicate]
          omega
        · rintro v locals' stack' ⟨-, rfl⟩
          rfl

end

end WasmLisp.Codegen
