import Mathlib
import WasmLisp.Artifact
import WasmLisp.Proofs.Machine.Steps
import WasmLisp.Proofs.Meaning

/-!
# Runs that follow an evaluation

* `observe`: what a run of a module's code does outside of it, as its imports and exports name it;
* `Follows`: a run does what an evaluation says;
* `follows_invoke`: a call of another function gives what the function gives on its own.
-/

namespace WasmLisp

open Artifact (envModule varModule varDefModule)

/-- What a call of an imported function is, by the module that it is imported from. -/
def Event.ofImport (module name : String) (args : List Int64) : Event :=
  if module = varModule then .readVar name
  else if module = varDefModule then .bindVar name (args.headD 0)
  else .call name args

namespace Machine

variable {η σ α β : Type}

/-! ## What runs show -/

namespace Module

/-- The names behind the first indices of functions, which are the imported ones. -/
def importedFunctions (m : Module) : List (String × String) :=
  m.imports.filterMap fun i => i.desc.func?.map fun _ => (i.module, i.name)

/-- The names behind the first indices of globals, which are the imported ones. -/
def importedSymbols (m : Module) : List String :=
  m.imports.filterMap fun i => i.desc.global?.map fun _ => i.name

/-- The name of a global: that of its import or of its export. -/
def globalName? (m : Module) (index : Nat) : Option String :=
  match m.importedSymbols[index]? with
  | some name => some name
  | none =>
    (m.exports.find? fun e => e.kind == Binary.kindGlobal && e.index.toNat == index).map (·.name)

/-- The event that the call of a function is, if it is imported. -/
def callEvents (m : Module) (index : Nat) (stack : List Int64) : List Event :=
  match m.importedFunctions[index]?, m.signatures?.bind (·[index]?) with
  | some (module, name), some t => [.ofImport module name (stack.take t.params.length).reverse]
  | _, _ => []

/-- The event that the write of a global is. -/
def writeEvents (m : Module) (index : Nat) (stack : List Int64) : List Event :=
  match m.globalName? index, stack with
  | some name, v :: _ => [.write name v]
  | _, _ => []

/-- What the next step does outside of the module whose functions have the addresses from `first`
on. What functions outside of it do in turn is not shown. -/
def observe (m : Module) (first : Nat) (c : Config η σ) : List Event :=
  match c.frame.code with
  | .call index :: _ =>
    if ∀ a ∈ c.active, first ≤ a then m.callEvents index c.frame.stack else []
  | .globalSet index :: _ =>
    if ∀ a ∈ c.active, first ≤ a then m.writeEvents index c.frame.stack else []
  | _ => []

end Module

namespace Config

variable {host : HostCall η σ} {shows : Config η σ → List Event} {fuel : Nat} {c d : Config η σ}

/-- The same function at another place in its code, with a state, locals and operands. -/
def point (c : Config η σ) (s : Store η × σ) (locals : List Int64) (code : List Instr)
    (stack : List Int64) : Config η σ :=
  { c with
    store := s.1
    world := s.2
    frame := { c.frame with locals, code, stack } }

/-! ## Following -/

/-- The run from a moment does what an evaluation says: it takes no fewer steps than the fuel if
this was not enough, it ends in the trap, or it comes to a moment that has the state and stands in
some relation to the value. It shows what the evaluation does outside. -/
def Follows (host : HostCall η σ) (shows : Config η σ → List Event) (fuel : Nat) (c : Config η σ)
    (r : Option (List Event × (Store η × σ) × Except Trap α)) (Q : α → Config η σ → Prop) : Prop :=
  match r with
  | none => ∃ k tr d, fuel ≤ k ∧ Steps host shows k c tr d
  | some (events, s, .error t) => ∃ active, Ends host shows c events (.trap t active s.1 s.2)
  | some (events, s, .ok a) =>
    ∃ k d, Steps host shows k c events d ∧ d.store = s.1 ∧ d.world = s.2 ∧ Q a d

variable {r : Option (List Event × (Store η × σ) × Except Trap α)} {Q R : α → Config η σ → Prop}

theorem Follows.imp (h : Follows host shows fuel c r Q) (hQ : ∀ a d, Q a d → R a d) :
    Follows host shows fuel c r R := by
  match r, h with
  | none, h => exact h
  | some (_, _, .error _), h => exact h
  | some (_, _, .ok a), ⟨k, d, hs, hst, hw, hq⟩ => exact ⟨k, d, hs, hst, hw, hQ a d hq⟩

theorem Follows.of_ok {a : α} {s : Store η × σ} (hst : c.store = s.1) (hw : c.world = s.2)
    (hq : Q a c) : Follows host shows fuel c (some ([], s, .ok a)) Q :=
  ⟨0, c, .refl c, hst, hw, hq⟩

/-- Steps that show nothing come before. -/
theorem Follows.after {k : Nat} (hs : Steps host shows k c [] d)
    (h : Follows host shows fuel d r Q) : Follows host shows fuel c r Q := by
  match r, h with
  | none, ⟨l, tr, e, hl, he⟩ => exact ⟨k + l, _, e, by omega, hs.trans he⟩
  | some (_, _, .error _), ⟨active, he⟩ => exact ⟨active, hs.ends he⟩
  | some (_, _, .ok a), ⟨l, e, he, hst, hw, hq⟩ => exact ⟨k + l, e, hs.trans he, hst, hw, hq⟩

theorem Follows.step (hc : c.step host = .next d) (hshow : shows c = [])
    (h : Follows host shows fuel d r Q) : Follows host shows fuel c r Q := by
  have hs : Steps host shows 1 c (shows c) d := .one hc
  rw [hshow] at hs
  exact .after hs h

/-- A step that shows nothing comes after. -/
theorem Follows.andThen (h : Follows host shows fuel c r Q)
    (hQ : ∀ a d, Q a d → ∃ e, d.step host = .next e ∧ shows d = [] ∧ e.store = d.store ∧
      e.world = d.world ∧ R a e) : Follows host shows fuel c r R := by
  match r, h with
  | none, h => exact h
  | some (_, _, .error _), h => exact h
  | some (_, _, .ok a), ⟨k, d, hs, hst, hw, hq⟩ =>
    obtain ⟨e, hstep, hshow, hst', hw', hr⟩ := hQ a d hq
    have hone : Steps host shows 1 d (shows d) e := .one hstep
    rw [hshow] at hone
    have hall := hs.trans hone
    rw [List.append_nil] at hall
    exact ⟨k + 1, e, hall, hst'.trans hst, hw'.trans hw, hr⟩

/-- A step comes before an evaluation that has less fuel. -/
theorem Follows.succ (hc : c.step host = .next d) (hshow : shows c = [])
    (h : Follows host shows fuel d r Q) : Follows host shows (fuel + 1) c r Q := by
  have hs : Steps host shows 1 c (shows c) d := .one hc
  rw [hshow] at hs
  match r, h with
  | none, ⟨l, tr, e, hl, he⟩ => exact ⟨1 + l, _, e, by omega, hs.trans he⟩
  | some (_, _, .error _), ⟨active, he⟩ => exact ⟨active, hs.ends he⟩
  | some (_, _, .ok a), ⟨l, e, he, hst, hw, hq⟩ => exact ⟨1 + l, e, hs.trans he, hst, hw, hq⟩

/-- Stores stay alike. -/
theorem Follows.alike {base : Store η} (h : Follows host shows fuel c r Q)
    (hb : base.Alike c.store) :
    Follows host shows fuel c r fun a d => base.Alike d.store ∧ Q a d := by
  match r, h with
  | none, h => exact h
  | some (_, _, .error _), h => exact h
  | some (_, _, .ok a), ⟨k, d, hs, hst, hw, hq⟩ =>
    exact ⟨k, d, hs, hst, hw, hb.trans hs.alike, hq⟩

/-- One evaluation after the other. -/
theorem Follows.bind {x : Eval (Store η × σ) α} {f : α → Eval (Store η × σ) β} {s : Store η × σ}
    {R : β → Config η σ → Prop} (h : Follows host shows fuel c (x s) Q)
    (hf : ∀ a d s, d.store = s.1 → d.world = s.2 → Q a d →
      Follows host shows fuel d (f a s) R) :
    Follows host shows fuel c ((x >>= f) s) R := by
  match hx : x s, h with
  | none, h =>
    rw [Eval.bind_of_none hx]
    exact h
  | some (events, s, .error t), h =>
    rw [Eval.bind_of_error hx]
    exact h
  | some (events, s, .ok a), ⟨k, d, hs, hst, hw, hq⟩ =>
    rw [Eval.bind_of_ok hx]
    have hd := hf a d s hst hw hq
    match hr : f a s, hd with
    | none, ⟨l, tr, e, hl, he⟩ => exact ⟨k + l, _, e, by omega, hs.trans he⟩
    | some (more, s, .error t), ⟨active, he⟩ => exact ⟨active, hs.ends he⟩
    | some (more, s, .ok b), ⟨l, e, he, hst, hw, hq⟩ => exact ⟨k + l, e, hs.trans he, hst, hw, hq⟩

/-! ## Calls of functions outside -/

end Config

/-- What a run on its own gives. -/
def Outcome.answer : Outcome η σ → Option ((Store η × σ) × Except Trap (List Int64))
  | .done values s w => some ((s, w), .ok values)
  | .trap t _ s w => some ((s, w), .error t)
  | .outOfFuel _ _ => none

namespace Config

variable {host : HostCall η σ} {fuel : Nat} {m : Module} {first : Nat} {c d : Config η σ}

theorem observe_of_outside {a : Nat} (ha : a ∈ c.active) (hlt : a < first) :
    m.observe first c = [] := by
  have hnot : ¬ ∀ a ∈ c.active, first ≤ a := fun h => by
    have := h a ha
    omega
  unfold Module.observe
  split
  · rw [if_neg hnot]
  · rw [if_neg hnot]
  · rfl

/-- While a function outside runs above others, nothing is shown. -/
theorem observe_under {a : Nat} (hlt : a < first) (caller : Frame) (outer : List Frame) (n : Nat)
    (c : Config η σ) (hc : c.active.getLast? = some a) :
    m.observe first (c.under caller outer n) = [] := by
  refine observe_of_outside (a := a) ?_ hlt
  have hin : a ∈ c.active := List.mem_of_getLast? hc
  rw [active, List.mem_cons] at hin
  simp only [active, under, List.map_append, List.mem_cons, List.mem_append]
  tauto

/-- A call of a function outside does what the function does on its own. -/
theorem follows_invoke (host : HostCall η σ) (fuel : Nat) {index a : Nat} {rest : List Instr}
    {args below : List Int64} {callee : Callee η} {e : Event} (hcode : c.frame.code = .call index :: rest)
    (hstack : c.frame.stack = args.reverse ++ below) (haddr : c.funcAddress? index = some a)
    (hcallee : c.store.funcs[a]? = some callee) (hargs : callee.type.params.length = args.length)
    (hlt : a < first) (hl : c.limit = none) (hshow : m.observe first c = [e]) :
    Follows host (m.observe first) fuel c
      ((invokeWithin host none fuel c.store c.world a args).answer.map fun r => ([e], r))
      (fun values d => values.length = callee.type.results.length ∧
        d = c.point (d.store, d.world) c.frame.locals rest (values.reverse ++ below)) := by
  have htake : (c.frame.stack.take callee.type.params.length).reverse = args := by
    rw [hstack, hargs, ← List.length_reverse, List.take_left, List.reverse_reverse]
  have hdrop : c.frame.stack.drop callee.type.params.length = below := by
    rw [hstack, hargs, ← List.length_reverse, List.drop_left]
  have hstep : c.step host = c.call host a rest := by
    simp only [step, hcode, exec, haddr]
  have hfull : c.isFull = false := by simp only [isFull, hl]
  simp only [call, hcallee, htake, hdrop, hfull, Bool.false_eq_true, if_false] at hstep
  cases callee with
  | host handle label t =>
    simp only [invokeWithin, hcallee]
    simp only [Callee.type] at hstep ⊢
    cases hans : hostAnswer t (host handle args c.world).2 with
    | error cause =>
      rw [hans] at hstep
      have hend : Ends host (m.observe first) c (m.observe first c) _ := .stop hstep
      rw [hshow] at hend
      exact ⟨_, hend⟩
    | ok values =>
      rw [hans] at hstep
      have hone : Steps host (m.observe first) 1 c (m.observe first c) _ := .one hstep
      rw [hshow] at hone
      refine ⟨1, _, hone, rfl, rfl, ?_, rfl⟩
      unfold hostAnswer at hans
      split at hans
      · split at hans
        · rename_i hlen
          cases hans
          exact hlen
        · cases hans
      · cases hans
  | code inst i t locals body =>
    simp only [invokeWithin, hcallee]
    let caller : Frame := { c.frame with code := rest, stack := below }
    let c₀ : Config η σ :=
      { store := c.store, world := c.world
        frame := .start a inst t.results.length locals body args, limit := none }
    -- the function runs above its caller as it would alone
    have hnext : c.step host = .next (c₀.under caller c.callers c.depth) := by
      rw [hstep]
      simp only [under, c₀, caller, hl, List.nil_append, Nat.add_comm 1]
    have hbottom : c₀.active.getLast? = some a := rfl
    have hquiet : ∀ d : Config η σ, d.active.getLast? = some a →
        m.observe first (d.under caller c.callers c.depth) = [] :=
      fun d => observe_under hlt caller c.callers c.depth d
    cases hrun : run host fuel c₀ with
    | done values s w =>
      have hends : Ends host (fun _ => ([] : List Event)) c₀ _ _ := ends_of_run hrun trivial
      have hlen := hends.length_done
      obtain ⟨k, hs⟩ := hends.under_done hquiet rfl rfl hbottom
      have hsteps := Steps.head hnext hs
      rw [hshow] at hsteps
      refine ⟨_, _, hsteps, rfl, rfl, ?_, ?_⟩
      · have hres : some t.results.length = some values.length := hlen
        exact (Option.some.inj hres).symm
      · simp only [resume, point, caller, hl]
    | trap t active s w =>
      have hends : Ends host (fun _ => ([] : List Event)) c₀ _ _ := ends_of_run hrun trivial
      obtain ⟨active', hs⟩ := hends.under_trap hquiet rfl rfl hbottom
      have hsteps := Ends.head hnext hs
      rw [hshow] at hsteps
      exact ⟨active', hsteps⟩
    | outOfFuel s w =>
      obtain ⟨tr, d, hs⟩ := exists_steps_of_outOfFuel (fun _ => ([] : List Event)) hrun
      have hsteps := Steps.head hnext (hs.under hquiet rfl rfl hbottom)
      exact ⟨fuel + 1, _, _, by omega, hsteps⟩

end Config

/-! ## Code -/

/-- What runs of a module's code are looked at with: the behaviour of host functions, the module,
the address of its first function, the store that it was added to and the fuel of evaluation. -/
structure Scene (η σ : Type) where
  host : HostCall η σ
  module : Module
  first : Nat
  store : Store η
  fuel : Nat

namespace Scene

variable {e : Scene η σ} {c : Config η σ} {locals stack : List Int64} {code more : List Instr}
  {x : Eval (Store η × σ) α} {Q R : α → List Int64 → List Int64 → Prop}

/-- The code does what an evaluation says. It leaves locals and operands that stand in some
relation to the value, and goes on with what comes after it. -/
def Runs (e : Scene η σ) (c : Config η σ) (locals : List Int64) (code : List Instr)
    (stack : List Int64) (x : Eval (Store η × σ) α) (Q : α → List Int64 → List Int64 → Prop) :
    Prop :=
  ∀ s rest, e.store.Alike s.1 →
    Config.Follows e.host (e.module.observe e.first) e.fuel
      (c.point s locals (code ++ rest) stack) (x s) fun a d =>
        e.store.Alike d.store ∧ ∃ locals' stack', Q a locals' stack' ∧
          d = c.point (d.store, d.world) locals' rest stack'

theorem Runs.imp (h : e.Runs c locals code stack x Q)
    (hQ : ∀ a locals' stack', Q a locals' stack' → R a locals' stack') :
    e.Runs c locals code stack x R := by
  intro s rest hs
  refine (h s rest hs).imp ?_
  rintro a d ⟨ha, locals', stack', hq, hd⟩
  exact ⟨ha, locals', stack', hQ _ _ _ hq, hd⟩

theorem Runs.pure {a : α} (hq : Q a locals stack) :
    e.Runs c locals [] stack (Pure.pure a) Q := by
  intro s rest hs
  exact .of_ok rfl rfl ⟨hs, locals, stack, hq, rfl⟩

theorem Runs.bind {f : α → Eval (Store η × σ) β} {R : β → List Int64 → List Int64 → Prop}
    (h : e.Runs c locals code stack x Q)
    (hf : ∀ a locals' stack', Q a locals' stack' → e.Runs c locals' more stack' (f a) R) :
    e.Runs c locals (code ++ more) stack (x >>= f) R := by
  intro s rest hs
  rw [List.append_assoc]
  refine (h s (more ++ rest) hs).bind ?_
  rintro a d s' hst hw ⟨ha, locals', stack', hq, hd⟩
  have hd' : d = c.point s' locals' (more ++ rest) stack' := by
    rw [hd, hst, hw]
  rw [hd']
  exact hf a locals' stack' hq s' rest (hst ▸ ha)

/-- An instruction that shows nothing comes before. -/
theorem Runs.cons {i : Instr} {locals' stack' : List Int64}
    (hi : ∀ s rest, (c.point s locals (i :: rest) stack).step e.host =
      .next (c.point s locals' rest stack'))
    (hshow : ∀ s rest, e.module.observe e.first (c.point s locals (i :: rest) stack) = [])
    (h : e.Runs c locals' code stack' x Q) : e.Runs c locals (i :: code) stack x Q := by
  intro s rest hs
  exact .step (hi s (code ++ rest)) (hshow s (code ++ rest)) (h s rest hs)

/-- A single instruction that shows nothing. -/
theorem Runs.one {i : Instr} {a : α} {locals' stack' : List Int64}
    (hi : ∀ s rest, (c.point s locals (i :: rest) stack).step e.host =
      .next (c.point s locals' rest stack'))
    (hshow : ∀ s rest, e.module.observe e.first (c.point s locals (i :: rest) stack) = [])
    (hq : Q a locals' stack') : e.Runs c locals [i] stack (Pure.pure a) Q :=
  .cons hi hshow (.pure hq)

/-- The code of an evaluation is that of a function of its value. -/
theorem Runs.map {f : α → β} {R : β → List Int64 → List Int64 → Prop}
    (h : e.Runs c locals code stack x Q)
    (hQ : ∀ a locals' stack', Q a locals' stack' → R (f a) locals' stack') :
    e.Runs c locals code stack (x >>= fun a => Pure.pure (f a)) R := by
  have hb := h.bind fun a locals' stack' hq => Runs.pure (hQ a locals' stack' hq)
  rwa [List.append_nil] at hb

theorem Runs.const (v : Int64) (h : e.Runs c locals code (v :: stack) x Q) :
    e.Runs c locals (.i64Const v :: code) stack x Q := .cons (fun _ _ => rfl) (fun _ _ => rfl) h

theorem Runs.drop {v : Int64} (h : e.Runs c locals code stack x Q) :
    e.Runs c locals (.drop :: code) (v :: stack) x Q := .cons (fun _ _ => rfl) (fun _ _ => rfl) h

theorem Runs.localGet (i : Nat) (h : e.Runs c locals code (locals.getD i 0 :: stack) x Q) :
    e.Runs c locals (.localGet i :: code) stack x Q := .cons (fun _ _ => rfl) (fun _ _ => rfl) h

theorem Runs.localSet (i : Nat) {v : Int64} (h : e.Runs c (locals.set i v) code stack x Q) :
    e.Runs c locals (.localSet i :: code) (v :: stack) x Q :=
  .cons (fun _ _ => rfl) (fun _ _ => rfl) h

theorem Runs.localTee (i : Nat) {v : Int64} (h : e.Runs c (locals.set i v) code (v :: stack) x Q) :
    e.Runs c locals (.localTee i :: code) (v :: stack) x Q :=
  .cons (fun _ _ => rfl) (fun _ _ => rfl) h

/-- An operation on two integers that does not fail comes before. -/
theorem Runs.consBin {op : Bin} {a b v : Int64} (hop : bin64 op a b = .ok v)
    (h : e.Runs c locals code (v :: stack) x Q) :
    e.Runs c locals (.bin .w64 op :: code) (b :: a :: stack) x Q := by
  refine .cons (fun s rest => ?_) (fun _ _ => rfl) h
  simp only [Config.step, Config.point, Config.exec, binary, hop]
  rfl

/-- An operation on two integers, which can fail. -/
theorem Runs.bin {op : Bin} {a b : Int64} :
    e.Runs c locals [.bin .w64 op] (b :: a :: stack) (.lift (bin64 op a b))
      fun v locals' stack' => locals' = locals ∧ stack' = v :: stack := by
  cases hop : bin64 op a b with
  | ok v => exact .consBin hop (.pure ⟨rfl, rfl⟩)
  | error t =>
    intro s rest hs
    have hstep : (c.point s locals (.bin .w64 op :: rest) (b :: a :: stack)).step e.host =
        (c.point s locals (.bin .w64 op :: rest) (b :: a :: stack)).trap t := by
      simp only [Config.step, Config.point, Config.exec, binary, hop]
    exact ⟨_, .stop hstep⟩

/-- A function with a block around the rest of its code. -/
def labelled (c : Config η σ) (label : Label) : Config η σ :=
  { c with frame := { c.frame with labels := label :: c.frame.labels } }

/-- Both branches of a conditional run below a block, at whose end the code after it goes on. -/
theorem Runs.ifElse {v : Int64} {t : UInt8} {thenB elseB : List Instr}
    (h : ∀ label, e.Runs (labelled c label) locals (if v = 0 then elseB else thenB) stack x Q) :
    e.Runs c locals [.ifElse (.value t) thenB elseB] (v :: stack) x Q := by
  intro s rest hs
  let label : Label := { arity := 1, below := stack, target := rest, rest }
  have hin : ((c.point s locals (.ifElse (.value t) thenB elseB :: rest) (v :: stack)).step
      e.host) = .next ((labelled c label).point s locals
        ((if v = 0 then elseB else thenB) ++ []) stack) := by
    rw [List.append_nil]
    rfl
  refine .step hin rfl ((h label s [] hs).andThen ?_)
  rintro a d ⟨ha, locals', stack', hq, hd⟩
  refine ⟨c.point (d.store, d.world) locals' rest stack', ?_, ?_, rfl, rfl, ha, locals', stack',
    hq, rfl⟩
  · rw [hd]
    rfl
  · rw [hd]
    rfl

/-! ### Calls -/

/-- What an index of functions leads to in the instance of a moment. -/
def function? (e : Scene η σ) (c : Config η σ) (index : Nat) : Option Nat :=
  (e.store.instances[c.frame.inst]?).bind (·.funcs[index]?)

/-- What an index of globals leads to in the instance of a moment. -/
def global? (e : Scene η σ) (c : Config η σ) (index : Nat) : Option Nat :=
  (e.store.instances[c.frame.inst]?).bind (·.globals[index]?)

/-- A call of a function of the module does what its body does, which is evaluated with less
fuel. -/
theorem Runs.call {index a inst k n fuel : Nat} {t : Binary.FuncType} {body : List Instr}
    {args below : List Int64} {x : Eval (Store η × σ) Int64} (hfuel : e.fuel = fuel + 1)
    (haddr : e.function? c index = some a)
    (hcallee : e.store.funcs[a]? = some (.code inst k t n body))
    (hargs : t.params.length = args.length) (hres : t.results.length = 1)
    (hown : e.module.importedFunctions[index]? = none) (hl : c.limit = none)
    (h : ∀ c' : Config η σ, c'.frame.inst = inst → c'.active = a :: c.active → c'.limit = none →
      { e with fuel }.Runs c' (args ++ List.replicate n 0) body [] x
        fun v _ stack' => stack' = [v]) :
    e.Runs c locals [.call index] (args.reverse ++ below) x
      fun v locals' stack' => locals' = locals ∧ stack' = v :: below := by
  intro s rest hs
  rw [hfuel]
  let caller : Frame := { c.frame with locals, code := rest, stack := below }
  let c' : Config η σ :=
    { c with
      store := s.1
      world := s.2
      frame := .start a inst 1 n body args
      callers := caller :: c.callers
      depth := c.depth + 1 }
  let c₁ := c.point s locals (.call index :: rest) (args.reverse ++ below)
  have hin : c₁.step e.host =
      .next (c'.point s (args ++ List.replicate n 0) (body ++ []) []) := by
    have hf : c₁.funcAddress? index = some a := by
      rw [← haddr]
      simp only [c₁, Config.funcAddress?, Config.point, function?, hs.instances]
    have hcode : c₁.frame.code = .call index :: rest := rfl
    have hstack : c₁.frame.stack = args.reverse ++ below := rfl
    have hcallee' : c₁.store.funcs[a]? = some (.code inst k t n body) := by
      rw [← hcallee, ← hs.funcs]
      rfl
    have hfull : c₁.isFull = false := by
      simp only [Config.isFull, show c₁.limit = none from hl]
    have htake : (args.reverse ++ below).take t.params.length = args.reverse := by
      rw [hargs, ← List.length_reverse, List.take_left]
    have hdrop : (args.reverse ++ below).drop t.params.length = below := by
      rw [hargs, ← List.length_reverse, List.drop_left]
    simp only [Config.step, hcode, Config.exec, hf, Config.call, hcallee', Callee.type, hfull,
      hstack, htake, hdrop, List.reverse_reverse, hres, Bool.false_eq_true, if_false,
      List.append_nil]
    rfl
  have hshow : e.module.observe e.first
      (c.point s locals (.call index :: rest) (args.reverse ++ below)) = [] := by
    simp only [Module.observe, Config.point, Module.callEvents, hown]
    split <;> rfl
  refine .succ hin hshow ((h c' rfl rfl hl s [] hs).andThen ?_)
  -- at the end of its body the function leaves its value to the caller
  rintro v d ⟨ha, locals', stack', rfl, hd⟩
  refine ⟨c.point (d.store, d.world) locals rest (v :: below), ?_, ?_, rfl, rfl, ha, locals, _,
    ⟨rfl, rfl⟩, rfl⟩
  · rw [hd]
    rfl
  · rw [hd]
    rfl

/-- A call of a function outside does what the function does on its own. -/
theorem Runs.foreign {index a : Nat} {args below : List Int64} {callee : Callee η} {event : Event}
    (haddr : e.function? c index = some a) (hcallee : e.store.funcs[a]? = some callee)
    (hargs : callee.type.params.length = args.length) (hlt : a < e.first) (hl : c.limit = none)
    (hactive : ∀ a ∈ c.active, e.first ≤ a)
    (hshow : e.module.callEvents index (args.reverse ++ below) = [event]) :
    e.Runs c locals [.call index] (args.reverse ++ below)
      (.doing event fun s => (invokeWithin e.host none e.fuel s.1 s.2 a args).answer)
      fun values locals' stack' => values.length = callee.type.results.length ∧
        locals' = locals ∧ stack' = values.reverse ++ below := by
  intro s rest hs
  have hf : (c.point s locals (.call index :: rest) (args.reverse ++ below)).funcAddress? index
      = some a := by
    rw [← haddr]
    simp only [Config.funcAddress?, Config.point, function?, hs.instances]
  have hshow' : e.module.observe e.first
      (c.point s locals (.call index :: rest) (args.reverse ++ below)) = [event] := by
    have hact : ∀ a ∈ (c.point s locals (.call index :: rest) (args.reverse ++ below)).active,
        e.first ≤ a := hactive
    simp only [Module.observe, if_pos hact]
    exact hshow
  have hcallee' : s.1.funcs[a]? = some callee := by rw [hs.funcs, hcallee]
  have hinvoke := Config.follows_invoke e.host e.fuel (c := c.point s locals (.call index :: rest)
    (args.reverse ++ below)) rfl rfl hf hcallee' hargs hlt hl hshow'
  refine (hinvoke.alike hs).imp ?_
  rintro values d ⟨ha, hlen, hd⟩
  exact ⟨ha, locals, _, ⟨hlen, rfl, rfl⟩, hd⟩

/-! ### Globals -/

theorem Runs.globalGet {index a : Nat} (haddr : e.global? c index = some a) :
    e.Runs c locals [.globalGet index] stack
      (fun s => some ([], s, .ok (s.1.globalValue a)))
      fun v locals' stack' => locals' = locals ∧ stack' = v :: stack := by
  intro s rest hs
  have hf : (c.point s locals (.globalGet index :: rest) stack).globalAddress? index = some a := by
    rw [← haddr]
    simp only [Config.globalAddress?, Config.point, global?, hs.instances]
  have hin : (c.point s locals (.globalGet index :: rest) stack).step e.host =
      .next (c.point s locals rest (s.1.globalValue a :: stack)) := by
    simp only [Config.step, Config.point, Config.exec] at hf ⊢
    rw [hf]
    rfl
  exact .step hin rfl (.of_ok rfl rfl ⟨hs, locals, _, ⟨rfl, rfl⟩, rfl⟩)

/-- What was written is read back. -/
theorem globalValue_setGlobal {s : Store η} {a : Nat} (h : a < s.globals.size) (v : Int64) :
    (s.setGlobal a v).globalValue a = v := by
  simp [Store.globalValue, Store.setGlobal, Array.getElem_modify, h]

theorem Runs.globalSet {index a : Nat} {v : Int64} {name : String}
    (haddr : e.global? c index = some a) (hlt : a < e.store.globals.size)
    (hactive : ∀ a ∈ c.active, e.first ≤ a) (hname : e.module.globalName? index = some name) :
    e.Runs c locals [.globalSet index, .globalGet index] (v :: stack)
      (.doing (.write name v) fun s => some ((s.1.setGlobal a v, s.2), .ok v))
      fun v locals' stack' => locals' = locals ∧ stack' = v :: stack := by
  intro s rest hs
  let c₁ := c.point s locals (.globalSet index :: .globalGet index :: rest) (v :: stack)
  have hf : c₁.globalAddress? index = some a := by
    rw [← haddr]
    simp only [c₁, Config.globalAddress?, Config.point, global?, hs.instances]
  have hin : c₁.step e.host =
      .next (c.point (s.1.setGlobal a v, s.2) locals (.globalGet index :: rest) stack) := by
    simp only [c₁, Config.step, Config.point, Config.exec] at hf ⊢
    rw [hf]
  have hshow : e.module.observe e.first c₁ = [.write name v] := by
    have hact : ∀ a ∈ c₁.active, e.first ≤ a := hactive
    simp only [Module.observe, c₁, Config.point] at hact ⊢
    rw [if_pos hact]
    simp only [Module.writeEvents, hname]
  have hs' : e.store.Alike (s.1.setGlobal a v) := hs.trans (Store.alike_setGlobal _ _ _)
  have hread : e.Runs c locals [.globalGet index] stack _ _ := .globalGet haddr
  obtain ⟨k, d, hsteps, hst, hw, ha, hq⟩ := hread (s.1.setGlobal a v, s.2) rest hs'
  have hval : (s.1.setGlobal a v).globalValue a = v :=
    globalValue_setGlobal (by rw [hs.size]; exact hlt) v
  have hall := Config.Steps.head hin hsteps
  rw [hshow] at hall
  refine ⟨_, d, hall, hst, hw, ha, ?_⟩
  simpa [hval] using hq

end Scene

end Machine

end WasmLisp
