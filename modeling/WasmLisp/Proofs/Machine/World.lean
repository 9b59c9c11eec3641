import Mathlib
import WasmLisp.Proofs.Machine.Steps

/-!
# What runs do to the world

Code acts on the world through host functions only.

* `Store.Hosts`: a property of all host functions of a store. Only the host functions of new
  instances have to be looked at for it;
* `Config.world_run`: what every host function of the store keeps, a run keeps;
* `Config.Due`: a call of a host function that stands in code without jumps is made or still ahead, so
  it has been made when the run ends with values (`Config.Due.run`).
-/

namespace WasmLisp.Machine

variable {η σ : Type}

/-- The world that an outcome leaves. -/
def Outcome.world : Outcome η σ → σ
  | .done _ _ w => w
  | .trap _ _ _ w => w
  | .outOfFuel _ w => w

/-! ## What all host functions keep -/

/-- All host functions of the store have a property. -/
def Store.Hosts (s : Store η) (P : η → Prop) : Prop :=
  ∀ (a : Nat) handle label t, s.funcs[a]? = some (.host handle label t) → P handle

namespace Store

variable {s t : Store η} {P R : η → Prop}

theorem Hosts.mono (h : s.Hosts P) (hPR : ∀ handle, P handle → R handle) : s.Hosts R :=
  fun a handle label type hcallee => hPR handle (h a handle label type hcallee)

theorem Hosts.of_funcs (h : s.Hosts P) (hfuncs : t.funcs = s.funcs) : t.Hosts P := by
  intro a handle label type hcallee
  rw [hfuncs] at hcallee
  exact h a handle label type hcallee

theorem Hosts.append (h : s.Hosts P) {callees : List (Callee η)}
    (hfuncs : t.funcs = s.funcs ++ callees.toArray)
    (hnew : ∀ handle label type, .host handle label type ∈ callees → P handle) : t.Hosts P := by
  intro a handle label type hcallee
  rw [hfuncs, Array.getElem?_append] at hcallee
  split at hcallee
  · exact h a handle label type hcallee
  · rw [List.getElem?_toArray] at hcallee
    exact hnew handle label type (List.mem_of_getElem? hcallee)

theorem Hosts.addHost (h : s.Hosts P) (name : String) {fns : List (String × η × Binary.FuncType)}
    (hfns : ∀ f ∈ fns, P f.2.1) : (s.addHost name fns).Hosts P := by
  refine h.append rfl fun handle label type hmem => ?_
  obtain ⟨f, hf, heq⟩ := List.mem_map.mp hmem
  cases heq
  exact hfns f hf

theorem Hosts.addGlobals (h : s.Hosts P) (name : String) (data : List (String × Int64)) :
    (s.addGlobals name data).Hosts P := h.of_funcs rfl

/-- Code is no host function. -/
theorem Hosts.instantiate? (h : s.Hosts P) {m : Module} {name : String}
    (ht : s.instantiate? m name = some t) : t.Hosts P := by
  simp only [Store.instantiate?, bind, pure, Option.bind_eq_some_iff] at ht
  obtain ⟨linked, -, ht⟩ := ht
  cases ht
  refine h.append rfl fun handle label type hmem => ?_
  obtain ⟨f, -, heq⟩ := List.mem_map.mp hmem
  cases heq

end Store

/-- Every host function of the store keeps a property of the world. -/
def Store.Keeps (host : HostCall η σ) (P : σ → Prop) (s : Store η) : Prop :=
  s.Hosts fun handle => ∀ args w, P w → P (host handle args w).1

theorem Store.Keeps.alike {host : HostCall η σ} {P : σ → Prop} {s t : Store η}
    (h : s.Keeps host P) (ha : s.Alike t) : t.Keeps host P := h.of_funcs ha.funcs

namespace Config

variable {host : HostCall η σ} {P : σ → Prop} {c d : Config η σ}

/-- A step changes the world by a call of a host function only. -/
theorem world_step (h : c.store.Keeps host P) (hw : P c.world) :
    (∀ d, c.step host = .next d → P d.world) ∧ ∀ o, c.step host = .stop o → P o.world := by
  have hp : Parallel host c c (c.step host) (c.step host) := parallel_step rfl rfl
  generalize c.step host = r at hp
  cases hp with
  | trap t => exact ⟨fun d hd => (nomatch hd), fun o ho => by cases ho; exact hw⟩
  | goOn f hf => exact ⟨fun d hd => by cases hd; exact hw, fun o ho => (nomatch ho)⟩
  | write a v f hf => exact ⟨fun d hd => by cases hd; exact hw, fun o ho => (nomatch ho)⟩
  | leave f hf =>
    unfold leave
    dsimp only
    split
    · exact ⟨fun d hd => (nomatch hd), fun o ho => by cases ho; exact hw⟩
    split
    · exact ⟨fun d hd => (nomatch hd), fun o ho => by cases ho; exact hw⟩
    · exact ⟨fun d hd => by cases hd; exact hw, fun o ho => (nomatch ho)⟩
  | call a rest =>
    unfold call
    dsimp only
    split
    · exact ⟨fun d hd => (nomatch hd), fun o ho => by cases ho; exact hw⟩
    · rename_i callee hcallee
      split
      · rename_i handle label t
        have hnext := h a handle label t hcallee
          (c.frame.stack.take t.params.length).reverse c.world hw
        split
        · exact ⟨fun d hd => by cases hd; exact hnext, fun o ho => (nomatch ho)⟩
        · exact ⟨fun d hd => (nomatch hd), fun o ho => by cases ho; exact hnext⟩
      · split
        · exact ⟨fun d hd => (nomatch hd), fun o ho => by cases ho; exact hw⟩
        · exact ⟨fun d hd => by cases hd; exact hw, fun o ho => (nomatch ho)⟩

/-- What every host function keeps, a run keeps. -/
theorem world_run (h : c.store.Keeps host P) (hw : P c.world) (fuel : Nat) :
    P (run host fuel c).world := by
  induction fuel generalizing c with
  | zero => exact hw
  | succ fuel ih =>
    obtain ⟨hnext, hstop⟩ := world_step h hw
    unfold run
    split
    · rename_i d hd
      exact ih (h.alike (continues_of_step hd).alike) (hnext d hd)
    · rename_i o ho
      exact hstop o ho

end Config

theorem world_invokeWithin {host : HostCall η σ} {P : σ → Prop} {s : Store η}
    (h : s.Keeps host P) {w : σ} (hw : P w) (limit : Option Nat) (fuel address : Nat)
    (args : List Int64) : P (invokeWithin host limit fuel s w address args).world := by
  unfold invokeWithin
  split
  · exact hw
  · rename_i handle label t hcallee
    have hnext := h address handle label t hcallee args w hw
    dsimp only
    split <;> exact hnext
  · exact Config.world_run (c := { store := s, world := w, frame := _, limit }) h hw fuel

/-! ## Code without jumps -/

mutual

/-- Whether code can go elsewhere than past the instruction. -/
def Instr.jumps : Instr → Bool
  | .br _ | .brIf _ | .ret => true
  | .block _ body | .loop _ body => Instr.jumpsAll body
  | .ifElse _ thenB elseB => Instr.jumpsAll thenB || Instr.jumpsAll elseB
  | _ => false

def Instr.jumpsAll : List Instr → Bool
  | [] => false
  | i :: rest => i.jumps || Instr.jumpsAll rest

end

open Instr (jumpsAll)

@[simp] theorem Instr.jumpsAll_append (is js : List Instr) :
    jumpsAll (is ++ js) = (jumpsAll is || jumpsAll js) := by
  induction is with
  | nil => simp [jumpsAll]
  | cons i is ih => simp [jumpsAll, ih, Bool.or_assoc]

/-- Nothing that a frame still has to do jumps. -/
structure Frame.Straight (f : Frame) : Prop where
  code : jumpsAll f.code = false
  labels : ∀ l ∈ f.labels, jumpsAll l.rest = false

/-- What a frame still has to do outside of all blocks. -/
def Frame.ahead (f : Frame) : List Instr := (f.labels.getLast?.map (·.rest)).getD f.code

/-- How a frame goes on after an instruction: past it, or into a block of it. -/
inductive Frame.Moves (f : Frame) (rest : List Instr) (f' : Frame) : Prop where
  | past (hinst : f'.inst = f.inst) (hcode : f'.code = rest) (hlabels : f'.labels = f.labels)
  | into (hinst : f'.inst = f.inst) (label : Label) (hlabels : f'.labels = label :: f.labels)
    (hrest : label.rest = rest) (hcode : jumpsAll f'.code = false)

theorem Frame.Moves.straight {f f' : Frame} {i : Instr} {rest : List Instr} (h : f.Straight)
    (hcode : f.code = i :: rest) (hm : f.Moves rest f') : f'.Straight := by
  have hall := h.code
  rw [hcode, jumpsAll, Bool.or_eq_false_iff] at hall
  cases hm with
  | past hinst hcode' hlabels => exact ⟨hcode' ▸ hall.2, hlabels ▸ h.labels⟩
  | into hinst label hlabels hrest hcode' =>
    refine ⟨hcode', fun l hl => ?_⟩
    rw [hlabels, List.mem_cons] at hl
    rcases hl with rfl | hl
    · rw [hrest]
      exact hall.2
    · exact h.labels l hl

/-- What is ahead stays ahead, apart from the instruction. -/
theorem Frame.Moves.ahead {f f' : Frame} {i j : Instr} {rest : List Instr}
    (hcode : f.code = i :: rest) (hm : f.Moves rest f') (hj : j ∈ f.ahead) :
    j ∈ f'.ahead ∨ j = i := by
  unfold Frame.ahead at hj ⊢
  cases hm with
  | past hinst hcode' hlabels =>
    rw [hlabels, hcode']
    cases hlast : f.labels.getLast? with
    | none =>
      rw [hlast, hcode] at hj
      exact (List.mem_cons.mp hj).symm
    | some l =>
      rw [hlast] at hj
      exact .inl hj
  | into hinst label hlabels hrest hcode' =>
    rw [hlabels, List.getLast?_cons]
    cases hlast : f.labels.getLast? with
    | none =>
      rw [hlast, hcode] at hj
      simp only [Option.getD_none, Option.map_some, Option.getD_some, hrest]
      exact (List.mem_cons.mp hj).symm
    | some l =>
      rw [hlast] at hj
      exact .inl hj

namespace Config

variable {host : HostCall η σ} {c d : Config η σ}

/-- A step into a trap, or one after which the function goes on. -/
inductive Onward (c : Config η σ) (rest : List Instr) : Step η σ → Prop where
  | trap (t : Trap) : Onward c rest (c.trap t)
  | next (d : Config η σ) (hcallers : d.callers = c.callers) (hm : c.frame.Moves rest d.frame) :
    Onward c rest (.next d)

/-- What an instruction does that is neither a jump nor a call. -/
theorem onward_exec (host : HostCall η σ) {i : Instr} (hi : i.jumps = false)
    (hcall : ∀ j, i ≠ .call j) (c : Config η σ) (rest : List Instr) :
    Onward c rest (c.exec host i rest) := by
  cases i with
  | br l | brIf l | ret => cases hi
  | call j => exact absurd rfl (hcall j)
  | unreachable => exact .trap _
  | nop | localGet | i32Const | i64Const => exact .next _ rfl (.past rfl rfl rfl)
  | block t body | loop t body => exact .next _ rfl (.into rfl _ rfl rfl hi)
  | ifElse t thenB elseB =>
    rw [Instr.jumps, Bool.or_eq_false_iff] at hi
    cases hst : c.frame.stack with
    | nil => simp only [exec, hst]; exact .trap _
    | cons v stack =>
      simp only [exec, hst]
      refine .next _ rfl (.into rfl _ rfl rfl ?_)
      dsimp only
      split
      · exact hi.2
      · exact hi.1
  | globalGet j =>
    simp only [exec]
    cases c.globalAddress? j with
    | none => exact .trap _
    | some a => exact .next _ rfl (.past rfl rfl rfl)
  | globalSet j =>
    cases hst : c.frame.stack with
    | nil => simp only [exec, hst]; exact .trap _
    | cons v stack =>
      simp only [exec, hst]
      cases c.globalAddress? j with
      | none => exact .trap _
      | some a => exact .next _ rfl (.past rfl rfl rfl)
  | drop | localSet | localTee | eqz | wrap | extendS | extendU =>
    cases hst : c.frame.stack with
    | nil => simp only [exec, hst]; exact .trap _
    | cons v stack => simp only [exec, hst]; exact .next _ rfl (.past rfl rfl rfl)
  | rel w op =>
    rcases hst : c.frame.stack with _ | ⟨b, _ | ⟨a, stack⟩⟩
    · simp only [exec, hst]; exact .trap _
    · simp only [exec, hst]; exact .trap _
    · simp only [exec, hst]; exact .next _ rfl (.past rfl rfl rfl)
  | bin w op =>
    rcases hst : c.frame.stack with _ | ⟨b, _ | ⟨a, stack⟩⟩
    · simp only [exec, hst]; exact .trap _
    · simp only [exec, hst]; exact .trap _
    · simp only [exec, hst]
      cases binary w op a b with
      | error t => exact .trap _
      | ok v => exact .next _ rfl (.past rfl rfl rfl)
  | select =>
    rcases hst : c.frame.stack with _ | ⟨v, _ | ⟨b, _ | ⟨a, stack⟩⟩⟩
    · simp only [exec, hst]; exact .trap _
    · simp only [exec, hst]; exact .trap _
    · simp only [exec, hst]; exact .trap _
    · simp only [exec, hst]; exact .next _ rfl (.past rfl rfl rfl)

/-- A call of the function at an address stops in a trap, or the function goes on after it: at once if
the host answers, and else when what is called returns. -/
inductive Called (host : HostCall η σ) (c : Config η σ) (a : Nat) (rest : List Instr) :
    Step η σ → Prop where
  | trap (t : Trap) (active : List Nat) (w : σ) :
    Called host c a rest (.stop (.trap t active c.store w))
  | answered (handle : η) (label : String) (t : Binary.FuncType) (args : List Int64)
    (hcallee : c.store.funcs[a]? = some (.host handle label t)) (d : Config η σ)
    (hworld : d.world = (host handle args c.world).1) (hcallers : d.callers = c.callers)
    (hm : c.frame.Moves rest d.frame) : Called host c a rest (.next d)
  | entered (inst k : Nat) (t : Binary.FuncType) (locals : Nat) (body : List Instr)
    (hcallee : c.store.funcs[a]? = some (.code inst k t locals body)) (d : Config η σ)
    (caller : Frame) (hcallers : d.callers = caller :: c.callers)
    (hm : c.frame.Moves rest caller) : Called host c a rest (.next d)

theorem called_call (host : HostCall η σ) (c : Config η σ) (a : Nat) (rest : List Instr) :
    Called host c a rest (c.call host a rest) := by
  unfold call
  dsimp only
  split
  · exact .trap _ _ _
  · rename_i callee hcallee
    split
    · rename_i handle label t
      split
      · exact .answered handle label t _ hcallee _ rfl rfl (.past rfl rfl rfl)
      · exact .trap _ _ _
    · rename_i inst k t locals body
      split
      · exact .trap _ _ _
      · exact .entered inst k t locals body hcallee _ _ rfl (.past rfl rfl rfl)

/-! ## Calls that are due -/

/-- The frame of the function that the run is about. -/
def bottom (c : Config η σ) : Frame := c.callers.getLast?.getD c.frame

/-- The function that the run is about does not jump, and a call of its that leads to a host function
is ahead unless the world has a property that the host function brings about and all keep. -/
structure Due (host : HostCall η σ) (Q : σ → Prop) (index : Nat) (handle : η) (c : Config η σ) :
    Prop where
  straight : c.bottom.Straight
  place : ∃ (inst : Instance) (a : Nat) (label : String) (t : Binary.FuncType),
    c.store.instances[c.bottom.inst]? = some inst ∧ inst.funcs[index]? = some a ∧
      c.store.funcs[a]? = some (.host handle label t)
  keeps : c.store.Keeps host Q
  makes : ∀ args w, Q (host handle args w).1
  due : Q c.world ∨ .call index ∈ c.bottom.ahead

variable {Q : σ → Prop} {index : Nat} {handle : η}

/-- Only the frame at the bottom matters. -/
theorem Due.goOn (h : c.Due host Q index handle) (hc : c.step host = .next d)
    (hstraight : d.bottom.Straight) (hinst : d.bottom.inst = c.bottom.inst)
    (hdue : .call index ∈ c.bottom.ahead → Q d.world ∨ .call index ∈ d.bottom.ahead) :
    d.Due host Q index handle := by
  have halike := (continues_of_step hc).alike
  refine ⟨hstraight, ?_, h.keeps.alike halike, h.makes, ?_⟩
  · rw [hinst, halike.instances, halike.funcs]
    exact h.place
  · rcases h.due with hQ | hahead
    · exact .inl ((world_step h.keeps hQ).1 d hc)
    · exact hdue hahead

/-- A function that is called, or that returns, does not move the frame at the bottom. -/
theorem bottom_of_step (hc : c.callers ≠ []) (h : c.step host = .next d) :
    d.bottom.code = c.bottom.code ∧ d.bottom.labels = c.bottom.labels ∧
      d.bottom.inst = c.bottom.inst := by
  have hp : Parallel host c c (c.step host) (c.step host) := parallel_step rfl rfl
  rw [h] at hp
  generalize hr : Step.next d = r at hp
  obtain ⟨caller, outer, hcallers⟩ := List.exists_cons_of_ne_nil hc
  cases hp with
  | trap t => cases hr
  | goOn f hf =>
    cases hr
    simp [bottom, hcallers, List.getLast?_cons]
  | write a v f hf =>
    cases hr
    simp [bottom, hcallers, List.getLast?_cons]
  | leave f hf =>
    simp only [leave, hcallers] at hr
    split at hr
    · cases hr
    · cases hr
      unfold bottom
      rw [hcallers, List.getLast?_cons]
      cases outer.getLast? <;> exact ⟨rfl, rfl, rfl⟩
  | call a rest =>
    simp only [call] at hr
    split at hr
    · cases hr
    · split at hr
      · split at hr
        · cases hr
          simp [bottom, hcallers, List.getLast?_cons]
        · cases hr
      · split at hr
        · cases hr
        · cases hr
          simp [bottom, hcallers, List.getLast?_cons]

/-- What the next instruction does, if no other function is active. -/
theorem Due.exec (h : c.Due host Q index handle) (hcallers : c.callers = []) {i : Instr}
    {rest : List Instr} (hcode : c.frame.code = i :: rest) :
    (∃ t active w, c.step host = .stop (.trap t active c.store w)) ∨
      ∃ d, c.step host = .next d ∧ c.frame.Moves rest d.bottom ∧ (i = .call index → Q d.world) := by
  have hbottom : c.bottom = c.frame := by simp [bottom, hcallers]
  have hi : i.jumps = false := by
    have hall := (hbottom ▸ h.straight).code
    rw [hcode, jumpsAll, Bool.or_eq_false_iff] at hall
    exact hall.1
  have hstep : c.step host = c.exec host i rest := by simp only [Config.step, hcode]
  rw [hstep]
  by_cases hcall : ∃ j, i = .call j
  swap
  · have honward := onward_exec host hi (fun j hj => hcall ⟨j, hj⟩) c rest
    generalize c.exec host i rest = r at honward
    cases honward with
    | trap t => exact .inl ⟨t, _, _, rfl⟩
    | next d hsame hm =>
      exact .inr ⟨d, rfl, by rwa [bottom, hsame, hcallers], fun hj => absurd ⟨index, hj⟩ hcall⟩
  obtain ⟨j, rfl⟩ := hcall
  simp only [Config.exec]
  cases ha : c.funcAddress? j with
  | none => exact .inl ⟨.stuck, c.active, c.world, rfl⟩
  | some a =>
    -- a call with the index leads to the host function
    have hplace : j = index → ∃ label t, c.store.funcs[a]? = some (.host handle label t) := by
      rintro rfl
      obtain ⟨inst, a', label, t, hinst, hindex, hfunc⟩ := h.place
      rw [hbottom] at hinst
      simp only [funcAddress?, hinst, Option.bind_some] at ha
      cases hindex.symm.trans ha
      exact ⟨label, t, hfunc⟩
    have hcalled := called_call host c a rest
    dsimp only
    generalize c.call host a rest = r at hcalled
    cases hcalled with
    | trap t active w => exact .inl ⟨t, active, w, rfl⟩
    | answered handle' label t args hcallee d hworld hsame hm =>
      refine .inr ⟨d, rfl, by rwa [bottom, hsame, hcallers], fun hj => ?_⟩
      obtain ⟨label', t', hplaced⟩ := hplace (Instr.call.inj hj)
      cases hplaced.symm.trans hcallee
      rw [hworld]
      exact h.makes args c.world
    | entered inst k t locals body hcallee d caller hsame hm =>
      refine .inr ⟨d, rfl, by rwa [bottom, hsame, hcallers], fun hj => ?_⟩
      obtain ⟨label', t', hplaced⟩ := hplace (Instr.call.inj hj)
      cases hplaced.symm.trans hcallee

/-- A call that is due stays due until it has been made. -/
theorem Due.step (h : c.Due host Q index handle) (hc : c.step host = .next d) :
    d.Due host Q index handle := by
  by_cases hcallers : c.callers = []
  swap
  · obtain ⟨hcode, hlabels, hinst⟩ := bottom_of_step hcallers hc
    refine h.goOn hc ⟨hcode ▸ h.straight.code, hlabels ▸ h.straight.labels⟩ hinst fun hahead => .inr ?_
    unfold Frame.ahead at hahead ⊢
    rwa [hcode, hlabels]
  have hbottom : c.bottom = c.frame := by simp [bottom, hcallers]
  cases hcode : c.frame.code with
  | cons i rest =>
    obtain ⟨t, active, w, hstop⟩ | ⟨d', hd, hm, hmade⟩ := h.exec hcallers hcode
    · cases hstop.symm.trans hc
    · cases hd.symm.trans hc
      refine h.goOn hc (hm.straight (hbottom ▸ h.straight) hcode) ?_ fun hahead => ?_
      · rw [hbottom]
        cases hm <;> assumption
      · rcases hm.ahead hcode (hbottom ▸ hahead) with hahead | heq
        · exact .inr hahead
        · exact .inl (hmade heq.symm)
  | nil =>
    have hc' := hc
    simp only [Config.step, hcode] at hc'
    cases hlabels : c.frame.labels with
    | nil =>
      -- the function itself cannot return to another
      simp only [hlabels, leave, hcallers] at hc'
      split at hc' <;> cases hc'
    | cons label outer =>
      rw [hlabels] at hc'
      cases hc'
      have hrest : ∀ l ∈ label :: outer, jumpsAll l.rest = false :=
        hlabels ▸ (hbottom ▸ h.straight).labels
      have hd : bottom { c with frame := { c.frame with code := label.rest, labels := outer } } =
          { c.frame with code := label.rest, labels := outer } := by simp [bottom, hcallers]
      refine h.goOn hc ?_ (by rw [hd, hbottom]) fun hahead => .inr ?_
      · rw [hd]
        exact ⟨hrest label List.mem_cons_self, fun l hl => hrest l (List.mem_cons_of_mem _ hl)⟩
      · rw [hbottom, Frame.ahead, hlabels, List.getLast?_cons] at hahead
        rw [hd, Frame.ahead]
        cases hlast : outer.getLast? with
        | none => simpa [hlast] using hahead
        | some l => simpa [hlast] using hahead

/-- A function ends with values when nothing is ahead. -/
theorem Due.done (h : c.Due host Q index handle) {vs : List Int64} {s : Store η} {w : σ}
    (hc : c.step host = .stop (.done vs s w)) : Q w := by
  obtain ⟨hcallers, -⟩ := done_of_step hc
  have hbottom : c.bottom = c.frame := by simp [bottom, hcallers]
  cases hcode : c.frame.code with
  | cons i rest =>
    obtain ⟨t, active, w, hstop⟩ | ⟨d, hd, -, -⟩ := h.exec hcallers hcode
    · cases hstop.symm.trans hc
    · cases hd.symm.trans hc
  | nil =>
    simp only [Config.step, hcode] at hc
    cases hlabels : c.frame.labels with
    | nil =>
      have hQ : Q c.world := by
        refine h.due.resolve_right fun hahead => ?_
        rw [hbottom, Frame.ahead, hlabels, hcode] at hahead
        cases hahead
      simp only [hlabels, leave, hcallers] at hc
      split at hc
      · cases hc
      · cases hc
        exact hQ
    | cons label outer =>
      rw [hlabels] at hc
      cases hc

/-- A call that is due has been made when the run ends with values. -/
theorem Due.run (h : c.Due host Q index handle) {fuel : Nat} {vs : List Int64} {s : Store η} {w : σ}
    (hc : Config.run host fuel c = .done vs s w) : Q w := by
  induction fuel generalizing c with
  | zero => cases hc
  | succ fuel ih =>
    unfold Config.run at hc
    split at hc
    · rename_i d hd
      exact ih (h.step hd) hc
    · rename_i o ho
      subst hc
      exact h.done ho

end Config

end WasmLisp.Machine
