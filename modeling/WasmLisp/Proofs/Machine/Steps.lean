import Mathlib
import WasmLisp.Machine.Run

/-!
# Runs of the machine, step by step

`Config.run` asks for fuel before it starts; the statements here are about the steps themselves.

* `Config.Parallel` says what a step can do. What it does depends on the store and the active frame
  alone (`parallel_step`), which is what lets a function be run with other functions below it.
* `Config.Steps` relates the beginning and the end of a number of steps, with what they show to an
  observer, and `Config.Ends` a beginning to an outcome.
* `Config.under` puts callers below a moment; `Steps.under` and `Ends.under` say that a function
  does below a caller what it does on its own, and then hands its values over.
-/

namespace WasmLisp.Machine

variable {η σ ε : Type}

/-! ## Stores that differ in values only -/

namespace Store

/-- The stores have the same functions and instances, and globals of the same types. -/
structure Alike (s t : Store η) : Prop where
  funcs : t.funcs = s.funcs
  instances : t.instances = s.instances
  types : t.globals.map Cell.type = s.globals.map Cell.type

theorem Alike.refl (s : Store η) : s.Alike s := ⟨rfl, rfl, rfl⟩

theorem Alike.trans {s t u : Store η} (h : s.Alike t) (h' : t.Alike u) : s.Alike u :=
  ⟨h'.funcs.trans h.funcs, h'.instances.trans h.instances, h'.types.trans h.types⟩

theorem Alike.size {s t : Store η} (h : s.Alike t) : t.globals.size = s.globals.size := by
  have hsize := congrArg Array.size h.types
  rwa [Array.size_map, Array.size_map] at hsize

theorem alike_setGlobal (s : Store η) (a : Nat) (v : Int64) : s.Alike (s.setGlobal a v) := by
  refine ⟨rfl, rfl, ?_⟩
  refine Array.ext (by simp [setGlobal]) fun i hi hi' => ?_
  simp only [setGlobal, Array.getElem_map, Array.getElem_modify]
  split <;> rfl

end Store

/-- The store that an outcome leaves. -/
def Outcome.store : Outcome η σ → Store η
  | .done _ s _ => s
  | .trap _ _ s _ => s
  | .outOfFuel s _ => s

/-- Whether a run has come to its end, and not only to the end of its fuel. -/
def Outcome.Final : Outcome η σ → Prop
  | .outOfFuel _ _ => False
  | _ => True

/-- Which function a frame belongs to, and how many values it gives. -/
def Frame.origin (f : Frame) : Nat × Nat := (f.address, f.results)

namespace Config

variable {host : HostCall η σ} {c d e : Config η σ}

/-- The active functions, the innermost first, and how many values they give. -/
def origins (c : Config η σ) : List (Nat × Nat) := c.frame.origin :: c.callers.map Frame.origin

theorem map_fst_origins (c : Config η σ) : c.origins.map Prod.fst = c.active := by
  simp [origins, active, Frame.origin, Function.comp_def]

/-! ## What a step can do -/

/-- Two moments take the same step: into a trap, on in the same function, out of it, into another
function, or past a write of a global. -/
inductive Parallel (host : HostCall η σ) (c d : Config η σ) : Step η σ → Step η σ → Prop where
  | trap (t : Trap) : Parallel host c d (c.trap t) (d.trap t)
  | goOn (f : Frame) (hf : f.origin = c.frame.origin) :
    Parallel host c d (c.goOn f) (d.goOn f)
  | leave (f : Frame) (hf : f.origin = c.frame.origin) :
    Parallel host c d ({ c with frame := f }.leave) ({ d with frame := f }.leave)
  | call (a : Nat) (rest : List Instr) : Parallel host c d (c.call host a rest) (d.call host a rest)
  | write (a : Nat) (v : Int64) (f : Frame) (hf : f.origin = c.frame.origin) :
    Parallel host c d (.next { c with store := c.store.setGlobal a v, frame := f })
      (.next { d with store := d.store.setGlobal a v, frame := f })

private theorem parallel_branch (f : Frame) (hf : f.origin = c.frame.origin) (l : Nat) :
    Parallel host c d ({ c with frame := f }.branch l) ({ d with frame := f }.branch l) := by
  unfold branch
  cases f.labels.drop l with
  | nil => exact .leave f hf
  | cons label outer =>
    exact .goOn { f with code := label.target, labels := outer,
                         stack := f.stack.take label.arity ++ label.below } hf

private theorem parallel_exec (hs : d.store = c.store) (hf : d.frame = c.frame) (i : Instr)
    (rest : List Instr) : Parallel host c d (c.exec host i rest) (d.exec host i rest) := by
  obtain ⟨store, world, frame, callers, depth, limit⟩ := d
  obtain rfl : store = c.store := hs
  obtain rfl : frame = c.frame := hf
  cases i with
  | unreachable => exact .trap _
  | nop | block | loop | localGet | i32Const | i64Const => exact .goOn _ rfl
  | br l => exact parallel_branch c.frame rfl l
  | ret => exact .leave c.frame rfl
  | call j =>
    have hj : funcAddress? { c with world, callers, depth, limit } j = c.funcAddress? j := rfl
    simp only [exec, hj]
    cases c.funcAddress? j with
    | none => exact .trap _
    | some a => exact .call a rest
  | globalGet j =>
    have hj : globalAddress? { c with world, callers, depth, limit } j = c.globalAddress? j := rfl
    simp only [exec, hj]
    cases c.globalAddress? j with
    | none => exact .trap _
    | some a => exact .goOn _ rfl
  | globalSet j =>
    have hj : globalAddress? { c with world, callers, depth, limit } j = c.globalAddress? j := rfl
    cases hst : c.frame.stack with
    | nil => simp only [exec, hst]; exact .trap _
    | cons v stack =>
      simp only [exec, hst, hj]
      cases c.globalAddress? j with
      | none => exact .trap _
      | some a => exact .write a v _ rfl
  | brIf l =>
    cases hst : c.frame.stack with
    | nil => simp only [exec, hst]; exact .trap _
    | cons v stack =>
      simp only [exec, hst]
      split
      · exact .goOn _ rfl
      · exact parallel_branch { c.frame with stack } rfl l
  | ifElse | drop | localSet | localTee | eqz | wrap | extendS | extendU =>
    cases hst : c.frame.stack with
    | nil => simp only [exec, hst]; exact .trap _
    | cons v stack => simp only [exec, hst]; exact .goOn _ rfl
  | rel w op =>
    rcases hst : c.frame.stack with _ | ⟨b, _ | ⟨a, stack⟩⟩
    · simp only [exec, hst]; exact .trap _
    · simp only [exec, hst]; exact .trap _
    · simp only [exec, hst]; exact .goOn _ rfl
  | bin w op =>
    rcases hst : c.frame.stack with _ | ⟨b, _ | ⟨a, stack⟩⟩
    · simp only [exec, hst]; exact .trap _
    · simp only [exec, hst]; exact .trap _
    · simp only [exec, hst]
      cases binary w op a b with
      | ok v => exact .goOn _ rfl
      | error t => exact .trap t
  | select =>
    rcases hst : c.frame.stack with _ | ⟨v, _ | ⟨b, _ | ⟨a, stack⟩⟩⟩
    · simp only [exec, hst]; exact .trap _
    · simp only [exec, hst]; exact .trap _
    · simp only [exec, hst]; exact .trap _
    · simp only [exec, hst]; exact .goOn _ rfl

/-- What a step does depends on the store and on the active frame alone. -/
theorem parallel_step (hs : d.store = c.store) (hf : d.frame = c.frame) :
    Parallel host c d (c.step host) (d.step host) := by
  unfold step
  rw [hf]
  cases c.frame.code with
  | cons i rest => exact parallel_exec hs hf i rest
  | nil =>
    cases c.frame.labels with
    | nil =>
      have hd : d.leave = { d with frame := c.frame }.leave := by rw [← hf]
      show Parallel host c d c.leave d.leave
      rw [hd]
      exact .leave c.frame rfl
    | cons label outer => exact .goOn { c.frame with code := label.rest, labels := outer } rfl

/-! ## What steps keep -/

/-- What a step that does not end the run keeps: stores stay alike, and the functions below the
active one stay where they are. -/
structure Continues (c d : Config η σ) : Prop where
  alike : c.store.Alike d.store
  limit : d.limit = c.limit
  origin : d.origins.getLast? = c.origins.getLast?
  depth : c.depth = c.callers.length + 1 → d.depth = d.callers.length + 1

theorem Continues.bottom (h : Continues c d) : d.active.getLast? = c.active.getLast? := by
  rw [← map_fst_origins, ← map_fst_origins, List.getLast?_map, List.getLast?_map, h.origin]

theorem continues_of_step (h : c.step host = .next d) : Continues c d := by
  have hp : Parallel host c c (c.step host) (c.step host) := parallel_step rfl rfl
  rw [h] at hp
  generalize hr : Step.next d = r at hp
  cases hp with
  | trap t => cases hr
  | goOn f hf =>
    cases hr
    exact ⟨.refl _, rfl, by simp [origins, hf], fun hd => hd⟩
  | leave f hf =>
    simp only [leave] at hr
    split at hr
    · cases hr
    · cases hc : c.callers with
      | nil => rw [hc] at hr; cases hr
      | cons caller outer =>
        rw [hc] at hr
        cases hr
        refine ⟨.refl _, rfl, by simp [origins, hc, Frame.origin], fun hd => ?_⟩
        simp only [hd, hc, List.length_cons, Nat.add_sub_cancel]
  | call a rest =>
    simp only [call] at hr
    split at hr
    · cases hr
    · split at hr
      · split at hr
        · cases hr
          exact ⟨.refl _, rfl, rfl, fun hd => hd⟩
        · cases hr
      · split at hr
        · cases hr
        · cases hr
          exact ⟨.refl _, rfl, by simp [origins, Frame.origin], fun hd => by simp [hd]⟩
  | write a v f hf =>
    cases hr
    exact ⟨Store.alike_setGlobal _ a v, rfl, by simp [origins, hf], fun hd => hd⟩

/-- The outcome of a step that ends the run: a store alike, and no lack of fuel. -/
theorem final_of_step {o : Outcome η σ} (h : c.step host = .stop o) :
    o.Final ∧ c.store.Alike o.store := by
  have hp : Parallel host c c (c.step host) (c.step host) := parallel_step rfl rfl
  rw [h] at hp
  generalize hr : Step.stop o = r at hp
  cases hp with
  | trap t => cases hr; exact ⟨trivial, .refl _⟩
  | goOn f hf => cases hr
  | leave f hf =>
    simp only [leave] at hr
    split at hr
    · cases hr; exact ⟨trivial, .refl _⟩
    · split at hr
      · cases hr; exact ⟨trivial, .refl _⟩
      · cases hr
  | call a rest =>
    simp only [call] at hr
    split at hr
    · cases hr; exact ⟨trivial, .refl _⟩
    · split at hr
      · split at hr
        · cases hr
        · cases hr; exact ⟨trivial, .refl _⟩
      · split at hr
        · cases hr; exact ⟨trivial, .refl _⟩
        · cases hr
  | write a v f hf => cases hr

/-- A function that ends the run with values gives as many as it says. -/
theorem done_of_step {vs : List Int64} {s : Store η} {w : σ}
    (h : c.step host = .stop (.done vs s w)) : c.callers = [] ∧ vs.length = c.frame.results := by
  have hp : Parallel host c c (c.step host) (c.step host) := parallel_step rfl rfl
  rw [h] at hp
  generalize hr : Step.stop (.done vs s w) = r at hp
  cases hp with
  | trap t => cases hr
  | goOn f hf => cases hr
  | leave f hf =>
    simp only [leave] at hr
    split at hr
    · cases hr
    · rename_i hlt
      split at hr
      · rename_i hc
        cases hr
        refine ⟨hc, ?_⟩
        rw [← show f.results = c.frame.results from congrArg Prod.snd hf]
        rw [List.length_take] at hlt
        rw [List.length_reverse, List.length_take]
        omega
      · cases hr
  | call a rest =>
    simp only [call] at hr
    split at hr
    · cases hr
    · split at hr
      · split at hr <;> cases hr
      · split at hr <;> cases hr
  | write a v f hf => cases hr

/-! ## Several steps -/

/-- A number of steps lead from one moment to another and show `tr`. -/
inductive Steps (host : HostCall η σ) (shows : Config η σ → List ε) :
    Nat → Config η σ → List ε → Config η σ → Prop where
  | refl (c : Config η σ) : Steps host shows 0 c [] c
  | head {k : Nat} {c d e : Config η σ} {tr : List ε} (h : c.step host = .next d)
    (hs : Steps host shows k d tr e) : Steps host shows (k + 1) c (shows c ++ tr) e

/-- A run from a moment ends with an outcome and shows `tr`, its last step included. -/
inductive Ends (host : HostCall η σ) (shows : Config η σ → List ε) :
    Config η σ → List ε → Outcome η σ → Prop where
  | stop {c : Config η σ} {o : Outcome η σ} (h : c.step host = .stop o) :
    Ends host shows c (shows c) o
  | head {c d : Config η σ} {tr : List ε} {o : Outcome η σ} (h : c.step host = .next d)
    (he : Ends host shows d tr o) : Ends host shows c (shows c ++ tr) o

/-- What a run of so many steps shows. -/
def trace (host : HostCall η σ) (shows : Config η σ → List ε) : Nat → Config η σ → List ε
  | 0, _ => []
  | fuel + 1, c =>
    match c.step host with
    | .next d => shows c ++ trace host shows fuel d
    | .stop _ => shows c

variable {shows : Config η σ → List ε} {k l fuel : Nat} {tr tr' : List ε} {o o' : Outcome η σ}

theorem Steps.one (h : c.step host = .next d) : Steps host shows 1 c (shows c) d := by
  have hs : Steps host shows 1 c (shows c ++ []) d := .head h (.refl d)
  rwa [List.append_nil] at hs

theorem Steps.trans (h : Steps host shows k c tr d) (h' : Steps host shows l d tr' e) :
    Steps host shows (k + l) c (tr ++ tr') e := by
  induction h with
  | refl c => simpa using h'
  | @head k _ _ _ _ h _ ih =>
    have hs := Steps.head h (ih h')
    rwa [← List.append_assoc, Nat.add_right_comm] at hs

theorem Steps.ends (h : Steps host shows k c tr d) (he : Ends host shows d tr' o) :
    Ends host shows c (tr ++ tr') o := by
  induction h with
  | refl c => exact he
  | head h _ ih =>
    rw [List.append_assoc]
    exact .head h (ih he)

theorem Steps.alike (h : Steps host shows k c tr d) : c.store.Alike d.store := by
  induction h with
  | refl c => exact .refl _
  | head h _ ih => exact (continues_of_step h).alike.trans ih

theorem Ends.alike (h : Ends host shows c tr o) : c.store.Alike o.store := by
  induction h with
  | stop h => exact (final_of_step h).2
  | head h _ ih => exact (continues_of_step h).alike.trans ih

/-- A run that ends with values gives as many as its first function says. -/
theorem Ends.length_done {vs : List Int64} {s : Store η} {w : σ}
    (h : Ends host shows c tr (.done vs s w)) :
    c.origins.getLast?.map Prod.snd = some vs.length := by
  generalize ho : Outcome.done vs s w = o at h
  induction h with
  | stop h =>
    subst ho
    obtain ⟨hc, hl⟩ := done_of_step h
    simp [origins, hc, hl, Frame.origin]
  | head h _ ih => rw [← ih ho, (continues_of_step h).origin]

/-- A run ends in one way only. -/
theorem Ends.unique (h : Ends host shows c tr o) (h' : Ends host shows c tr' o') :
    tr = tr' ∧ o = o' := by
  induction h generalizing tr' with
  | stop h =>
    cases h' with
    | stop h₂ => rw [h] at h₂; cases h₂; exact ⟨rfl, rfl⟩
    | head h₂ => rw [h] at h₂; cases h₂
  | head h _ ih =>
    cases h' with
    | stop h₂ => rw [h] at h₂; cases h₂
    | head h₂ he₂ =>
      rw [h] at h₂
      cases h₂
      obtain ⟨rfl, rfl⟩ := ih he₂
      exact ⟨rfl, rfl⟩

/-! ## Steps and fuel -/

theorem Ends.exists_fuel (h : Ends host shows c tr o) :
    ∃ fuel, run host fuel c = o ∧ trace host shows fuel c = tr := by
  induction h with
  | stop h => exact ⟨1, by simp only [run, h], by simp only [trace, h]⟩
  | head h _ ih =>
    obtain ⟨fuel, hr, ht⟩ := ih
    refine ⟨fuel + 1, ?_, ?_⟩
    · simp only [run, h, hr]
    · simp only [trace, h, ht]

theorem ends_of_run (h : run host fuel c = o) (ho : o.Final) :
    Ends host shows c (trace host shows fuel c) o := by
  induction fuel generalizing c with
  | zero => subst h; exact absurd ho id
  | succ fuel ih =>
    cases hs : c.step host with
    | next d =>
      simp only [run, hs] at h
      simp only [trace, hs]
      exact .head hs (ih h)
    | stop o' =>
      simp only [run, hs] at h
      simp only [trace, hs]
      subst h
      exact .stop hs

/-- Fuel that lets a run end gives the run's one outcome. -/
theorem exists_fuel_iff_ends (ho : o.Final) :
    (∃ fuel, run host fuel c = o ∧ trace host shows fuel c = tr) ↔ Ends host shows c tr o := by
  constructor
  · rintro ⟨fuel, hr, rfl⟩
    exact ends_of_run hr ho
  · exact Ends.exists_fuel

/-- Steps that do not end a run are fewer than the fuel with which it ends. -/
theorem Steps.lt_fuel (h : Steps host shows k c tr d) (hr : run host fuel c = o)
    (ho : o.Final) : k < fuel := by
  induction h generalizing fuel with
  | refl c =>
    cases fuel with
    | zero => subst hr; exact absurd ho id
    | succ fuel => omega
  | head h _ ih =>
    cases fuel with
    | zero => subst hr; exact absurd ho id
    | succ fuel =>
      simp only [run, h] at hr
      have := ih hr
      omega

/-- A run that is out of fuel has taken as many steps as there was fuel. -/
theorem exists_steps_of_outOfFuel (shows : Config η σ → List ε) {s : Store η} {w : σ}
    (h : run host fuel c = .outOfFuel s w) :
    ∃ tr d, Steps host shows fuel c tr d := by
  induction fuel generalizing c with
  | zero => exact ⟨[], c, .refl c⟩
  | succ fuel ih =>
    cases hs : c.step host with
    | next d =>
      simp only [run, hs] at h
      obtain ⟨tr, e, he⟩ := ih h
      exact ⟨_, e, .head hs he⟩
    | stop o =>
      simp only [run, hs] at h
      subst h
      exact absurd (final_of_step hs).1 id

/-! ## Functions below the active ones -/

/-- The same moment with further functions below it: `caller`, which goes on when all functions
above it have ended, then `outer`; `n` counts them. -/
def under (caller : Frame) (outer : List Frame) (n : Nat) (c : Config η σ) : Config η σ :=
  { c with callers := c.callers ++ caller :: outer, depth := c.depth + n }

/-- The moment at which a caller goes on with the values of the function that it called. -/
def resume (caller : Frame) (outer : List Frame) (n : Nat) (values : List Int64) (s : Store η)
    (w : σ) : Config η σ :=
  { store := s, world := w, frame := { caller with stack := values.reverse ++ caller.stack }
    callers := outer, depth := n, limit := none }

/-- A step with further functions below. -/
def stepUnder (caller : Frame) (outer : List Frame) (n : Nat) : Step η σ → Step η σ
  | .next d => .next (d.under caller outer n)
  | .stop (.done vs s w) => .next (resume caller outer n vs s w)
  | .stop (.trap t active s w) =>
    .stop (.trap t (active ++ (caller :: outer).map (·.address)) s w)
  | .stop (.outOfFuel s w) => .stop (.outOfFuel s w)

variable {caller : Frame} {outer : List Frame} {n : Nat}

private theorem leave_under (hl : c.limit = none) (hd : c.depth = c.callers.length + 1) :
    (c.under caller outer n).leave = stepUnder caller outer n c.leave := by
  obtain ⟨store, world, frame, callers, depth, limit⟩ := c
  simp only at hl hd
  subst hl hd
  by_cases h : (frame.stack.take frame.results).length < frame.results
  · simp only [leave, under, h, if_true, stepUnder, trap, active, List.map_append]
    rfl
  · simp only [leave, under, h, if_false]
    cases callers with
    | nil =>
      simp only [stepUnder, resume, List.nil_append, List.reverse_reverse, List.length_nil]
      congr 2
      omega
    | cons f callers =>
      simp only [List.cons_append, stepUnder, under, List.length_cons]
      congr 2
      omega

private theorem call_under (hl : c.limit = none) (a : Nat) (rest : List Instr) :
    (c.under caller outer n).call host a rest = stepUnder caller outer n (c.call host a rest) := by
  have hf : c.isFull = false := by simp only [isFull, hl]
  have hf' : (c.under caller outer n).isFull = false := by simp only [isFull, under, hl]
  simp only [call, hf, hf']
  cases hs : c.store.funcs[a]? with
  | none => simp [under, hs, trap, active, stepUnder]
  | some callee =>
    cases callee with
    | host handle label t =>
      simp only [under, hs]
      cases hostAnswer t (host handle _ c.world).2 with
      | ok vs => simp [stepUnder, under]
      | error cause => simp [stepUnder, active]
    | code inst index t locals body =>
      simp [under, hs, stepUnder, Nat.add_right_comm]

/-- A function does below others what it does on its own, until it hands its values over. -/
theorem step_under (hl : c.limit = none) (hd : c.depth = c.callers.length + 1) :
    (c.under caller outer n).step host = stepUnder caller outer n (c.step host) := by
  have hp : Parallel host c (c.under caller outer n) (c.step host)
      ((c.under caller outer n).step host) := parallel_step rfl rfl
  generalize c.step host = r, (c.under caller outer n).step host = r' at hp
  cases hp with
  | trap t => simp [trap, active, under, stepUnder]
  | goOn f hf => rfl
  | leave f hf => exact @leave_under _ _ { c with frame := f } _ _ _ hl hd
  | call a rest => exact call_under hl a rest
  | write a v f hf => rfl

section Quiet

/-! An observer that is interested in the functions below only sees nothing of what runs above. -/

variable {b : Option Nat} (quiet : ∀ c : Config η σ, c.active.getLast? = b →
  shows (c.under caller outer n) = [])

include quiet

private theorem head_under {q : Config η σ} (hl : c.limit = none)
    (hd : c.depth = c.callers.length + 1) (hb : c.active.getLast? = b)
    (h : stepUnder caller outer n (c.step host) = .next q) (hs : Steps host shows k q [] e) :
    Steps host shows (k + 1) (c.under caller outer n) [] e := by
  have hc : (c.under caller outer n).step host = .next q := (step_under hl hd).trans h
  have hh := Steps.head hc hs
  rwa [quiet c hb] at hh

theorem Steps.under (h : Steps host (fun _ => ([] : List ε)) k c tr d) (hl : c.limit = none)
    (hd : c.depth = c.callers.length + 1) (hb : c.active.getLast? = b) :
    Steps host shows k (c.under caller outer n) [] (d.under caller outer n) := by
  induction h with
  | refl c => exact .refl _
  | head h _ ih =>
    have hc := continues_of_step h
    have hs := ih (hc.limit.trans hl) (hc.depth hd) (hc.bottom.trans hb)
    exact head_under quiet hl hd hb (by rw [h]; rfl) hs

/-- A function that ends with values hands them over to its caller. -/
theorem Ends.under_done {vs : List Int64} {s : Store η} {w : σ}
    (h : Ends host (fun _ => ([] : List ε)) c tr (.done vs s w)) (hl : c.limit = none)
    (hd : c.depth = c.callers.length + 1) (hb : c.active.getLast? = b) :
    ∃ k, Steps host shows (k + 1) (c.under caller outer n) [] (resume caller outer n vs s w) := by
  generalize ho : Outcome.done vs s w = o at h
  induction h with
  | stop h =>
    subst ho
    exact ⟨0, head_under quiet hl hd hb (by rw [h]; rfl) (.refl _)⟩
  | head h _ ih =>
    have hc := continues_of_step h
    obtain ⟨k, hs⟩ := ih (hc.limit.trans hl) (hc.depth hd) (hc.bottom.trans hb) ho
    exact ⟨k + 1, head_under quiet hl hd hb (by rw [h]; rfl) hs⟩

/-- The trap of a function is that of its caller. -/
theorem Ends.under_trap {t : Trap} {active : List Nat} {s : Store η} {w : σ}
    (h : Ends host (fun _ => ([] : List ε)) c tr (.trap t active s w)) (hl : c.limit = none)
    (hd : c.depth = c.callers.length + 1) (hb : c.active.getLast? = b) :
    ∃ active', Ends host shows (c.under caller outer n) [] (.trap t active' s w) := by
  generalize ho : Outcome.trap t active s w = o at h
  induction h with
  | stop h =>
    subst ho
    have hs := (step_under hl hd).trans (congrArg (stepUnder caller outer n) h)
    have he : Ends host shows _ _ _ := .stop hs
    rw [quiet _ hb] at he
    exact ⟨_, he⟩
  | head h _ ih =>
    have hc := continues_of_step h
    obtain ⟨active', he⟩ := ih (hc.limit.trans hl) (hc.depth hd) (hc.bottom.trans hb) ho
    have hs := (step_under hl hd).trans (congrArg (stepUnder caller outer n) h)
    have hh := Ends.head hs he
    rw [quiet _ hb] at hh
    exact ⟨active', hh⟩

end Quiet

end Config

/-! ## Results of functions -/

/-- A function that comes back gives as many values as its type says. -/
theorem length_of_invoke_done {host : HostCall η σ} {s s' : Store η} {w w' : σ} {a : Nat}
    {args vs : List Int64} (h : invoke host s w a args = .done vs s' w') :
    ∃ f, s.funcs[a]? = some f ∧ vs.length = f.type.results.length := by
  unfold invoke invokeWithin at h
  split at h
  · cases h
  · rename_i handle _ t hf
    refine ⟨_, hf, ?_⟩
    dsimp only at h
    split at h
    · rename_i values hanswer
      cases h
      unfold hostAnswer at hanswer
      split at hanswer
      · split at hanswer
        · rename_i hlength
          cases hanswer
          exact hlength
        · cases hanswer
      · cases hanswer
    · cases h
  · rename_i inst _ t locals body hf
    refine ⟨_, hf, ?_⟩
    -- the last frame that ends is that of the function itself
    have hends : Config.Ends host (fun _ => ([] : List Unit)) _ _ _ := Config.ends_of_run h trivial
    have hlength := hends.length_done
    simp only [Config.origins, List.map_nil, List.getLast?_singleton, Option.map_some,
      Option.some.injEq] at hlength
    exact hlength.symm

end WasmLisp.Machine
