import Mathlib
import WasmLisp.Proofs.Service.Exchange

/-!
# The work on one connection

A reader takes requests from a connection and queues them, a processor answers them one by one, and the
work may be cancelled at any moment (`Handling.ReaderStep`, `Handling.ProcessorStep`, `Handling.Step`). What
holds however the steps are mixed is an invariant of the two, the queue and what was done so far
(`Handling.Sound`); from it follows that requests are answered in order, and each once
(`Handling.answers_in_order`).

A processor that is left alone does what `Server.processAll` does (`Handling.run_processAll`).
-/

namespace WasmLisp.Service

/-! ## One request -/

/-- A request is taken up. -/
def Connection.start (k : Connection) : Connection :=
  { k with requests := k.requests + 1 }.moveTo .compiling

/-- A request that was taken up is carried out. -/
def Connection.carryOut (k : Connection) (c : Compiler) (r : Request) : Connection × Response :=
  let out := dispatch k.session c r
  ({ k with session := out.1 }.moveTo (if out.2.2.isOk then .responding else .failing),
    answer r.id out.2.2)

theorem Server.process_eq_carryOut (sv : Server) (k : Connection) (r : Request) :
    (sv.process k r).2 = k.start.carryOut sv.compiler r := by
  unfold Server.process Connection.carryOut Connection.start
  generalize { k with requests := k.requests + 1 }.moveTo .compiling = k'
  dsimp only
  rcases dispatch k'.session sv.compiler r with ⟨session, compiler, e | response⟩ <;> rfl

theorem Connection.stage_moveTo (k : Connection) (stage : Stage) :
    (k.moveTo stage).stage = k.stage ∨ (k.moveTo stage).stage ∈ k.stage.next := by
  unfold moveTo
  split
  · rename_i h
    exact .inr (by simpa using h)
  · exact .inl rfl

theorem Connection.stage_moveTo_of_mem {k : Connection} {stage : Stage} (h : stage ∈ k.stage.next) :
    (k.moveTo stage).stage = stage := by
  unfold moveTo
  rw [if_pos (by simpa using h)]

/-- The response to a request, whatever the session and the compiler were. -/
def Response.Answers (response : Response) (r : Request) : Prop :=
  ∃ s c, response = answer r.id (dispatch s c r).2.2

theorem Response.Answers.id_eq {response : Response} {r : Request} (h : response.Answers r) :
    response.id = r.id := by
  obtain ⟨s, c, rfl⟩ := h
  exact Server.Attached.id_answer_dispatch s c r

/-- A request that is carried out is answered, and the connection is about to write the answer. -/
theorem Connection.carryOut_of_compiling {k : Connection} (h : k.stage = .compiling) (c : Compiler)
    (r : Request) : (k.carryOut c r).2.Answers r ∧
      ((k.carryOut c r).1.stage = .responding ∨ (k.carryOut c r).1.stage = .failing) := by
  refine ⟨⟨k.session, c, rfl⟩, ?_⟩
  unfold carryOut
  dsimp only
  split
  · exact .inl (stage_moveTo_of_mem (by simp [h, Stage.next]))
  · exact .inr (stage_moveTo_of_mem (by simp [h, Stage.next]))

/-- An idle connection is about to write the answer once it has processed a request. -/
theorem Server.idle_mem_next_process (sv : Server) {k : Connection} (h : k.stage = .idle) (r : Request) :
    .idle ∈ (sv.process k r).2.1.stage.next := by
  have hcompiling : k.start.stage = .compiling :=
    Connection.stage_moveTo_of_mem (by simp [h, Stage.next])
  rw [Server.process_eq_carryOut]
  rcases (Connection.carryOut_of_compiling hcompiling sv.compiler r).2 with hstage | hstage
  · rw [hstage]
    decide
  · rw [hstage]
    decide

/-! ## Reader and processor -/

/-- Where the reader stands. -/
inductive Handling.Reader where
  /-- It waits for a request. -/
  | decoding
  /-- It has a request to queue. -/
  | holding (r : Request)
  /-- What it got is no request. -/
  | baffled
  /-- It is about to say so. -/
  | complaining
  /-- It reads no more. -/
  | leaving
  /-- It has marked the client as gone. -/
  | parting
  /-- It has cancelled the work. -/
  | closing
  /-- It has closed the queue. -/
  | gone

/-- Why the processor takes no more requests. -/
inductive Handling.Departure where
  /-- The queue is closed and empty. -/
  | drained
  /-- The work was cancelled before the request was taken up. -/
  | dropped (r : Request)
  /-- The work was cancelled before the response was written. -/
  | discarded (r : Request)
  /-- The response could not be written. -/
  | unwritten (r : Request)
  /-- The connection could not become idle again. -/
  | confused

/-- Where the processor stands. -/
inductive Handling.Processor where
  /-- It waits for the queue. -/
  | waiting
  /-- It has taken a request from the queue. -/
  | holding (r : Request)
  /-- It saw that the work was not cancelled. -/
  | starting (r : Request)
  /-- The request is being carried out. -/
  | working (r : Request)
  /-- There is a response. -/
  | told (r : Request) (response : Response)
  /-- It saw again that the work was not cancelled. -/
  | writing (r : Request) (response : Response)
  | written
  | leaving (why : Handling.Departure)
  /-- It has cancelled the work. -/
  | closing (why : Handling.Departure)
  /-- It has closed the connection. -/
  | gone (why : Handling.Departure)

/-- The work on a connection, and what was done so far. -/
structure Handling where
  connection : Connection
  reader : Handling.Reader := .decoding
  processor : Handling.Processor := .waiting
  queue : List Request := []
  cancelled : Bool := false
  /-- The requests that were read. -/
  arrivals : List Request := []
  /-- The requests that were taken up. -/
  dispatched : List Request := []
  /-- What the processor wrote. -/
  answers : List Response := []
  /-- What the reader wrote. -/
  complaints : List Response := []

namespace Handling

/-- How many requests can be queued, if a number is asked for. -/
def room (asked : Nat) : Nat := if asked = 0 then 16 else asked

theorem room_pos (asked : Nat) : 0 < room asked := by
  unfold room
  split <;> omega

/-- What the reader does next. -/
inductive ReaderStep (asked : Nat) (x : Handling) : Handling → Prop where
  | read (r : Request) (h : x.reader = .decoding) :
      ReaderStep asked x { x with reader := .holding r, arrivals := x.arrivals ++ [r] }
  | enqueue {r : Request} (h : x.reader = .holding r) (hroom : x.queue.length < room asked) :
      ReaderStep asked x { x with reader := .decoding, queue := x.queue ++ [r] }
  | drop {r : Request} (h : x.reader = .holding r) (hcancelled : x.cancelled) :
      ReaderStep asked x { x with reader := .leaving }
  -- the client is gone, or the connection is closed
  | finish (h : x.reader = .decoding) : ReaderStep asked x { x with reader := .leaving }
  | stumble (h : x.reader = .decoding) : ReaderStep asked x { x with reader := .baffled }
  | look (h : x.reader = .baffled) :
      ReaderStep asked x { x with reader := if x.cancelled then .leaving else .complaining }
  | complain (h : x.reader = .complaining) :
      ReaderStep asked x
        { x with reader := .leaving, complaints := x.complaints ++ [Server.malformedFrame] }
  | complainInVain (h : x.reader = .complaining) : ReaderStep asked x { x with reader := .leaving }
  | disconnect (h : x.reader = .leaving) :
      ReaderStep asked x
        { x with reader := .parting, connection := { x.connection with disconnected := true } }
  | cancel (h : x.reader = .parting) :
      ReaderStep asked x { x with reader := .closing, cancelled := true }
  | close (h : x.reader = .closing) : ReaderStep asked x { x with reader := .gone }

/-- Why a request is refused that the connection is not ready for. -/
def illegalMove (k : Connection) (stage : Stage) : Failure :=
  .transport .protocolViolation
    s!"session {k.id}: illegal transition {k.stage.name} -> {stage.name}" none

/-- What the processor does next. While it carries a request out, the compiler is shared with other
connections. -/
inductive ProcessorStep (x : Handling) : Handling → Prop where
  | take {r : Request} {rest : List Request} (h : x.processor = .waiting) (hqueue : x.queue = r :: rest) :
      ProcessorStep x { x with processor := .holding r, queue := rest }
  | look {r : Request} (h : x.processor = .holding r) :
      ProcessorStep x
        { x with processor := if x.cancelled then .leaving (.dropped r) else .starting r }
  | start {r : Request} (h : x.processor = .starting r) (hready : .compiling ∈ x.connection.stage.next) :
      ProcessorStep x { x with
        processor := .working r, connection := x.connection.start
        dispatched := x.dispatched ++ [r] }
  | refuse {r : Request} (h : x.processor = .starting r) (hready : .compiling ∉ x.connection.stage.next) :
      ProcessorStep x { x with
        processor := .told r (.ofFailure r.id (illegalMove x.connection .compiling))
        connection := x.connection.start }
  | carryOut {r : Request} (h : x.processor = .working r) (c : Compiler) :
      ProcessorStep x { x with
        processor := .told r (x.connection.carryOut c r).2
        connection := (x.connection.carryOut c r).1 }
  | lookAgain {r : Request} {response : Response} (h : x.processor = .told r response) :
      ProcessorStep x
        { x with processor := if x.cancelled then .leaving (.discarded r) else .writing r response }
  | write {r : Request} {response : Response} (h : x.processor = .writing r response) :
      ProcessorStep x { x with processor := .written, answers := x.answers ++ [response] }
  | writeInVain {r : Request} {response : Response} (h : x.processor = .writing r response) :
      ProcessorStep x { x with processor := .leaving (.unwritten r) }
  | rest (h : x.processor = .written) (hready : .idle ∈ x.connection.stage.next) :
      ProcessorStep x { x with processor := .waiting, connection := x.connection.moveTo .idle }
  | confuse (h : x.processor = .written) (hready : .idle ∉ x.connection.stage.next) :
      ProcessorStep x { x with processor := .leaving .confused }
  | finish (h : x.processor = .waiting) (hqueue : x.queue = []) (hclosed : x.reader = .gone) :
      ProcessorStep x { x with processor := .leaving .drained }
  | cancel {why : Departure} (h : x.processor = .leaving why) :
      ProcessorStep x { x with processor := .closing why, cancelled := true }
  | close {why : Departure} (h : x.processor = .closing why) :
      ProcessorStep x { x with
        processor := .gone why, connection := { x.connection with stage := .closed } }

/-- What one of the two does next. -/
def Work (asked : Nat) (x y : Handling) : Prop := ReaderStep asked x y ∨ ProcessorStep x y

/-- What happens next. -/
inductive Step (asked : Nat) (x : Handling) : Handling → Prop where
  | work {y : Handling} (h : Work asked x y) : Step asked x y
  | cancel : Step asked x { x with cancelled := true }

/-- What may have happened after a while. -/
abbrev Run (asked : Nat) : Handling → Handling → Prop := Relation.ReflTransGen (Step asked)

/-! ## What always holds -/

/-- The request that the reader has still to queue. -/
def Reader.held : Reader → List Request
  | .holding r => [r]
  | _ => []

/-- Whether the reader may read another request. -/
def Reader.reads : Reader → Bool
  | .decoding | .holding _ => true
  | _ => false

/-- The reader complains once, and cancels the work before it is gone. -/
def Reader.Fits (complaints : List Response) (cancelled : Bool) : Reader → Prop
  | .decoding | .holding _ | .baffled | .complaining => complaints = []
  | .leaving | .parting => complaints = [] ∨ complaints = [Server.malformedFrame]
  | .closing | .gone =>
    (complaints = [] ∨ complaints = [Server.malformedFrame]) ∧ cancelled = true

/-- The request that was taken up and is left without an answer. -/
def Departure.unanswered : Departure → List Request
  | .discarded r | .unwritten r => [r]
  | _ => []

/-- The processor is never confused, and leaves requests without an answer for a cancellation only. -/
def Departure.Fits (cancelled : Bool) : Departure → Prop
  | .drained | .unwritten _ => True
  | .dropped _ | .discarded _ => cancelled = true
  | .confused => False

namespace Processor

/-- Whether the processor may take a request up. -/
def runs : Processor → Bool
  | .leaving _ | .closing _ | .gone _ => false
  | _ => true

/-- The request that was taken from the queue, but is not taken up. -/
def held : Processor → List Request
  | .holding r | .starting r => [r]
  | _ => []

/-- The request that was taken up, but is not answered. -/
def unanswered : Processor → List Request
  | .working r | .told r _ | .writing r _ => [r]
  | .leaving why | .closing why | .gone why => why.unanswered
  | _ => []

/-- The connection is in the stage of the processor, which has the right response. -/
def Fits (stage : Stage) (cancelled : Bool) : Processor → Prop
  | .waiting | .holding _ | .starting _ => stage = .idle
  | .working _ => stage = .compiling
  | .told r response | .writing r response =>
    (stage = .responding ∨ stage = .failing) ∧ response.Answers r
  | .written => stage = .responding ∨ stage = .failing
  | .leaving why => stage ≠ .closed ∧ why.Fits cancelled
  | .closing why => stage ≠ .closed ∧ why.Fits cancelled ∧ cancelled = true
  | .gone why => stage = .closed ∧ why.Fits cancelled ∧ cancelled = true

end Processor

/-- The requests stand in the order in which they came, and all that were taken up are answered but
the last. -/
structure Sound (x : Handling) : Prop where
  /-- A reader that leaves may lose the request that it has in hand. -/
  order : x.processor.runs = true → ∃ lost, (x.reader.reads = true → lost = []) ∧
    x.arrivals = x.dispatched ++ x.processor.held ++ x.queue ++ x.reader.held ++ lost
  begun : x.dispatched <+: x.arrivals
  answered : ∃ done, x.dispatched = done ++ x.processor.unanswered ∧
    List.Forall₂ Response.Answers x.answers done
  reader : x.reader.Fits x.complaints x.cancelled
  processor : x.processor.Fits x.connection.stage x.cancelled

variable {asked : Nat} {x y : Handling}

theorem sound_new {k : Connection} (h : k.stage = .idle) : Sound { connection := k } where
  order := fun _ => ⟨[], fun _ => rfl, rfl⟩
  begun := List.prefix_rfl
  answered := ⟨[], rfl, .nil⟩
  reader := rfl
  processor := h

/-! ### Cancellation -/

theorem Departure.Fits.cancel {cancelled : Bool} {why : Departure} (h : why.Fits cancelled) :
    why.Fits true := by
  cases why with
  | confused => exact h
  | drained | unwritten _ => trivial
  | dropped _ | discarded _ => rfl

theorem Sound.cancel (hx : x.Sound) : Sound { x with cancelled := true } where
  order := hx.order
  begun := hx.begun
  answered := hx.answered
  reader := by
    have hfits := hx.reader
    show x.reader.Fits x.complaints true
    cases hreader : x.reader <;> rw [hreader] at hfits
    case closing | gone => exact ⟨hfits.1, rfl⟩
    all_goals exact hfits
  processor := by
    have hfits := hx.processor
    show x.processor.Fits x.connection.stage true
    cases hprocessor : x.processor <;> rw [hprocessor] at hfits
    case leaving => exact ⟨hfits.1, hfits.2.cancel⟩
    case closing | gone => exact ⟨hfits.1, hfits.2.1.cancel, rfl⟩
    all_goals exact hfits

/-! ### The reader -/

theorem Reader.held_of_not_reads {reader : Reader} (h : reader.reads = false) : reader.held = [] := by
  cases reader with
  | decoding | holding r => cases h
  | baffled | complaining | leaving | parting | closing | gone => rfl

/-- A reader that reads no more does nothing to the requests but lose its own. -/
theorem Sound.withReader (hx : x.Sound) (reader : Reader) (complaints : List Response) (k : Connection)
    (hreads : reader.reads = false) (hfits : reader.Fits complaints x.cancelled)
    (hk : k.stage = x.connection.stage) :
    Sound { x with reader, complaints, connection := k } where
  order := by
    intro hruns
    obtain ⟨lost, -, harrivals⟩ := hx.order hruns
    refine ⟨x.reader.held ++ lost, fun h => ?_, ?_⟩
    · cases hreads.symm.trans h
    · show x.arrivals = x.dispatched ++ x.processor.held ++ x.queue ++ reader.held ++ _
      rw [Reader.held_of_not_reads hreads, List.append_nil, ← List.append_assoc]
      exact harrivals
  begun := hx.begun
  answered := hx.answered
  reader := hfits
  processor := by
    show x.processor.Fits k.stage x.cancelled
    rw [hk]
    exact hx.processor

theorem ReaderStep.sound (h : ReaderStep asked x y) (hx : x.Sound) : y.Sound := by
  have hfits := hx.reader
  cases h with
  | read r h =>
    rw [h] at hfits
    refine { hx with
      order := fun hruns => ?_, begun := hx.begun.trans (List.prefix_append ..), reader := hfits }
    obtain ⟨lost, hlost, harrivals⟩ := hx.order hruns
    rw [h] at hlost harrivals
    refine ⟨[], fun _ => rfl, ?_⟩
    simp [harrivals, hlost rfl, Reader.held]
  | enqueue h =>
    rw [h] at hfits
    refine { hx with order := fun hruns => ?_, reader := hfits }
    obtain ⟨lost, hlost, harrivals⟩ := hx.order hruns
    rw [h] at hlost harrivals
    refine ⟨[], fun _ => rfl, ?_⟩
    simp [harrivals, hlost rfl, Reader.held]
  | drop h | finish h | complainInVain h =>
    rw [h] at hfits
    exact hx.withReader .leaving x.complaints x.connection rfl (.inl hfits) rfl
  | stumble h =>
    rw [h] at hfits
    exact hx.withReader .baffled x.complaints x.connection rfl hfits rfl
  | look h =>
    rw [h] at hfits
    refine hx.withReader (if x.cancelled then .leaving else .complaining) x.complaints x.connection
      ?_ ?_ rfl
    · split <;> rfl
    · split
      · exact .inl hfits
      · exact hfits
  | complain h =>
    rw [h] at hfits
    refine hx.withReader .leaving (x.complaints ++ [Server.malformedFrame]) x.connection rfl ?_ rfl
    rw [show x.complaints = [] from hfits]
    exact .inr rfl
  | disconnect h =>
    rw [h] at hfits
    exact hx.withReader .parting x.complaints { x.connection with disconnected := true } rfl hfits rfl
  | cancel h =>
    rw [h] at hfits
    exact hx.cancel.withReader .closing x.complaints x.connection rfl ⟨hfits, rfl⟩ rfl
  | close h =>
    rw [h] at hfits
    exact hx.withReader .gone x.complaints x.connection rfl hfits rfl

/-! ### The processor -/

/-- A processor that takes no request, and writes no answer, leaves the requests alone. -/
theorem Sound.withProcessor (hx : x.Sound) (processor : Processor) (k : Connection)
    (hheld : processor.runs = true → x.processor.runs = true ∧ processor.held = x.processor.held)
    (hunanswered : processor.unanswered = x.processor.unanswered)
    (hfits : processor.Fits k.stage x.cancelled) :
    Sound { x with processor, connection := k } where
  order := by
    intro hruns
    obtain ⟨hruns', hheld'⟩ := hheld hruns
    obtain ⟨lost, hlost, harrivals⟩ := hx.order hruns'
    exact ⟨lost, hlost, hheld' ▸ harrivals⟩
  begun := hx.begun
  answered := by
    obtain ⟨done, hdispatched, hdone⟩ := hx.answered
    exact ⟨done, hunanswered ▸ hdispatched, hdone⟩
  reader := hx.reader
  processor := hfits

theorem ProcessorStep.sound (h : ProcessorStep x y) (hx : x.Sound) : y.Sound := by
  have hfits := hx.processor
  cases h with
  | @take r rest h hqueue =>
    rw [h] at hfits
    refine { hx with order := fun _ => ?_, answered := ?_, processor := hfits }
    · obtain ⟨lost, hlost, harrivals⟩ := hx.order (by rw [h]; rfl)
      rw [h, hqueue] at harrivals
      exact ⟨lost, hlost, by simp [harrivals, Processor.held]⟩
    · obtain ⟨done, hdispatched, hdone⟩ := hx.answered
      rw [h] at hdispatched
      exact ⟨done, hdispatched, hdone⟩
  | @look r h =>
    rw [h] at hfits
    have hstage : x.connection.stage = .idle := hfits
    by_cases hcancelled : x.cancelled
    · rw [if_pos hcancelled]
      exact hx.withProcessor (.leaving (.dropped r)) x.connection (fun hruns => nomatch hruns)
        (by rw [h]; rfl) ⟨by simp [hstage], hcancelled⟩
    · rw [if_neg hcancelled]
      exact hx.withProcessor (.starting r) x.connection (fun _ => by rw [h]; exact ⟨rfl, rfl⟩)
        (by rw [h]; rfl) hstage
  | @start r h hready =>
    have hstage : x.connection.start.stage = .compiling := Connection.stage_moveTo_of_mem hready
    obtain ⟨lost, hlost, harrivals⟩ := hx.order (by rw [h]; rfl)
    rw [h] at harrivals
    have hnow : x.arrivals = (x.dispatched ++ [r]) ++ (x.queue ++ x.reader.held ++ lost) := by
      simp [harrivals, Processor.held]
    refine ⟨fun _ => ⟨lost, hlost, ?_⟩, ?_, ?_, hx.reader, hstage⟩
    · simpa [Processor.held] using hnow
    · exact hnow ▸ List.prefix_append ..
    · -- all that was taken up before is answered
      obtain ⟨done, hdispatched, hdone⟩ := hx.answered
      rw [h] at hdispatched
      obtain rfl : x.dispatched = done := by simpa [Processor.unanswered] using hdispatched
      exact ⟨x.dispatched, rfl, hdone⟩
  | @refuse r h hready =>
    -- an idle connection is ready
    rw [h] at hfits
    have hstage : x.connection.stage = .idle := hfits
    rw [hstage] at hready
    exact absurd (by decide : Stage.compiling ∈ Stage.idle.next) hready
  | @carryOut r h c =>
    rw [h] at hfits
    obtain ⟨hanswers, hstage⟩ := Connection.carryOut_of_compiling hfits c r
    refine hx.withProcessor (.told r (x.connection.carryOut c r).2) (x.connection.carryOut c r).1
      (fun _ => ?_) ?_ ⟨hstage, hanswers⟩
    · rw [h]
      exact ⟨rfl, rfl⟩
    · rw [h]
      rfl
  | @lookAgain r response h =>
    rw [h] at hfits
    by_cases hcancelled : x.cancelled
    · rw [if_pos hcancelled]
      refine hx.withProcessor (.leaving (.discarded r)) x.connection (fun hruns => nomatch hruns)
        (by rw [h]; rfl) ⟨?_, hcancelled⟩
      rcases hfits.1 with hstage | hstage <;> simp [hstage]
    · rw [if_neg hcancelled]
      exact hx.withProcessor (.writing r response) x.connection
        (fun _ => by rw [h]; exact ⟨rfl, rfl⟩) (by rw [h]; rfl) hfits
  | @write r response h =>
    rw [h] at hfits
    refine { hx with order := fun _ => ?_, answered := ?_, processor := hfits.1 }
    · obtain ⟨lost, hlost, harrivals⟩ := hx.order (by rw [h]; rfl)
      rw [h] at harrivals
      exact ⟨lost, hlost, harrivals⟩
    · -- what was without an answer is answered now
      obtain ⟨done, hdispatched, hdone⟩ := hx.answered
      rw [h] at hdispatched
      refine ⟨x.dispatched, (List.append_nil _).symm, ?_⟩
      rw [hdispatched]
      exact List.rel_append hdone (.cons hfits.2 .nil)
  | @writeInVain r response h =>
    rw [h] at hfits
    refine hx.withProcessor (.leaving (.unwritten r)) x.connection (fun hruns => nomatch hruns)
      (by rw [h]; rfl) ⟨?_, trivial⟩
    rcases hfits.1 with hstage | hstage <;> simp [hstage]
  | rest h hready =>
    have hstage : (x.connection.moveTo .idle).stage = .idle := Connection.stage_moveTo_of_mem hready
    exact hx.withProcessor .waiting (x.connection.moveTo .idle) (fun _ => by rw [h]; exact ⟨rfl, rfl⟩)
      (by rw [h]; rfl) hstage
  | confuse h hready =>
    rw [h] at hfits
    rcases hfits with hstage | hstage
    all_goals
      rw [hstage] at hready
      exact absurd (by decide) hready
  | finish h =>
    rw [h] at hfits
    have hstage : x.connection.stage = .idle := hfits
    exact hx.withProcessor (.leaving .drained) x.connection (fun hruns => nomatch hruns)
      (by rw [h]; rfl) ⟨by simp [hstage], trivial⟩
  | @cancel why h =>
    rw [h] at hfits
    exact hx.cancel.withProcessor (.closing why) x.connection (fun hruns => nomatch hruns)
      (by show _ = x.processor.unanswered; rw [h]; rfl) ⟨hfits.1, hfits.2.cancel, rfl⟩
  | @close why h =>
    rw [h] at hfits
    exact hx.withProcessor (.gone why) { x.connection with stage := .closed }
      (fun hruns => nomatch hruns) (by rw [h]; rfl) ⟨rfl, hfits.2⟩

theorem Step.sound (h : Step asked x y) (hx : x.Sound) : y.Sound := by
  cases h with
  | work h =>
    rcases h with h | h
    · exact h.sound hx
    · exact h.sound hx
  | cancel => exact hx.cancel

theorem Sound.run (hx : x.Sound) (h : Run asked x y) : y.Sound := by
  induction h with
  | refl => exact hx
  | tail _ hstep ih => exact hstep.sound ih

/-! ## Single steps -/

/-- A connection goes from stage to stage as it may. -/
theorem Step.stage (h : Step asked x y) (hx : x.Sound) :
    y.connection.stage = x.connection.stage ∨ y.connection.stage ∈ x.connection.stage.next := by
  cases h with
  | cancel => exact .inl rfl
  | work h =>
    rcases h with h | h
    · cases h <;> exact .inl rfl
    cases h with
    | start | refuse =>
      exact Connection.stage_moveTo { x.connection with requests := x.connection.requests + 1 } _
    | @carryOut r h c =>
      exact Connection.stage_moveTo { x.connection with session := (dispatch x.connection.session c r).1 } _
    | rest => exact Connection.stage_moveTo x.connection _
    | close h =>
      have hfits := hx.processor
      rw [h] at hfits
      right
      show Stage.closed ∈ x.connection.stage.next
      cases hstage : x.connection.stage with
      | closed => exact absurd hstage hfits.1
      | idle | compiling | responding | failing => decide
    | take | look | lookAgain | write | writeInVain | confuse | finish | cancel => exact .inl rfl

/-- A request is taken up by an idle connection, when all before it are answered. -/
theorem Step.dispatched (h : Step asked x y) (hx : x.Sound) : y.dispatched = x.dispatched ∨
    ∃ r, x.processor = .starting r ∧ y.dispatched = x.dispatched ++ [r] ∧
      x.connection.stage = .idle ∧ y.connection.stage = .compiling ∧
      List.Forall₂ Response.Answers x.answers x.dispatched := by
  cases h with
  | cancel => exact .inl rfl
  | work h =>
    rcases h with h | h
    · cases h <;> exact .inl rfl
    cases h with
    | @start r h hready =>
      have hfits := hx.processor
      obtain ⟨done, hdispatched, hdone⟩ := hx.answered
      rw [h] at hfits hdispatched
      obtain rfl : x.dispatched = done := by simpa [Processor.unanswered] using hdispatched
      exact .inr ⟨r, h, rfl, hfits, Connection.stage_moveTo_of_mem hready, hdone⟩
    | take | look | refuse | carryOut | lookAgain | write | writeInVain | rest | confuse | finish
      | cancel | close => exact .inl rfl

/-- If the work is cancelled, a request is taken up only by a processor that had looked before. -/
theorem Step.dispatched_of_cancelled (h : Step asked x y) (hcancelled : x.cancelled = true)
    (hstarting : ∀ r, x.processor ≠ .starting r) :
    y.dispatched = x.dispatched ∧ y.cancelled = true ∧ ∀ r, y.processor ≠ .starting r := by
  cases h with
  | cancel => exact ⟨rfl, rfl, hstarting⟩
  | work h =>
    rcases h with h | h
    · cases h with
      | cancel => exact ⟨rfl, rfl, hstarting⟩
      | read | enqueue | drop | finish | stumble | look | complain | complainInVain | disconnect
        | close => exact ⟨rfl, hcancelled, hstarting⟩
    cases h with
    | look => exact ⟨rfl, hcancelled, by simp [hcancelled]⟩
    | lookAgain => exact ⟨rfl, hcancelled, by simp [hcancelled]⟩
    | start h | refuse h => exact absurd h (hstarting _)
    | cancel => exact ⟨rfl, rfl, by simp⟩
    | take | carryOut | write | writeInVain | rest | confuse | finish | close =>
      exact ⟨rfl, hcancelled, by simp⟩

theorem Run.dispatched_of_cancelled (h : Run asked x y) (hcancelled : x.cancelled = true)
    (hstarting : ∀ r, x.processor ≠ .starting r) :
    y.dispatched = x.dispatched ∧ y.cancelled = true ∧ ∀ r, y.processor ≠ .starting r := by
  induction h with
  | refl => exact ⟨rfl, hcancelled, hstarting⟩
  | tail _ hstep ih =>
    obtain ⟨hdispatched, hcancelled', hstarting'⟩ := ih
    obtain ⟨hsame, hthen⟩ := hstep.dispatched_of_cancelled hcancelled' hstarting'
    exact ⟨hsame.trans hdispatched, hthen⟩

/-! ## Nothing gets stuck -/

/-- A reader can go on unless the queue is full and the work is not cancelled. -/
theorem exists_readerStep (hgone : x.reader ≠ .gone)
    (hroom : ∀ r, x.reader = .holding r → x.cancelled = true ∨ x.queue.length < room asked) :
    ∃ y, ReaderStep asked x y := by
  cases h : x.reader with
  | gone => exact absurd h hgone
  | holding r =>
    rcases hroom r h with hcancelled | hroom
    · exact ⟨_, .drop h hcancelled⟩
    · exact ⟨_, .enqueue h hroom⟩
  | decoding => exact ⟨_, .finish h⟩
  | baffled => exact ⟨_, .look h⟩
  | complaining => exact ⟨_, .complain h⟩
  | leaving => exact ⟨_, .disconnect h⟩
  | parting => exact ⟨_, .cancel h⟩
  | closing => exact ⟨_, .close h⟩

/-- A processor can go on unless the queue is empty and not closed. -/
theorem exists_processorStep (hgone : ∀ why, x.processor ≠ .gone why)
    (hqueue : x.processor = .waiting → x.queue ≠ [] ∨ x.reader = .gone) : ∃ y, ProcessorStep x y := by
  cases h : x.processor with
  | gone why => exact absurd h (hgone why)
  | waiting =>
    cases hrest : x.queue with
    | cons r rest => exact ⟨_, .take h hrest⟩
    | nil =>
      rcases hqueue h with hne | hclosed
      · exact absurd hrest hne
      · exact ⟨_, .finish h hrest hclosed⟩
  | holding r => exact ⟨_, .look h⟩
  | starting r =>
    by_cases hready : .compiling ∈ x.connection.stage.next
    · exact ⟨_, .start h hready⟩
    · exact ⟨_, .refuse h hready⟩
  | working r => exact ⟨_, .carryOut h default⟩
  | told r response => exact ⟨_, .lookAgain h⟩
  | writing r response => exact ⟨_, .write h⟩
  | written =>
    by_cases hready : .idle ∈ x.connection.stage.next
    · exact ⟨_, .rest h hready⟩
    · exact ⟨_, .confuse h hready⟩
  | leaving why => exact ⟨_, .cancel h⟩
  | closing why => exact ⟨_, .close h⟩

/-- Unless both are gone, one of the two can go on. -/
theorem Sound.goes_on (hx : x.Sound) (asked : Nat) :
    ((∃ why, x.processor = .gone why) ∧ x.reader = .gone) ∨ ∃ y, Work asked x y := by
  by_cases hprocessor : ∃ why, x.processor = .gone why
  · by_cases hreader : x.reader = .gone
    · exact .inl ⟨hprocessor, hreader⟩
    · -- nobody takes from the queue any more, but the work is cancelled
      obtain ⟨why, hgone⟩ := hprocessor
      have hfits := hx.processor
      rw [hgone] at hfits
      obtain ⟨y, hy⟩ := @exists_readerStep asked _ hreader fun _ _ => .inl hfits.2.2
      exact .inr ⟨y, .inl hy⟩
  · by_cases hidle : x.processor = .waiting ∧ x.queue = [] ∧ x.reader ≠ .gone
    · -- the processor waits for the reader, which has all the room
      obtain ⟨-, hempty, hreader⟩ := hidle
      have hroom : x.queue.length < room asked := by
        rw [hempty]
        exact room_pos asked
      obtain ⟨y, hy⟩ := exists_readerStep hreader fun _ _ => .inr hroom
      exact .inr ⟨y, .inl hy⟩
    · have hqueue : x.processor = .waiting → x.queue ≠ [] ∨ x.reader = .gone := by
        intro hwaiting
        by_contra hboth
        rw [not_or, not_not] at hboth
        exact hidle ⟨hwaiting, hboth⟩
      obtain ⟨y, hy⟩ := exists_processorStep (fun why h => hprocessor ⟨why, h⟩) hqueue
      exact .inr ⟨y, .inr hy⟩

/-- How many steps a reader has left at most once the work is cancelled, with room in the queue. -/
def Reader.left (free : Nat) : Reader → Nat
  | .decoding => 2 * free + 8
  | .holding _ => 2 * free + 7
  | .baffled => 5
  | .complaining => 4
  | .leaving => 3
  | .parting => 2
  | .closing => 1
  | .gone => 0

/-- How many steps a processor has left at most once the work is cancelled. By taking a request it makes
room for another one. -/
def Processor.left : Processor → Nat
  | .writing _ _ => 9
  | .written => 8
  | .waiting => 7
  | .starting _ => 5
  | .working _ => 4
  | .holding _ | .told _ _ => 3
  | .leaving _ => 2
  | .closing _ => 1
  | .gone _ => 0

/-- How many steps both have left at most once the work is cancelled. -/
def left (asked : Nat) (x : Handling) : Nat :=
  x.processor.left + x.reader.left (room asked - x.queue.length)

theorem Reader.left_le (reader : Reader) {free free' : Nat} (h : free' ≤ free + 1) :
    reader.left free' ≤ reader.left free + 2 := by
  cases reader <;> simp only [Reader.left] <;> omega

theorem ReaderStep.left_lt (h : ReaderStep asked x y) (hcancelled : x.cancelled = true) :
    left asked y < left asked x := by
  unfold left
  cases h with
  | enqueue h hroom =>
    rw [h]
    simp only [Reader.left, List.length_append, List.length_singleton]
    omega
  | look h =>
    rw [h, if_pos hcancelled]
    simp only [Reader.left]
    omega
  | read _ h | drop h | finish h | stumble h | complain h | complainInVain h | disconnect h | cancel h
    | close h =>
    rw [h]
    simp only [Reader.left]
    omega

theorem ProcessorStep.left_lt (h : ProcessorStep x y) (hcancelled : x.cancelled = true)
    (asked : Nat) : left asked y < left asked x := by
  unfold left
  cases h with
  | @take r rest h hqueue =>
    rw [h, hqueue, List.length_cons]
    simp only [Processor.left]
    have hmore := x.reader.left_le
      (show room asked - rest.length ≤ room asked - (rest.length + 1) + 1 by omega)
    omega
  | look h | lookAgain h =>
    rw [h, if_pos hcancelled]
    simp only [Processor.left]
    omega
  | start h | refuse h | carryOut h | write h | writeInVain h | rest h | confuse h | finish h | cancel h
    | close h =>
    rw [h]
    simp only [Processor.left]
    omega

theorem Work.cancelled (h : Work asked x y) (hcancelled : x.cancelled = true) : y.cancelled = true := by
  rcases h with h | h
  · cases h <;> first | exact hcancelled | rfl
  · cases h <;> first | exact hcancelled | rfl

/-- Once the work is cancelled, reader and processor come to an end. -/
theorem acc_of_cancelled (asked : Nat) (hcancelled : x.cancelled = true) :
    Acc (fun after before => Work asked before after) x := by
  -- on the number of steps that are left, since none takes the cancellation back
  induction hleft : left asked x using Nat.strong_induction_on generalizing x with
  | _ n ih =>
    refine ⟨_, fun y hy => ?_⟩
    have hlt : left asked y < left asked x := by
      rcases hy with h | h
      · exact h.left_lt hcancelled
      · exact h.left_lt hcancelled asked
    exact ih _ (hleft ▸ hlt) (hy.cancelled hcancelled) rfl

/-! ## Without interruption -/

/-- A processor that is left alone answers the next request as the service does, with the compiler as the
service has it. -/
theorem run_process {r : Request} {rest : List Request} (hwaiting : x.processor = .waiting)
    (hqueue : x.queue = r :: rest) (hcancelled : x.cancelled = false)
    (hidle : x.connection.stage = .idle) (sv : Server) :
    Run asked x { x with
      processor := .waiting, queue := rest
      connection := (sv.process x.connection r).2.1.moveTo .idle
      dispatched := x.dispatched ++ [r], answers := x.answers ++ [(sv.process x.connection r).2.2] } := by
  have hready : .compiling ∈ x.connection.stage.next := by
    rw [hidle]
    decide
  have hrest := sv.idle_mem_next_process hidle r
  rw [Server.process_eq_carryOut] at hrest ⊢
  have htaken : Run asked x { x with processor := .holding r, queue := rest } :=
    .single (.work (.inr (.take hwaiting hqueue)))
  have hstarting : Run asked x { x with processor := .starting r, queue := rest } := by
    simpa [hcancelled] using htaken.tail (.work (.inr (.look rfl)))
  have hworking := hstarting.tail (.work (.inr (.start rfl hready)))
  have htold := hworking.tail (.work (.inr (.carryOut rfl sv.compiler)))
  have hwriting : Run asked x { x with
      processor := .writing r (x.connection.start.carryOut sv.compiler r).2, queue := rest
      connection := (x.connection.start.carryOut sv.compiler r).1
      dispatched := x.dispatched ++ [r] } := by
    simpa [hcancelled] using htold.tail (.work (.inr (.lookAgain rfl)))
  exact (hwriting.tail (.work (.inr (.write rfl)))).tail (.work (.inr (.rest rfl hrest)))

/-- A processor that is left alone answers what is queued as the service does. -/
theorem run_processAll (hwaiting : x.processor = .waiting) (hcancelled : x.cancelled = false)
    (hidle : x.connection.stage = .idle) (sv : Server) :
    Run asked x { x with
      processor := .waiting, queue := []
      connection := (sv.processAll x.connection x.queue).2.1
      dispatched := x.dispatched ++ x.queue
      answers := x.answers ++ (sv.processAll x.connection x.queue).2.2 } := by
  -- each request finds the connection and the compiler as the one before it left them
  induction hqueue : x.queue generalizing x sv with
  | nil =>
    simp only [Server.processAll, List.append_nil]
    rw [← hqueue, ← hwaiting]
  | cons r rest ih =>
    have hfirst := @run_process asked _ _ _ hwaiting hqueue hcancelled hidle sv
    have hidle' := Connection.stage_moveTo_of_mem (sv.idle_mem_next_process hidle r)
    let y : Handling := { x with
      processor := .waiting, queue := rest
      connection := (sv.process x.connection r).2.1.moveTo .idle
      dispatched := x.dispatched ++ [r], answers := x.answers ++ [(sv.process x.connection r).2.2] }
    have hothers := @ih y rfl hcancelled hidle' (sv.process x.connection r).1 rfl
    simpa [y, Server.processAll] using hfirst.trans hothers

/-! ## What is answered -/

/-- Why the processor leaves, if it does. -/
def Processor.departure? : Processor → Option Departure
  | .leaving why | .closing why | .gone why => some why
  | _ => none

/-- A request that was taken up is without an answer for as long as it takes, or because the work was
cancelled, or because the answer could not be written. -/
theorem Sound.unanswered (hx : x.Sound) : x.processor.unanswered = [] ∨
    ∃ r, x.processor.unanswered = [r] ∧ (x.processor.runs = true ∨
      x.processor.departure? = some (.discarded r) ∧ x.cancelled = true ∨
      x.processor.departure? = some (.unwritten r)) := by
  have hfits := hx.processor
  have hleft : ∀ why : Departure, why.Fits x.cancelled → why.unanswered = [] ∨
      ∃ r, why.unanswered = [r] ∧ (why = .discarded r ∧ x.cancelled = true ∨ why = .unwritten r) := by
    intro why hwhy
    cases why with
    | drained | dropped _ | confused => exact .inl rfl
    | discarded r => exact .inr ⟨r, rfl, .inl ⟨rfl, hwhy⟩⟩
    | unwritten r => exact .inr ⟨r, rfl, .inr rfl⟩
  cases h : x.processor with
  | waiting | holding _ | starting _ | written => exact .inl rfl
  | working r | told r _ | writing r _ => exact .inr ⟨r, rfl, .inl rfl⟩
  | leaving why | closing why | gone why =>
    rw [h] at hfits
    have hwhy : why.Fits x.cancelled := by
      first
      | exact hfits.2.1
      | exact hfits.2
    rcases hleft why hwhy with hnone | ⟨r, hone, ⟨rfl, hcancelled⟩ | rfl⟩
    · exact .inl hnone
    · exact .inr ⟨r, hone, .inr (.inl ⟨rfl, hcancelled⟩)⟩
    · exact .inr ⟨r, hone, .inr (.inr rfl)⟩

/-- However reader, processor and cancellation take turns on a new connection:

* the requests that were taken up are the first that arrived, each is answered under its number and in
  its turn, and none but the last is left without an answer, because its answer is being made, because the
  work was cancelled or because the answer could not be written;
* the reader writes one complaint at most, which has the number 0;
* the connection goes from stage to stage as it may, and is closed in the end; a request is taken up only
  when it is idle and all the others are answered;
* once the work is cancelled no request is taken up, unless the processor had looked just before;
* reader and processor go on until both are gone, and not for ever once the work is cancelled. -/
theorem answers_in_order {k : Connection} (hk : k.stage = .idle) (hrun : Run asked { connection := k } x) :
    x.dispatched <+: x.arrivals ∧
    (∃ done, x.dispatched = done ++ x.processor.unanswered ∧
      List.Forall₂ (fun response r => response.id = r.id ∧ response.Answers r) x.answers done) ∧
    (x.processor.unanswered = [] ∨ ∃ r, x.processor.unanswered = [r] ∧ (x.processor.runs = true ∨
      x.processor.departure? = some (.discarded r) ∧ x.cancelled = true ∨
      x.processor.departure? = some (.unwritten r))) ∧
    ((x.complaints = [] ∨ x.complaints = [Server.malformedFrame]) ∧ Server.malformedFrame.id = 0) ∧
    (∀ why, x.processor = .gone why → x.connection.stage = .closed) ∧
    (∀ y, Step asked x y →
      (y.connection.stage = x.connection.stage ∨ y.connection.stage ∈ x.connection.stage.next) ∧
      (y.dispatched = x.dispatched ∨ ∃ r, y.dispatched = x.dispatched ++ [r] ∧
        x.connection.stage = .idle ∧ y.connection.stage = .compiling ∧
        List.Forall₂ Response.Answers x.answers x.dispatched)) ∧
    (x.cancelled = true → (∀ r, x.processor ≠ .starting r) → ∀ y, Run asked x y →
      y.dispatched = x.dispatched) ∧
    (((∃ why, x.processor = .gone why) ∧ x.reader = .gone) ∨ ∃ y, Work asked x y) ∧
    (x.cancelled = true → Acc (fun after before => Work asked before after) x) := by
  have hx : x.Sound := (sound_new hk).run hrun
  refine ⟨hx.begun, ?answered, hx.unanswered, ⟨?complaints, Response.id_ofFailure 0 _⟩, ?closed, ?steps,
    ?cancelled, hx.goes_on asked, acc_of_cancelled asked⟩
  case answered =>
    obtain ⟨done, hdispatched, hdone⟩ := hx.answered
    exact ⟨done, hdispatched, hdone.imp fun _ _ h => ⟨h.id_eq, h⟩⟩
  case complaints =>
    have hfits := hx.reader
    cases h : x.reader <;> rw [h] at hfits
    case leaving | parting => exact hfits
    case closing | gone => exact hfits.1
    all_goals exact .inl hfits
  case closed =>
    intro why h
    have hfits := hx.processor
    rw [h] at hfits
    exact hfits.1
  case steps =>
    intro y hy
    refine ⟨hy.stage hx, ?_⟩
    rcases hy.dispatched hx with hsame | ⟨r, -, hmore⟩
    · exact .inl hsame
    · exact .inr ⟨r, hmore⟩
  case cancelled =>
    intro hcancelled hstarting y hy
    exact (hy.dispatched_of_cancelled hcancelled hstarting).1

/-- A ping with the number 7 is answered under that number. -/
theorem answers_in_order_ping : ∃ x : Handling, Run 0 { connection := default } x ∧
    x.dispatched.map (·.id) = [7] ∧ x.answers.map (·.id) = [7] := by
  let ping : Request := { op := "ping", id := 7 }
  have hread : Run 0 { connection := default }
      { connection := default, reader := .holding ping, arrivals := [ping] } :=
    .single (.work (.inl (.read ping rfl)))
  have hqueued := hread.tail (.work (.inl (.enqueue rfl (by decide))))
  have hrun := hqueued.trans (run_process rfl rfl rfl rfl default)
  obtain ⟨-, ⟨done, hdispatched, hdone⟩, -⟩ := answers_in_order rfl hrun
  obtain rfl : [ping] = done := by simpa [Processor.unanswered] using hdispatched
  refine ⟨_, hrun, rfl, ?_⟩
  cases hdone with
  | cons h => simpa using h.1

end Handling

end WasmLisp.Service
