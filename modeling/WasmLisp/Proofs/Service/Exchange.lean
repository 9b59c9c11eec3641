import Mathlib
import WasmLisp.Service.Runner
import WasmLisp.Proofs.Service.Message
import WasmLisp.Proofs.Session.Reported

/-!
# One request and its response

What a client that asks the service gets to know is what the session answered, if the connection holds:
neither side took a message for something else, and nothing was given up (`Attached.ask`). It holds if
both messages are within the limits (`Attached.up_ask`).
-/

namespace WasmLisp.Service

open Result (RelUpTo Reports)

/-! ## Answers -/

/-- The response that tells how a request was carried out. -/
def answer (id : Nat) : Result Response → Response
  | .ok r => r
  | .error e => .ofFailure id e

theorem Response.id_ofFailure (id : Nat) (e : Failure) : (Response.ofFailure id e).id = id := by
  unfold Response.ofFailure
  split <;> rfl

theorem id_answer {id : Nat} {out : Result Response} (h : ∀ r, out = .ok r → r.id = id) :
    (answer id out).id = id := by
  cases out with
  | ok r => exact h r rfl
  | error e => exact Response.id_ofFailure id e

/-- A failure keeps its phase and kind on the way, if it has any. -/
theorem outcome_answer {out : Result Response} (hok : ∀ r, out = .ok r → r.op ≠ errorOp)
    (hreports : Reports out) (id : Nat) :
    RelUpTo Failure.SameSort Eq out (answer id out).outcome := by
  cases out with
  | ok r =>
    have hop := hok r rfl
    unfold answer Response.outcome Response.failure?
    rw [if_neg hop]
    rfl
  | error e =>
    have hsome := Reports.error.mp hreports
    unfold Failure.sort at hsome
    show RelUpTo Failure.SameSort Eq (.error e) (Response.ofFailure id e).outcome
    unfold Response.ofFailure
    cases hreport : e.report? with
    | none =>
      rw [hreport] at hsome
      cases hsome
    | some found =>
      obtain ⟨r, cause⟩ := found
      show e.sort = _
      unfold Failure.sort
      rw [hreport]
      rfl

section

variable (s : Session) (c : Compiler) (r : Request)

/-- A response that is no failure has the number of its request. -/
theorem dispatch_eq_ok {response : Response} (h : (dispatch s c r).2.2 = .ok response) :
    response.id = r.id ∧ response.op ≠ errorOp := by
  unfold dispatch at h
  split at h
  · cases h
    exact ⟨rfl, (by decide : "pong" ≠ "error")⟩
  split at h
  · cases h
  split at h
  · cases h
  · dsimp only at h
    split at h
    · unfold compileFor at h
      split at h
      · cases h
      · dsimp only at h
        cases hout : (Session.compile (s.switchTo r.ns) c r.module r.source).2.2 with
        | error e =>
          rw [hout] at h
          cases h
        | ok m =>
          rw [hout] at h
          cases h
          exact ⟨rfl, (by decide : "compiled" ≠ "error")⟩
    · unfold requireFor at h
      dsimp only at h
      generalize (Session.require (s.switchTo r.ns) c _ r.source).2.2 = out at h
      cases out with
      | error e => cases h
      | ok q =>
        cases h
        exact ⟨rfl, (by decide : "required" ≠ "error")⟩

/-- A request that is not carried out fails with a report. -/
theorem reports_dispatch : Reports (dispatch s c r).2.2 := by
  have hrefusal : ∀ e, targetRefusal? s r = some e → e.sort.isSome := by
    intro e he
    unfold targetRefusal? at he
    split at he
    · cases he
    · split at he
      · cases he
      · cases he
        rfl
  unfold dispatch
  split
  · exact .ok _
  split
  · exact Reports.error.mpr rfl
  split
  · rename_i e he
    exact Reports.error.mpr (hrefusal e he)
  · dsimp only
    split
    · unfold compileFor
      split
      · exact Reports.error.mpr rfl
      · exact (Session.reports_compile _ c _ _).map
    · exact (Session.reports_require _ c _ _).map

end

/-! ## The service -/

namespace Server

variable {sv : Server} {id : Nat} {s : Session} {c : Compiler}

/-- The connection is open, with the session and no bytes of a request that is not complete. -/
structure Attached (sv : Server) (id : Nat) (s : Session) (c : Compiler) : Prop where
  compiler : sv.compiler = c
  connection : ∃ k, sv.connection? id = some k ∧ k.session = s ∧ k.unread = []

theorem moveTo_eq (k : Connection) (stage : Stage) :
    ∃ stage', k.moveTo stage = { k with stage := stage' } := by
  unfold Connection.moveTo
  split
  · exact ⟨stage, rfl⟩
  · exact ⟨k.stage, rfl⟩

theorem process_eq (sv : Server) (k : Connection) (r : Request) :
    let out := dispatch k.session sv.compiler r
    ∃ metrics stage, sv.process k r = ({ sv with compiler := out.2.1, metrics },
      { k with requests := k.requests + 1, session := out.1, stage }, answer r.id out.2.2) := by
  obtain ⟨stage, hstage⟩ := moveTo_eq { k with requests := k.requests + 1 } .compiling
  unfold process
  rw [hstage]
  dsimp only
  rcases dispatch k.session sv.compiler r with ⟨session, compiler, e | response⟩
  · dsimp only
    obtain ⟨stage', hstage'⟩ := moveTo_eq
      { k with requests := k.requests + 1, session, stage := stage } .failing
    exact ⟨_, stage', Prod.ext rfl (Prod.ext hstage' rfl)⟩
  · dsimp only
    obtain ⟨stage', hstage'⟩ := moveTo_eq
      { k with requests := k.requests + 1, session, stage := stage } .responding
    exact ⟨_, stage', Prod.ext rfl (Prod.ext hstage' rfl)⟩

/-- The one connection of a number is found as it is put in place. -/
theorem find?_map_replace {ks : List Connection} {k k' : Connection}
    (h : ks.find? (·.id == id) = some k) (hk : k'.id = id) :
    (ks.map fun c => if c.id == id then k' else c).find? (·.id == id) = some k' := by
  induction ks with
  | nil => cases h
  | cons c ks ih =>
    rw [List.map_cons]
    cases hc : c.id == id with
    | true => simp only [if_true, List.find?_cons, hk, beq_self_eq_true]
    | false =>
      simp only [List.find?_cons, hc] at h
      simp only [Bool.false_eq_true, if_false, List.find?_cons, hc, ih h]

section

variable (h : Attached sv id s c) (r : Request)
include h

theorem Attached.find?_replace : ∃ k, sv.connection? id = some k ∧ k.session = s ∧ k.unread = [] ∧
    ∀ k', k'.id = k.id →
      (sv.connections.map fun c => if c.id == id then k' else c).find? (·.id == id) = some k' := by
  obtain ⟨-, k, hk, hsession, hunread⟩ := h
  have hid : k.id = id := by simpa using List.find?_some hk
  exact ⟨k, hk, hsession, hunread, fun k' hk' => find?_map_replace hk (hk'.trans hid)⟩

/-- A request that is received is answered as the session answers it. -/
theorem Attached.receive_of_received
    (hgot : Service.receive Request.ofCbor r.encode = { messages := [r] }) :
    ∃ sv', sv.receive id r.encode = (sv', [answer r.id (dispatch s c r).2.2]) ∧
      Attached sv' id (dispatch s c r).1 (dispatch s c r).2.1 := by
  obtain ⟨k, hk, rfl, hunread, hreplace⟩ := h.find?_replace
  obtain rfl := h.compiler
  obtain ⟨metrics, stage, hprocess⟩ := process_eq sv { k with unread := [] } r
  obtain ⟨stage', hstage⟩ := moveTo_eq { k with
    requests := k.requests + 1, session := (dispatch k.session sv.compiler r).1
    unread := [], stage } .idle
  unfold Server.receive
  rw [hk]
  dsimp only
  rw [hunread, List.nil_append, hgot]
  dsimp only [Server.processAll]
  rw [hprocess]
  dsimp only
  rw [hstage]
  exact ⟨_, rfl, rfl, _, hreplace _ rfl, rfl, rfl⟩

/-- A request is answered as the session answers it, or it is not understood, or not complete. -/
theorem Attached.receive :
    (∃ sv', sv.receive id r.encode = (sv', [answer r.id (dispatch s c r).2.2]) ∧
      Attached sv' id (dispatch s c r).1 (dispatch s c r).2.1) ∨
    (∃ sv', sv.receive id r.encode = (sv', [malformedFrame]) ∧ sv'.connection? id = none) ∨
    ∃ sv', sv.receive id r.encode = (sv', []) ∧ (sv'.connection? id).isSome := by
  obtain hgot | hgot | hgot := receive_encode Request.recovers r.regular_toCbor
  · exact .inl (h.receive_of_received r hgot)
  all_goals
    obtain ⟨k, hk, -, hunread, hreplace⟩ := h.find?_replace
    unfold Server.receive
    rw [hk]
    dsimp only
    rw [hunread, List.nil_append, Request.encode, hgot]
    dsimp only [Server.processAll]
  · refine .inr (.inl ⟨_, rfl, ?_⟩)
    unfold connection? hangUp withConnections
    rw [List.find?_eq_none]
    intro c hc
    simpa using (List.mem_filter.mp hc).2
  · refine .inr (.inr ⟨_, rfl, ?_⟩)
    exact Option.isSome_iff_exists.mpr ⟨_, hreplace { k with unread := r.toCbor.encode } rfl⟩

end

end Server

/-! ## The client -/

namespace Client

/-- Nothing went wrong on the connection, and nothing was given up. -/
structure Up (c : Client) : Prop where
  failure : c.failure = none
  abandoned : c.abandoned = []

instance (c : Client) : Decidable c.Up :=
  decidable_of_iff (c.failure.isNone ∧ c.abandoned = [])
    ⟨fun h => ⟨Option.isNone_iff_eq_none.mp h.1, h.2⟩,
      fun h => ⟨Option.isNone_iff_eq_none.mpr h.failure, h.abandoned⟩⟩

/-- Nothing is under way. -/
structure Idle (c : Client) : Prop extends Up c where
  pending : c.pending = []
  unread : c.unread = []

variable {c : Client}

theorem isSome_failure_fail (c : Client) (e : Failure) : (c.fail e).failure.isSome := by
  unfold fail
  cases h : c.failure with
  | none => rfl
  | some e' =>
    dsimp only
    rw [h]
    rfl

/-- A connection that has ended stays so. -/
theorem isSome_failure_hear (h : c.failure.isSome) (events : List Event) :
    (c.hear events).1.failure.isSome := by
  induction events generalizing c with
  | nil => exact h
  | cons event events ih =>
    cases event with
    | closed => exact ih (isSome_failure_fail c _)
    | bytes data =>
      have hreceive : c.receive data = (c, []) := if_pos h
      rw [hear, hreceive]
      exact ih h

theorem isSome_failure_of_closed {events : List Event} (h : .closed ∈ events) :
    (c.hear events).1.failure.isSome := by
  induction events generalizing c with
  | nil => cases h
  | cons event events ih =>
    cases event with
    | closed => exact isSome_failure_hear (isSome_failure_fail c _) events
    | bytes data =>
      have hrest : .closed ∈ events := by simpa using h
      exact ih hrest

variable {r : Request} {responses : List Response} {d : Duration}

theorem not_up_finish_of_failure (h : c.failure.isSome) :
    ¬ (c.finish r responses (.timeout d)).1.Up := by
  intro hup
  obtain ⟨e, he⟩ := Option.isSome_iff_exists.mp h
  have hkept : (c.finish r responses (.timeout d)).1 = c := by
    unfold finish
    rw [he]
    cases responses.find? (·.id == r.id) <;> rfl
  rw [hkept] at hup
  cases hup.failure.symm.trans he

/-- A request that waits in vain is given up. -/
theorem not_up_finish_of_pending (hpending : r.id ∈ c.pending) (hfailure : c.failure = none) :
    ¬ (c.finish r [] (.timeout d)).1.Up := by
  intro hup
  have habandoned := hup.abandoned
  simp only [finish, List.find?_nil, hfailure, giveUp, forget] at habandoned
  simp [hpending] at habandoned

/-- A client that is idle sends a request under the next number. -/
theorem Idle.send (h : c.Idle) (r : Request) :
    c.send r = ({ c with issued := c.issued + 1, pending := [c.issued + 1] },
      .ok { r with id := c.issued + 1 }) := by
  simp [Client.send, h.failure, h.pending]

section

variable {c : Client} {id : Nat} {response : Response} (h : c.Up) (hunread : c.unread = [])
  (hpending : c.pending = [id]) (hid : response.id = id)
include h hunread hpending hid

/-- A response that is received is taken. -/
theorem take_response
    (hgot : Service.receive Response.ofCbor response.encode = { messages := [response] }) :
    c.receive response.encode = ({ c with pending := [] }, [response]) := by
  obtain ⟨hfailure, habandoned⟩ := h
  unfold Client.receive
  rw [hfailure, hunread, List.nil_append, hgot]
  simp [takeAll, take, habandoned, hpending, hid, ← hunread]

/-- A response is taken, or it is not understood, or not complete. -/
theorem receive_response :
    c.receive response.encode = ({ c with pending := [] }, [response]) ∨
      (c.receive response.encode).1.failure.isSome ∨
      c.receive response.encode = ({ c with unread := response.encode }, []) := by
  obtain hgot | hgot | hgot := receive_encode Response.recovers response.regular_toCbor
  · exact .inl (take_response h hunread hpending hid hgot)
  all_goals
    unfold Client.receive
    rw [h.failure, hunread, List.nil_append, Response.encode, hgot]
  · exact .inr (.inl (isSome_failure_fail _ _))
  · right
    right
    simp [takeAll]

end

/-! ## Requests that are asked -/

/-- A request with the number that the client gives it. -/
def numbered (client : Client) (r : Request) : Request := { r with id := client.issued + 1 }

/-- An idle client once it has sent a request. -/
def waiting (client : Client) : Client :=
  { client with issued := client.issued + 1, pending := [client.issued + 1] }

/-- An idle client once its request was answered. -/
def served (client : Client) : Client := { client with issued := client.issued + 1, pending := [] }

variable {σ : Type} {client : Client} {peer : Peer σ} {s s' : σ} {events : List Event} {r : Request}

theorem ask_eq (hidle : client.Idle) (hpeer : peer s (client.numbered r) = (s', events)) (d : Duration) :
    client.ask peer s (.timeout d) r =
      let heard := (waiting client).hear events
      let finished := heard.1.finish (client.numbered r) heard.2 (.timeout d)
      (finished.1, s', finished.2) := by
  unfold numbered at hpeer
  unfold Client.ask
  rw [hidle.send]
  dsimp only
  rw [hpeer]
  rfl

/-- A client takes the one response to its request. -/
theorem ask_of_taken (hidle : client.Idle) {response : Response} (hid : response.id = client.issued + 1)
    (hpeer : peer s (client.numbered r) = (s', [.bytes response.encode]))
    (htaken : client.waiting.receive response.encode = (client.served, [response])) (d : Duration) :
    client.ask peer s (.timeout d) r = (client.served, s', response.outcome) := by
  rw [ask_eq hidle hpeer]
  simp [hear, htaken, finish, hid, numbered]

end Client

namespace Server.Attached

variable {sv : Server} {id : Nat} {s : Session} {c : Compiler} {client : Client}

theorem peer_eq {sv' : Server} {response : Response} {r : Request}
    (hreceive : sv.receive id r.encode = (sv', [response])) {s' : Session} {c' : Compiler}
    (h : Attached sv' id s' c') : Server.peer id sv r = (sv', [.bytes response.encode]) := by
  obtain ⟨k, hk, -⟩ := h.connection
  simp [Server.peer, hreceive, hk]

theorem id_answer_dispatch (s : Session) (c : Compiler) (r : Request) :
    (answer r.id (dispatch s c r).2.2).id = r.id :=
  id_answer fun _ hout => (dispatch_eq_ok s c r hout).1

variable (h : Attached sv id s c) (hidle : client.Idle) (d : Duration) (r : Request)
include h hidle

/-- If the connection holds, a client gets to know what the session answered. -/
theorem ask (hup : (client.ask (Server.peer id) sv (.timeout d) r).1.Up) :
    let asked := client.ask (Server.peer id) sv (.timeout d) r
    let out := dispatch s c (client.numbered r)
    asked.1.Idle ∧ Attached asked.2.1 id out.1 out.2.1 ∧
      RelUpTo Failure.SameSort Eq out.2.2 asked.2.2 := by
  have hsent : client.waiting.Up := ⟨hidle.failure, hidle.abandoned⟩
  have hid := id_answer_dispatch s c (client.numbered r)
  dsimp only
  obtain ⟨sv', hreceive, hattached⟩ | ⟨sv', hreceive, hgone⟩ | ⟨sv', hreceive, hopen⟩ :=
    h.receive (client.numbered r)
  · -- the request was answered
    have hpeer := peer_eq hreceive hattached
    have hhear : client.waiting.hear
          [.bytes (answer (client.numbered r).id (dispatch s c (client.numbered r)).2.2).encode] =
        client.waiting.receive
          (answer (client.numbered r).id (dispatch s c (client.numbered r)).2.2).encode := by
      simp [Client.hear]
    obtain htaken | hfailed | hunread := Client.receive_response hsent hidle.unread rfl hid
    · rw [Client.ask_of_taken hidle hid hpeer htaken]
      exact ⟨⟨⟨hidle.failure, hidle.abandoned⟩, rfl, hidle.unread⟩, hattached,
        outcome_answer (fun response hout => (dispatch_eq_ok s c _ hout).2) (reports_dispatch s c _) _⟩
    · rw [Client.ask_eq hidle hpeer, hhear] at hup
      exact absurd hup (Client.not_up_finish_of_failure hfailed)
    · rw [Client.ask_eq hidle hpeer, hhear, hunread] at hup
      exact absurd hup (Client.not_up_finish_of_pending List.mem_cons_self hidle.failure)
  · -- the service took the request for something else and hung up
    rw [Client.ask_eq hidle (Prod.ext rfl rfl)] at hup
    have hclosed : Event.closed ∈ (Server.peer id sv (client.numbered r)).2 := by
      simp [Server.peer, hreceive, hgone]
    exact absurd hup (Client.not_up_finish_of_failure (Client.isSome_failure_of_closed hclosed))
  · -- the service waits for the rest of the request
    have hpeer : Server.peer id sv (client.numbered r) = (sv', []) := by
      simp [Server.peer, hreceive, Option.isNone_eq_false_iff.mpr hopen]
    rw [Client.ask_eq hidle hpeer] at hup
    exact absurd hup (Client.not_up_finish_of_pending List.mem_cons_self hidle.failure)

/-- The connection holds if the request and the response are within the limits. -/
theorem up_ask (hrequest : (client.numbered r).Sendable)
    (hresponse : (answer (client.numbered r).id (dispatch s c (client.numbered r)).2.2).Sendable) :
    (client.ask (Server.peer id) sv (.timeout d) r).1.Up := by
  obtain ⟨sv', hreceive, hattached⟩ := h.receive_of_received _ hrequest.received
  have hid := id_answer_dispatch s c (client.numbered r)
  have hsent : client.waiting.Up := ⟨hidle.failure, hidle.abandoned⟩
  have htaken := Client.take_response hsent hidle.unread rfl hid hresponse.received
  rw [Client.ask_of_taken hidle hid (peer_eq hreceive hattached) htaken]
  exact ⟨hidle.failure, hidle.abandoned⟩

end Server.Attached

end WasmLisp.Service
