import Mathlib
import WasmLisp.Proofs.Service.Client
import WasmLisp.Proofs.Service.Exchange

/-!
# Callers that share a client

Many callers use a client at a time, while a reader takes the responses from the connection. Each of
them does what it does in steps (`Exchange.Step`, `Traffic.Step`), and between two steps of one anything
may be done by the others. What holds however the steps are mixed is an invariant of the tables, of each
caller's place and of the reader (`Traffic.Sound`); from it follows that responses are neither crossed nor
left behind (`Traffic.never_crossed`).

One after the other, the steps do what `Client.send` and `Client.take` do (`Traffic.run_send`,
`Traffic.run_take`).
-/

namespace WasmLisp.Service

/-! ## Callers -/

/-- Where a caller stands. -/
inductive Exchange.Stage where
  /-- The request has its number. -/
  | numbered
  /-- The request is waited for, and to be written. -/
  | writing
  /-- The connection did not take the request. -/
  | unwritten (cause : Failure)
  /-- The caller waits, for whatever comes first. -/
  | waiting
  /-- The caller saw that the connection has ended. -/
  | ended
  /-- The caller is about to give up. -/
  | leaving (why : Client.Impatience)
  /-- The caller is about to report why the connection ended. -/
  | failing
  /-- The caller is gone with a response. -/
  | answered (r : Response)
  /-- The caller is gone with a failure, if it found one. -/
  | failed (e : Option Failure)

/-- Whether the response to the request may still be waited for. -/
def Exchange.Stage.isOpen : Exchange.Stage → Bool
  | .writing | .unwritten _ | .waiting | .leaving _ => true
  | _ => false

/-- A request with its number, where its caller stands, and the response that was put there for it. -/
structure Exchange where
  request : Request
  stage : Exchange.Stage := .numbered
  inbox : Option Response := none

namespace Exchange

/-- What a caller does next, with the tables and in its own place. -/
inductive Step (id : Nat) (c : Client) (k : Exchange) : Client → Exchange → Prop where
  | register (h : k.stage = .numbered) :
      Step id c k (c.register id).1
        { k with stage := match (c.register id).2 with
          | some e => .failed (some e)
          | none => .writing }
  | write (h : k.stage = .writing) : Step id c k c { k with stage := .waiting }
  | stumble (cause : Failure) (h : k.stage = .writing) :
      Step id c k c { k with stage := .unwritten cause }
  | breakOff {cause : Failure} (h : k.stage = .unwritten cause) :
      Step id c k (c.writeFailed cause) { k with stage := .failing }
  | receive {r : Response} (h : k.stage = .waiting) (hr : k.inbox = some r) :
      Step id c k c { k with stage := .answered r, inbox := none }
  | seeEnd (h : k.stage = .waiting) (hended : c.failure.isSome) :
      Step id c k c { k with stage := .ended }
  -- a response may have been put there just before the connection ended
  | look (h : k.stage = .ended) :
      Step id c k c { k with stage := match k.inbox with
        | some r => .answered r
        | none => .failing }
  | report (h : k.stage = .failing) : Step id c k c { k with stage := .failed c.failure }
  | lose (why : Client.Impatience) (h : k.stage = .waiting) :
      Step id c k c { k with stage := .leaving why }
  | giveUp {why : Client.Impatience} (h : k.stage = .leaving why) :
      Step id c k (c.giveUp k.request why).1
        { k with stage := .failed (some (c.giveUp k.request why).2) }

/-- What a caller saw and what it is gone with is right. -/
def Stage.Fits (c : Client) (id : Nat) : Stage → Prop
  | .ended | .failing => c.failure.isSome
  | .answered r => r.id = id
  | .failed e => e.isSome
  | _ => True

/-- The place of a caller fits the tables. -/
structure Sound (c : Client) (id : Nat) (k : Exchange) : Prop where
  number : k.request.id = id
  issued : 0 < id ∧ id ≤ c.issued
  /-- Only of a caller that is there the response is waited for. -/
  pending : id ∈ c.pending → k.stage.isOpen = true
  /-- Only a caller that is gone is remembered as having given up. -/
  abandoned : id ∈ c.abandoned → ∃ e, k.stage = .failed e
  inbox : ∀ r, k.inbox = some r → r.id = id ∧ k.stage ≠ .numbered ∧ id ∉ c.pending
  stage : k.stage.Fits c id

variable {id : Nat} {c c' : Client} {k k' : Exchange}

/-- A caller that is still there, or has its response, is not remembered as having given up. -/
theorem Sound.notMem_abandoned (h : Sound c id k) (hstage : ∀ e, k.stage ≠ .failed e) :
    id ∉ c.abandoned := by
  intro hmem
  obtain ⟨e, he⟩ := h.abandoned hmem
  exact hstage e he

theorem Sound.notMem_pending (h : Sound c id k) (hopen : k.stage.isOpen = false) :
    id ∉ c.pending := by
  intro hmem
  cases hopen.symm.trans (h.pending hmem)

/-- What others do to the tables does not matter to a caller. -/
theorem Sound.steady (h : Sound c id k) (hsteady : Client.Steady id c c') : Sound c' id k where
  number := h.number
  issued := ⟨h.issued.1, h.issued.2.trans hsteady.issued⟩
  pending := fun hmem => h.pending (hsteady.pending hmem)
  abandoned := fun hmem => h.abandoned (hsteady.abandoned hmem)
  inbox := by
    intro r hr
    obtain ⟨hid, hstage, hpending⟩ := h.inbox r hr
    exact ⟨hid, hstage, fun hmem => hpending (hsteady.pending hmem)⟩
  stage := by
    have hended : c.failure.isSome → c'.failure.isSome := by
      intro hsome
      obtain ⟨e, he⟩ := Option.isSome_iff_exists.mp hsome
      exact Option.isSome_iff_exists.mpr ⟨e, hsteady.failure e he⟩
    have hfits := h.stage
    cases hstage : k.stage with
    | ended | failing =>
      rw [hstage] at hfits
      exact hended hfits
    | answered r | failed e => rwa [hstage] at hfits
    | _ => trivial

/-- A caller whose response is still waited for goes on waiting, while the tables stay as they are. -/
theorem Sound.stay (h : Sound c id k) (hopen : k.stage.isOpen = true) {stage : Stage}
    (hopen' : stage.isOpen = true) : Sound c id { k with stage } where
  number := h.number
  issued := h.issued
  pending := fun _ => hopen'
  abandoned := by
    intro hmem
    obtain ⟨e, he⟩ := h.abandoned hmem
    rw [he] at hopen
    cases hopen
  inbox := by
    intro r hr
    obtain ⟨hid, -, hpending⟩ := h.inbox r hr
    have hnumbered : stage ≠ .numbered := by
      rintro rfl
      cases hopen'
    exact ⟨hid, hnumbered, hpending⟩
  stage := by
    cases stage <;> trivial

/-- A caller whose response is not waited for, and not remembered either, goes where it likes. -/
theorem Sound.leave (h : Sound c id k) (hpending : id ∉ c'.pending)
    (hissued : c'.issued = c.issued) {stage : Stage} {inbox : Option Response}
    (hstage : stage ≠ .numbered) (hfits : stage.Fits c' id)
    (hinbox : ∀ r, inbox = some r → k.inbox = some r)
    (habandoned : id ∈ c'.abandoned → ∃ e, stage = .failed e) :
    Sound c' id { k with stage, inbox } where
  number := h.number
  issued := hissued ▸ h.issued
  pending := fun hmem => absurd hmem hpending
  abandoned := habandoned
  inbox := by
    intro r hr
    exact ⟨(h.inbox r (hinbox r hr)).1, hstage, hpending⟩
  stage := hfits

/-- A caller does nothing to the numbers of others. -/
theorem Step.steady (h : Step id c k c' k') (hk : k.request.id = id) {other : Nat}
    (hother : other ≠ id) : Client.Steady other c c' := by
  cases h with
  | register => exact Client.steady_register hother c
  | breakOff => exact Client.steady_fail other c _
  | giveUp => exact Client.steady_forget (by rwa [hk]) c
  | write | stumble | receive | seeEnd | look | report | lose => exact Client.steady_rfl

/-- A step keeps the place of its caller in order. -/
theorem Step.sound (h : Step id c k c' k') (hk : Sound c id k) (hc : c.Tidy) : Sound c' id k' := by
  have hfits := hk.stage
  -- a caller registers, goes on waiting (`stay`), or waits no more (`leave`)
  cases h with
  | register hstage =>
    have hempty : k.inbox = none := by
      apply Option.eq_none_iff_forall_ne_some.mpr
      intro r hr
      exact (hk.inbox r hr).2.1 hstage
    have hgone : id ∉ c.abandoned := hk.notMem_abandoned (by simp [hstage])
    have hpending : id ∉ c.pending := hk.notMem_pending (by rw [hstage]; rfl)
    unfold Client.register
    cases c.failure with
    | some e => exact hk.leave hpending rfl (by simp) rfl (fun _ hr => hr) (absurd · hgone)
    | none =>
      -- the one step that has a response waited for: none can be there yet
      refine ⟨hk.number, hk.issued, fun _ => rfl, (absurd · hgone), fun r hr => ?_, trivial⟩
      cases hempty.symm.trans hr
  | write hstage => exact hk.stay (by rw [hstage]; rfl) rfl
  | stumble cause hstage => exact hk.stay (by rw [hstage]; rfl) rfl
  | lose why hstage => exact hk.stay (by rw [hstage]; rfl) rfl
  | @breakOff cause hstage =>
    -- the connection has ended now, if it had not before, and its tables are empty
    have hsome := Client.isSome_failure_fail c (.transport .disconnected "write request" (some cause))
    obtain ⟨hpending, habandoned⟩ := (hc.fail _).ended hsome
    have hgone : id ∉ (c.writeFailed cause).abandoned := habandoned ▸ List.not_mem_nil
    exact hk.leave (hpending ▸ List.not_mem_nil) (c.issued_fail _) (by simp) hsome (fun _ hr => hr)
      (absurd · hgone)
  | @receive r hstage hr =>
    obtain ⟨hid, -, hpending⟩ := hk.inbox r hr
    have hgone : id ∉ c.abandoned := hk.notMem_abandoned (by simp [hstage])
    exact hk.leave hpending rfl (by simp) hid (fun _ hr' => nomatch hr') (absurd · hgone)
  | seeEnd hstage hsome =>
    have hgone : id ∉ c.abandoned := hk.notMem_abandoned (by simp [hstage])
    exact hk.leave (hc.notMem_pending hsome) rfl (by simp) hsome (fun _ hr => hr) (absurd · hgone)
  | look hstage =>
    have hgone : id ∉ c.abandoned := hk.notMem_abandoned (by simp [hstage])
    have hsome : c.failure.isSome := by rwa [hstage] at hfits
    have hpending : id ∉ c.pending := hc.notMem_pending hsome
    cases hinbox : k.inbox with
    | none =>
      exact hk.leave hpending rfl (by simp) hsome (fun _ hr => hinbox.trans hr) (absurd · hgone)
    | some r =>
      obtain ⟨hid, -⟩ := hk.inbox r hinbox
      exact hk.leave hpending rfl (by simp) hid (fun _ hr => hinbox.trans hr) (absurd · hgone)
  | report hstage =>
    have hsome : c.failure.isSome := by rwa [hstage] at hfits
    exact hk.leave (hc.notMem_pending hsome) rfl (by simp) hsome (fun _ hr => hr) fun _ => ⟨_, rfl⟩
  | @giveUp why hstage =>
    -- the number may be remembered from here on, or its response may just have been struck out
    have hforget : (c.giveUp k.request why).1 = c.forget id := congrArg c.forget hk.number
    rw [hforget]
    exact hk.leave (c.notMem_pending_forget id) (c.issued_forget id) (by simp) rfl (fun _ hr => hr)
      fun _ => ⟨_, rfl⟩

/-- A step keeps the tables tidy. -/
theorem Step.tidy (h : Step id c k c' k') (hk : Sound c id k) (hc : c.Tidy) : c'.Tidy := by
  cases h with
  | register hstage =>
    have hpending : id ∉ c.pending := hk.notMem_pending (by rw [hstage]; rfl)
    exact hc.register hpending (hk.notMem_abandoned (by simp [hstage]))
  | breakOff => exact hc.fail _
  | giveUp => exact hc.forget _
  | write | stumble | receive | seeEnd | look | report | lose => exact hc

/-- A caller that has registered stays so, does not wait for a response anew, and puts none where it
looks for it. -/
theorem Step.registered (h : Step id c k c' k') (hk : k.stage ≠ .numbered) :
    k'.stage ≠ .numbered ∧ (k.inbox = none → k'.inbox = none) ∧ (id ∈ c'.pending → id ∈ c.pending) := by
  cases h with
  | register hstage => exact absurd hstage hk
  | look =>
    refine ⟨?_, fun hinbox => hinbox, fun hmem => hmem⟩
    cases k.inbox <;> simp
  | receive => exact ⟨by simp, fun _ => rfl, fun hmem => hmem⟩
  | breakOff => exact ⟨by simp, fun hinbox => hinbox, (Client.steady_fail id c _).pending⟩
  | giveUp => exact ⟨by simp, fun hinbox => hinbox, fun hmem => c.pending_forget_subset _ hmem⟩
  | write | stumble | seeEnd | report | lose =>
    exact ⟨by simp, fun hinbox => hinbox, fun hmem => hmem⟩

end Exchange

/-! ## The client as a whole -/

/-- Where the reader of responses stands. -/
inductive Traffic.Reader where
  | reading
  /-- A response was struck out, and is to be put where its caller looks for it. -/
  | handing (r : Response)
  /-- The connection is to be ended. -/
  | stopping (e : Failure)
  | stopped

/-- A client, its reader, and the requests that were made by their numbers. -/
structure Traffic where
  client : Client := {}
  reader : Traffic.Reader := .reading
  exchanges : Nat → Option Exchange := fun _ => none

namespace Traffic

/-- A caller goes on. -/
def put (x : Traffic) (c : Client) (id : Nat) (k : Exchange) : Traffic :=
  { x with client := c, exchanges := Function.update x.exchanges id (some k) }

@[simp] theorem exchanges_put_self (x : Traffic) (c : Client) (id : Nat) (k : Exchange) :
    (x.put c id k).exchanges id = some k :=
  Function.update_self ..

theorem exchanges_put_of_ne (x : Traffic) (c : Client) {id other : Nat} (k : Exchange)
    (h : other ≠ id) : (x.put c id k).exchanges other = x.exchanges other :=
  Function.update_of_ne h ..

/-- A caller comes with a request, and takes a number for it. -/
def issue (x : Traffic) (r : Request) : Traffic :=
  x.put x.client.issue (x.client.issued + 1) { request := { r with id := x.client.issued + 1 } }

/-- The reader looks up the number of a response. -/
def hear (x : Traffic) (r : Response) : Traffic :=
  { x with
    client := (x.client.sort r.id).1
    reader := match (x.client.sort r.id).2 with
      | .awaited => .handing r
      | .late => .reading
      | .stray => .stopping (Client.strayFailure r) }

/-- The reader puts a response where its caller looks for it. -/
def hand (x : Traffic) (r : Response) (k : Exchange) : Traffic :=
  { x.put x.client r.id { k with inbox := some r } with reader := .reading }

theorem exchanges_hand_self (x : Traffic) (r : Response) (k : Exchange) :
    (x.hand r k).exchanges r.id = some { k with inbox := some r } :=
  Function.update_self ..

/-- The reader ends the connection. -/
def stop (x : Traffic) (e : Failure) : Traffic :=
  { x with client := x.client.fail e, reader := .stopped }

/-- What may happen next. -/
inductive Step (x : Traffic) : Traffic → Prop where
  | issue (r : Request) : Step x (x.issue r)
  | call {id : Nat} {k k' : Exchange} {c : Client} (hk : x.exchanges id = some k)
      (h : k.Step id x.client c k') : Step x (x.put c id k')
  | hear (r : Response) (h : x.reader = .reading) : Step x (x.hear r)
  | hand {r : Response} {k : Exchange} (h : x.reader = .handing r) (hk : x.exchanges r.id = some k)
      (hroom : k.inbox = none) : Step x (x.hand r k)
  -- no response can be read: the other side is gone, or what it sends is none
  | lose (e : Failure) (h : x.reader = .reading) : Step x { x with reader := .stopping e }
  | stop {e : Failure} (h : x.reader = .stopping e) : Step x (x.stop e)
  | close : Step x { x with client := x.client.close }

/-- The place of a number is that of its caller, or it is empty and nothing is known of the number. -/
def Fits (c : Client) (id : Nat) : Option Exchange → Prop
  | none => id ∉ c.pending ∧ id ∉ c.abandoned
  | some k => k.Sound c id

/-- The tables, the callers and the reader fit each other. -/
structure Sound (x : Traffic) : Prop where
  client : x.client.Tidy
  exchanges : ∀ id, Fits x.client id (x.exchanges id)
  /-- There is room where the reader puts a response. -/
  reader : ∀ r, x.reader = .handing r → r.id ∉ x.client.pending ∧
    ∃ k, x.exchanges r.id = some k ∧ k.stage ≠ .numbered ∧ k.inbox = none

variable {x y : Traffic} {c : Client} {id : Nat} {k : Exchange}

theorem sound_new : Sound {} where
  client := Client.tidy_new
  exchanges := fun _ => ⟨List.not_mem_nil, List.not_mem_nil⟩
  reader := fun _ h => nomatch h

theorem Fits.steady {at? : Option Exchange} (h : Fits c id at?) {c' : Client}
    (hsteady : Client.Steady id c c') : Fits c' id at? := by
  cases at? with
  | none => exact ⟨fun hmem => h.1 (hsteady.pending hmem), fun hmem => h.2 (hsteady.abandoned hmem)⟩
  | some k => exact Exchange.Sound.steady h hsteady

theorem Sound.exchange (hx : x.Sound) (hk : x.exchanges id = some k) : k.Sound x.client id := by
  have h := hx.exchanges id
  rwa [hk] at h

/-- The next number is new. -/
theorem Sound.fresh (hx : x.Sound) : x.exchanges (x.client.issued + 1) = none := by
  cases hk : x.exchanges (x.client.issued + 1) with
  | none => rfl
  | some k =>
    have hissued := (hx.exchange hk).issued.2
    omega

/-- A response that is waited for has a caller, who has room for it. -/
theorem Sound.exchange_of_pending (hx : x.Sound) (h : id ∈ x.client.pending) :
    ∃ k, x.exchanges id = some k ∧ k.stage.isOpen = true ∧ k.stage ≠ .numbered ∧ k.inbox = none := by
  cases hk : x.exchanges id with
  | none =>
    have hfits := hx.exchanges id
    rw [hk] at hfits
    exact absurd h hfits.1
  | some k =>
    have hsound := hx.exchange hk
    have hopen := hsound.pending h
    refine ⟨k, rfl, hopen, fun hnumbered => ?_, ?_⟩
    · rw [hnumbered] at hopen
      cases hopen
    · apply Option.eq_none_iff_forall_ne_some.mpr
      intro r hr
      exact (hsound.inbox r hr).2.2 h

/-- A caller that goes on leaves the places of others alone. -/
theorem Sound.fits_put (hx : x.Sound) (hk : k.Sound c id)
    (hsteady : ∀ other, other ≠ id → Client.Steady other x.client c) (other : Nat) :
    Fits c other ((x.put c id k).exchanges other) := by
  by_cases hother : other = id
  · rw [hother, exchanges_put_self]
    exact hk
  · rw [exchanges_put_of_ne x c k hother]
    exact (hx.exchanges other).steady (hsteady other hother)

theorem Sound.put (hx : x.Sound) (hc : c.Tidy) (hk : k.Sound c id)
    (hsteady : ∀ other, other ≠ id → Client.Steady other x.client c)
    (hreader : ∀ r, x.reader = .handing r → r.id = id →
      id ∉ c.pending ∧ k.stage ≠ .numbered ∧ k.inbox = none) : (x.put c id k).Sound where
  client := hc
  exchanges := hx.fits_put hk hsteady
  reader := by
    intro r hr
    -- what the reader has in hand may be for the caller that went on
    by_cases hid : r.id = id
    · obtain ⟨hpending, hroom⟩ := hreader r hr hid
      exact ⟨hid ▸ hpending, k, hid ▸ Function.update_self .., hroom⟩
    · obtain ⟨hpending, k', hk', hroom⟩ := hx.reader r hr
      refine ⟨fun hmem => hpending ((hsteady r.id hid).pending hmem), k', ?_, hroom⟩
      rw [exchanges_put_of_ne x c k hid, hk']

/-- Only the tables change. -/
theorem Sound.withClient (hx : x.Sound) (hc : c.Tidy) (hsteady : ∀ id, Client.Steady id x.client c)
    {reader : Reader} (hreader : ∀ r, reader = .handing r → x.reader = .handing r) :
    Sound { x with client := c, reader } where
  client := hc
  exchanges := fun id => (hx.exchanges id).steady (hsteady id)
  reader := by
    intro r hr
    obtain ⟨hpending, hroom⟩ := hx.reader r (hreader r hr)
    exact ⟨fun hmem => hpending ((hsteady r.id).pending hmem), hroom⟩

theorem Sound.issue (hx : x.Sound) (r : Request) : (x.issue r).Sound := by
  have hnew : x.client.issued + 1 ∉ x.client.pending ∧ x.client.issued + 1 ∉ x.client.abandoned := by
    have hfits := hx.exchanges (x.client.issued + 1)
    rwa [hx.fresh] at hfits
  refine hx.put hx.client.issue ?_ (fun other _ => Client.steady_issue other _) fun r' hr' hid => ?_
  · exact ⟨rfl, ⟨Nat.succ_pos _, Nat.le_refl _⟩, (absurd · hnew.1), (absurd · hnew.2),
      (fun _ h => nomatch h), trivial⟩
  · obtain ⟨-, k, hk, -⟩ := hx.reader r' hr'
    rw [hid, hx.fresh] at hk
    cases hk

theorem Sound.call (hx : x.Sound) (hk : x.exchanges id = some k) {k' : Exchange}
    (h : k.Step id x.client c k') : (x.put c id k').Sound := by
  have hsound := hx.exchange hk
  refine hx.put (h.tidy hsound hx.client) (h.sound hsound hx.client)
    (fun other hother => h.steady hsound.number hother) fun r hr hid => ?_
  -- the caller has registered, since its response was struck out before
  obtain ⟨hpending, k₀, hk₀, hnumbered, hinbox⟩ := hx.reader r hr
  rw [hid] at hpending hk₀
  obtain rfl : k = k₀ := Option.some.inj (hk.symm.trans hk₀)
  obtain ⟨hnumbered', hinbox', hpending'⟩ := h.registered hnumbered
  exact ⟨fun hmem => hpending (hpending' hmem), hnumbered', hinbox' hinbox⟩

theorem Sound.hear (hx : x.Sound) (r : Response) : (x.hear r).Sound where
  client := hx.client.sort r.id
  exchanges := fun id => (hx.exchanges id).steady (Client.steady_sort id r.id x.client)
  reader := by
    intro r' hr'
    -- only a response that is waited for is handed on
    have hawaited : r.id ∈ x.client.pending ∧ r' = r := by
      unfold Traffic.hear Client.sort at hr'
      dsimp only at hr'
      split at hr'
      · rename_i hsorted
        refine ⟨?_, (Reader.handing.inj hr').symm⟩
        by_contra hpending
        rw [if_neg hpending] at hsorted
        split at hsorted <;> cases hsorted
      · cases hr'
      · cases hr'
    obtain ⟨hmem, rfl⟩ := hawaited
    obtain ⟨k, hk, -, hnumbered, hinbox⟩ := hx.exchange_of_pending hmem
    refine ⟨?_, k, hk, hnumbered, hinbox⟩
    simp [Traffic.hear, Client.sort]

section

variable {r : Response} (hx : x.Sound)
include hx

theorem Sound.hear_of_pending (h : r.id ∈ x.client.pending) :
    x.hear r = { x with
      client := { x.client with pending := x.client.pending.filter (· != r.id) }
      reader := .handing r } := by
  rw [Traffic.hear, Client.sort_of_pending hx.client h]

theorem Sound.hear_of_abandoned (h : r.id ∈ x.client.abandoned) :
    x.hear r = { x with
      client := { x.client with abandoned := x.client.abandoned.filter (· != r.id) }
      reader := .reading } := by
  rw [Traffic.hear, Client.sort_of_abandoned hx.client h]

end

theorem hear_of_notMem {r : Response} (hpending : r.id ∉ x.client.pending)
    (habandoned : r.id ∉ x.client.abandoned) :
    x.hear r = { x with reader := .stopping (Client.strayFailure r) } := by
  rw [hear, Client.sort_of_notMem hpending habandoned]

theorem Sound.hand (hx : x.Sound) {r : Response} (h : x.reader = .handing r)
    (hk : x.exchanges r.id = some k) : (x.hand r k).Sound where
  client := hx.client
  exchanges := by
    have hsound := hx.exchange hk
    obtain ⟨hpending, k₀, hk₀, hnumbered, -⟩ := hx.reader r h
    obtain rfl : k = k₀ := Option.some.inj (hk.symm.trans hk₀)
    refine hx.fits_put { hsound with inbox := ?_ } fun other _ => Client.steady_rfl
    intro r' hr'
    cases hr'
    exact ⟨rfl, hnumbered, hpending⟩
  reader := fun _ h => nomatch h

/-- Whatever happens next, all still fits. -/
theorem Sound.step (hx : x.Sound) (h : Step x y) : y.Sound := by
  cases h with
  | issue r => exact hx.issue r
  | call hk h => exact hx.call hk h
  | hear r => exact hx.hear r
  | hand h hk => exact hx.hand h hk
  | lose e => exact hx.withClient hx.client (fun _ => Client.steady_rfl) fun _ hr => nomatch hr
  | stop => exact hx.withClient (hx.client.fail _) (Client.steady_fail · _ _) fun _ hr => nomatch hr
  | close => exact hx.withClient (hx.client.fail _) (Client.steady_fail · _ _) fun _ hr => hr

/-- What may have happened after a while. -/
abbrev Run : Traffic → Traffic → Prop := Relation.ReflTransGen Step

theorem Sound.run (hx : x.Sound) (h : Run x y) : y.Sound := by
  induction h with
  | refl => exact hx
  | tail _ hstep ih => exact ih.step hstep

/-! ## One after the other -/

theorem put_put (x : Traffic) (c c' : Client) (id : Nat) (k k' : Exchange) :
    (x.put c id k).put c' id k' = x.put c' id k' := by
  unfold put
  rw [Function.update_idem]

theorem step_put {c' : Client} {k' : Exchange} (x : Traffic) (h : k.Step id c c' k') :
    Step (x.put c id k) (x.put c' id k') := by
  have hstep : Step (x.put c id k) ((x.put c id k).put c' id k') :=
    .call (x.exchanges_put_self c id k) h
  rwa [put_put] at hstep

/-- A caller alone sends its request as the client does. -/
theorem run_send (hup : x.client.failure = none) (r : Request) :
    Run x (x.put (x.client.send r).1 (x.client.issued + 1)
      { request := { r with id := x.client.issued + 1 }, stage := .waiting }) := by
  have hregister : x.client.issue.register (x.client.issued + 1) = ((x.client.send r).1, none) := by
    rw [Client.send_eq]
    unfold Client.register Client.issue
    dsimp only
    rw [hup]
  have hregistered : Step (x.issue r) _ := x.step_put (.register rfl)
  rw [hregister] at hregistered
  exact ((Relation.ReflTransGen.single (.issue r)).tail hregistered).tail (x.step_put (.write rfl))

/-- The reader alone takes a response as the client does, and the caller finds it. -/
theorem run_take (hx : x.Sound) (hreader : x.reader = .reading) (r : Response) :
    ∃ y, Run x y ∧ y.client = (x.client.take r).1 ∧
      ∀ r', (x.client.take r).2 = some r' → ∃ k, y.exchanges r'.id = some k ∧ k.inbox = some r' := by
  have hheard : Run x (x.hear r) := .single (.hear r hreader)
  rw [Client.take_eq hx.client]
  by_cases hpending : r.id ∈ x.client.pending
  · obtain ⟨k, hk, -, -, hroom⟩ := hx.exchange_of_pending hpending
    rw [Client.sort_of_pending hx.client hpending]
    rw [hx.hear_of_pending hpending] at hheard
    refine ⟨_, hheard.tail (.hand rfl hk hroom), rfl, fun r' hr' => ?_⟩
    cases hr'
    exact ⟨_, exchanges_hand_self _ r k, rfl⟩
  by_cases habandoned : r.id ∈ x.client.abandoned
  · rw [Client.sort_of_abandoned hx.client habandoned]
    rw [hx.hear_of_abandoned habandoned] at hheard
    exact ⟨_, hheard, rfl, fun r' hr' => nomatch hr'⟩
  · rw [Client.sort_of_notMem hpending habandoned]
    rw [hear_of_notMem hpending habandoned] at hheard
    exact ⟨_, hheard.tail (.stop rfl), rfl, fun r' hr' => nomatch hr'⟩

/-! ## What never happens -/

/-- The first failure stays. -/
theorem Step.failure (h : Step x y) (hx : x.Sound) {e : Failure} (he : x.client.failure = some e) :
    y.client.failure = some e := by
  cases h with
  | @call id k k' c hk h =>
    exact (h.steady (hx.exchange hk).number (Nat.succ_ne_self id)).failure e he
  | stop | close => exact (Client.steady_fail 0 x.client _).failure e he
  | issue | hear | hand | lose => exact he

theorem Run.failure (h : Run x y) (hx : x.Sound) {e : Failure} (he : x.client.failure = some e) :
    y.client.failure = some e := by
  induction h with
  | refl => exact he
  | tail hrun hstep ih => exact hstep.failure (hx.run hrun) ih

/-- A reader that is about to end the connection does nothing else. -/
theorem Step.stopping (h : Step x y) {e : Failure} (hreader : x.reader = .stopping e) :
    y.client.failure.isSome ∨ y.reader = .stopping e := by
  cases h with
  | issue | call | close => exact .inr hreader
  | stop => exact .inl (Client.isSome_failure_fail _ _)
  | hear _ h | hand h | lose _ h => cases h.symm.trans hreader

theorem Run.stopping (h : Run x y) (hx : x.Sound) {e : Failure} (hreader : x.reader = .stopping e) :
    y.client.failure.isSome ∨ y.reader = .stopping e := by
  induction h with
  | refl => exact .inr hreader
  | tail hrun hstep ih =>
    rcases ih with hended | hstopping
    · obtain ⟨e', he'⟩ := Option.isSome_iff_exists.mp hended
      exact .inl (Option.isSome_iff_exists.mpr ⟨e', hstep.failure (hx.run hrun) he'⟩)
    · exact hstep.stopping hstopping

/-- However callers, reader and the other side take turns:

* a caller that gets a response gets that of its own request, and one that gets none gets a failure;
* what waits and what was given up are different requests, which were made, and a caller that is gone
  is not waited for;
* no more are remembered than allowed, and the least is forgotten if there is no room for one more;
* once the connection has ended, nothing waits and nothing is remembered, and why it ended stays the same;
* a response that is waited for can be handed to its caller, a late one is dropped, and any other ends the
  connection. -/
theorem never_crossed (hrun : Run {} x) :
    (∀ id k, x.exchanges id = some k → k.request.id = id ∧
      (∀ r, k.stage = .answered r → r.id = id) ∧ ∀ e, k.stage = .failed e → e.isSome) ∧
    x.client.pending.Disjoint x.client.abandoned ∧
    (∀ id ∈ x.client.pending ++ x.client.abandoned, 0 < id ∧ id ≤ x.client.issued) ∧
    (∀ id ∈ x.client.pending, ∃ k, x.exchanges id = some k ∧ k.stage.isOpen = true) ∧
    x.client.abandoned.length ≤ Client.maxAbandoned ∧
    (∀ id ∈ x.client.pending, Client.maxAbandoned ≤ x.client.abandoned.length →
      ∃ least ∈ x.client.abandoned, (∀ a ∈ x.client.abandoned, least ≤ a) ∧
        (x.client.forget id).abandoned = id :: x.client.abandoned.erase least) ∧
    (∀ e, x.client.failure = some e → ∀ y, Run x y →
      y.client.failure = some e ∧ y.client.pending = [] ∧ y.client.abandoned = []) ∧
    (∀ r, x.reader = .reading →
      (r.id ∈ x.client.pending → ∃ k, x.exchanges r.id = some k ∧
        (x.hear r).reader = .handing r ∧ Step (x.hear r) ((x.hear r).hand r k)) ∧
      (r.id ∈ x.client.abandoned → x.hear r = { x with
        client := { x.client with abandoned := x.client.abandoned.filter (· != r.id) } }) ∧
      (r.id ∉ x.client.pending → r.id ∉ x.client.abandoned → ∀ y, Run (x.hear r) y →
        y.client.failure.isSome ∨
          Step y (y.stop (Client.strayFailure r)) ∧
            (y.stop (Client.strayFailure r)).client.failure.isSome)) := by
  have hx : x.Sound := sound_new.run hrun
  refine ⟨?own, hx.client.disjoint, ?issued, ?waiting, hx.client.bounded, ?full, ?ended, ?responses⟩
  case own =>
    intro id k hk
    have hsound := hx.exchange hk
    have hfits := hsound.stage
    refine ⟨hsound.number, fun r hr => ?_, fun e he => ?_⟩
    · rwa [hr] at hfits
    · rwa [he] at hfits
  case issued =>
    intro id hmem
    cases hk : x.exchanges id with
    | some k => exact (hx.exchange hk).issued
    | none =>
      have hfits := hx.exchanges id
      rw [hk] at hfits
      rcases List.mem_append.mp hmem with hpending | habandoned
      · exact absurd hpending hfits.1
      · exact absurd habandoned hfits.2
  case waiting =>
    intro id hmem
    obtain ⟨k, hk, hopen, -⟩ := hx.exchange_of_pending hmem
    exact ⟨k, hk, hopen⟩
  case full =>
    intro id hmem hfull
    obtain ⟨least, hleast, hle, hkept⟩ := Client.kept_of_full hfull
    refine ⟨least, hleast, hle, ?_⟩
    rw [Client.forget_of_mem hmem, hkept]
  case ended =>
    intro e he y hy
    have hfailure := hy.failure hx he
    exact ⟨hfailure, (hx.run hy).client.ended (Option.isSome_iff_exists.mpr ⟨e, hfailure⟩)⟩
  case responses =>
    intro r hreader
    refine ⟨fun hmem => ?awaited, fun hmem => ?late, fun hpending habandoned y hy => ?stray⟩
    case awaited =>
      obtain ⟨k, hk, -, -, hroom⟩ := hx.exchange_of_pending hmem
      have hheard := hx.hear_of_pending hmem
      have hhanding : (x.hear r).reader = .handing r := by rw [hheard]
      exact ⟨k, hk, hhanding, .hand hhanding hk hroom⟩
    case late => rw [hx.hear_of_abandoned hmem, hreader]
    case stray =>
      -- others may go on before the reader ends the connection, and may end it first
      have hstopping : (x.hear r).reader = .stopping (Client.strayFailure r) := by
        rw [hear_of_notMem hpending habandoned]
      rcases hy.stopping (hx.hear r) hstopping with hended | hstill
      · exact .inl hended
      · exact .inr ⟨.stop hstill, Client.isSome_failure_fail _ _⟩

/-- One request was given up and the next one was answered: a response to the first is still dropped. -/
theorem late_dropped_after_answer : ∃ x : Traffic, Run {} x ∧ x.client.abandoned = [1] ∧
    (∃ k r, x.exchanges 2 = some k ∧ k.stage = .answered r ∧ r.id = 2) ∧
    (x.hear { id := 1 }).client.failure = none ∧ (x.hear { id := 1 }).reader = .reading := by
  let x₁ : Traffic := ({} : Traffic).put { issued := 1, pending := [1] } 1
    { request := { op := "ping", id := 1 }, stage := .waiting }
  have hsent : Run {} x₁ := run_send rfl { op := "ping" }
  have hgone := (hsent.tail (step_put _ (.lose .cancelled rfl))).tail (step_put _ (.giveUp rfl))
  have hnext := hgone.trans (run_send rfl { op := "ping" })
  have hheard := (hnext.tail (.hear { op := "pong", id := 2 } rfl)).tail (.hand rfl rfl rfl)
  have hdone := hheard.tail (.call (exchanges_hand_self _ _ _) (.receive rfl rfl))
  obtain ⟨hown, -, -, -, -, -, -, hresponses⟩ := never_crossed hdone
  have hlate := (hresponses { id := 1 } rfl).2.1 (by decide)
  refine ⟨_, hdone, rfl, ⟨_, _, rfl, rfl, (hown 2 _ rfl).2.1 _ rfl⟩, ?_, ?_⟩
  · rw [hlate]
    rfl
  · rw [hlate]
    rfl

end Traffic

end WasmLisp.Service
