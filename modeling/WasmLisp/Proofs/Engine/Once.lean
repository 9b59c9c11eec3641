import Mathlib
import WasmLisp.Proofs.Engine

/-!
# A module is loaded once

The record of a module name is written twice: when the load of the name begins, and when it ends.
From then on the record answers every load of the name. A load that crashes does not end.

* `Engine.lost`: the names of which a load crashes while requests are handled;
* `Engine.Settled`: no load is going on, and all providers are loaded modules, these names apart. One
  request keeps this and changes the state of a name only the way `LoadState.Moves` says
  (`Engine.Event.step`);
* `Engine.loaded_once`: what this means for a sequence of requests.
-/

namespace WasmLisp

/-- How the state of a name can change from one moment to the next. -/
inductive LoadState.Moves : LoadState → LoadState → Prop where
  | stay (s : LoadState) : Moves s s
  | begins : Moves .unloaded .loading
  | succeeds : Moves .loading .loaded
  | fails : Moves .loading .failed

namespace Engine

variable {e e₁ : Engine} {names names' : Set String}

/-! ## Requests -/

/-- What an engine is asked to do before it is closed. -/
inductive Event where
  | load (ns : String) (art : Artifact) (name : String)
  | register (symbol : Registry.Foreign) (origin : String)
  | call (qualified : String) (args : List Int64)

namespace Event

/-- The engine after a request. -/
def run (e : Engine) : Event → Engine
  | .load ns art name => (e.load ns (some art) name).1
  | .register symbol origin => (e.registerForeign symbol origin).1
  | .call qualified args => (e.call qualified args).1

/-- The engine while it links, if that is what a request makes it do. -/
def linking (e : Engine) : Event → Option Engine
  | .load _ art name =>
    if (e.refusal? (some art) name).isNone && (e.known? name).isNone then some (e.begin art name)
    else none
  | _ => none

end Event

/-- The engine after requests. -/
def after (e : Engine) (events : List Event) : Engine := events.foldl Event.run e

theorem after_append (e : Engine) (before rest : List Event) :
    e.after (before ++ rest) = (e.after before).after rest := List.foldl_append

/-- The engines that follow on one another while requests are handled. -/
def later (e : Engine) : List Event → List Engine
  | [] => []
  | event :: events => (event.linking e).toList ++ event.run e :: (event.run e).later events

/-! ## States of names -/

/-- From one engine to the next, the state of each name moves on or stays. -/
def Progress (e e' : Engine) : Prop := ∀ name, (e.stateOf name).Moves (e'.stateOf name)

/-- What is recorded as a provider of functions or globals is a loaded module, or one of those whose
load crashed. -/
def ProvidersLoaded (e : Engine) (names : Set String) : Prop :=
  (∀ q p, e.funcs.get? q = some p → e.stateOf p.module = .loaded ∨ p.module ∈ names) ∧
    ∀ x m, e.globals.get? x = some m → e.stateOf m = .loaded ∨ m ∈ names

/-- No load is going on and all providers are loaded, but for the names whose load crashed; and no
crash is recorded. -/
structure Settled (e : Engine) (names : Set String) : Prop where
  ended : ∀ name, e.stateOf name = .loading → name ∈ names
  recorded : ∀ name record result, e.modules.get? name = some record →
    record.outcome.result? = some result → crashed result = false
  providers : e.ProvidersLoaded names

/-- Nothing has been loaded by an engine that is fresh. -/
theorem settled_fresh (registry : Registry) (catalog : Option Catalog) (env : Env)
    (around : Surroundings) : Settled { registry, catalog, env, around } ∅ := by
  refine ⟨fun _ h => LoadState.noConfusion h, fun name record result h => ?_, fun q p h => ?_,
    fun x m h => ?_⟩
  all_goals exact absurd h (by simp [Table.get?])

theorem SameTables.stateOf (h : e.SameTables e₁) (name : String) :
    e₁.stateOf name = e.stateOf name := by
  unfold Engine.stateOf
  rw [h.modules]

theorem SameTables.progress (h : e.SameTables e₁) : e.Progress e₁ := by
  intro name
  rw [h.stateOf]
  exact .stay _

theorem SameTables.settled (h : e.SameTables e₁) (he : e.Settled names) : e₁.Settled names := by
  refine ⟨fun name => ?_, fun name record result hget => ?_, fun q p hq => ?_, fun x m hx => ?_⟩
  · rw [h.stateOf]
    exact he.ended name
  · exact he.recorded name record result (h.modules ▸ hget)
  · rw [h.stateOf]
    exact he.providers.1 q p (h.funcs ▸ hq)
  · rw [h.stateOf]
    exact he.providers.2 x m (h.globals ▸ hx)

theorem ProvidersLoaded.mono (h : e.ProvidersLoaded names) (hsub : names ⊆ names') :
    e.ProvidersLoaded names' :=
  ⟨fun q p hq => (h.1 q p hq).imp_right fun hp => hsub hp,
    fun x m hx => (h.2 x m hx).imp_right fun hm => hsub hm⟩

/-- The state of a name of which a record has just been written. -/
theorem stateOf_insert (record : LoadRecord) {name : String}
    (h : e₁.modules = e.modules.insert name record) (name' : String) :
    e₁.stateOf name' = if name' = name then record.state else e.stateOf name' := by
  unfold stateOf
  rw [h, Table.get?_insert]
  split <;> rfl

theorem stateOf_begin (e : Engine) (art : Artifact) (name name' : String) :
    (e.begin art name).stateOf name' = if name' = name then .loading else e.stateOf name' :=
  stateOf_insert (recordOf art name .pending) rfl name'

theorem stateOf_finish (e : Engine) (art : Artifact) (name : String) (result : Result EntryPoint)
    (name' : String) : (e.finish art name result).stateOf name' =
      if name' = name then (Outcome.ofResult result).state else e.stateOf name' :=
  stateOf_insert (recordOf art name (.ofResult result)) rfl name'

/-- A load that crashed leaves its name in the state in which artifacts are linked. -/
theorem state_ofResult_eq_loading {result : Result EntryPoint} :
    (Outcome.ofResult result).state = .loading ↔ crashed result = true := by
  rw [← Outcome.ofResult_eq_pending]
  cases Outcome.ofResult result <;> simp [Outcome.state]

theorem state_ofResult_eq_loaded {result : Result EntryPoint} (h : crashed result = false) :
    (Outcome.ofResult result).state = .loaded ↔ result.isOk = true := by
  cases result with
  | ok entry => exact iff_of_true rfl rfl
  | error failure =>
    have hno : failure.isCrash = false := h
    simp [Outcome.ofResult, hno, Outcome.state, Except.isOk, Except.toBool]

/-- The outcome of a load is a state that a load which goes on can come to. -/
theorem moves_ofResult (result : Result EntryPoint) :
    LoadState.loading.Moves (Outcome.ofResult result).state := by
  cases Outcome.ofResult result with
  | pending => exact .stay _
  | ok entry => exact .succeeds
  | error failure => exact .fails

theorem stateOf_loadNew (e : Engine) (ns : String) (art : Artifact) (name name' : String) :
    (e.loadNew ns art name).1.stateOf name' =
      if name' = name then (Outcome.ofResult (e.loadNew ns art name).2.2).state
      else e.stateOf name' := by
  have hlinked : ((e.begin art name).link ns art name).1.stateOf name' =
      (e.begin art name).stateOf name' := by
    unfold stateOf
    rw [(link_recorded (e.begin art name) ns art name).1]
  rw [loadNew, stateOf_finish, hlinked, stateOf_begin]
  split <;> rfl

/-- A name of which no load has ended. -/
theorem moves_of_pending {name : String}
    (h : ∀ record, e.modules.get? name = some record → record.outcome = .pending) :
    (e.stateOf name).Moves .loading := by
  unfold stateOf
  cases hget : e.modules.get? name with
  | none => exact .begins
  | some record =>
    have hloading : record.state = .loading := by rw [LoadRecord.state, h record hget]; rfl
    exact hloading ▸ .stay _

/-! ## One request -/

/-- The names of which a request is a load that crashes. -/
def Event.lost (e : Engine) : Event → Set String
  | .load ns art name => if crashed (e.load ns (some art) name).2.2 then {name} else ∅
  | _ => ∅

/-- The names of which a load crashes while requests are handled. -/
def lost (e : Engine) : List Event → Set String
  | [] => ∅
  | event :: events => event.lost e ∪ (event.run e).lost events

section New

variable {name : String}
  (hnew : ∀ record, e.modules.get? name = some record → record.outcome = .pending)
include hnew

/-- A name of which no load has ended is not the name of a loaded module. -/
theorem ne_of_loaded {name' : String} (hloaded : e.stateOf name' = .loaded) : name' ≠ name := by
  rintro rfl
  have hmoves := moves_of_pending hnew
  rw [hloaded] at hmoves
  cases hmoves

theorem loaded_begin (art : Artifact) {name' : String} (hloaded : e.stateOf name' = .loaded) :
    (e.begin art name).stateOf name' = .loaded := by
  rw [stateOf_begin, if_neg (ne_of_loaded hnew hloaded)]
  exact hloaded

theorem loaded_loadNew (ns : String) (art : Artifact) {name' : String}
    (hloaded : e.stateOf name' = .loaded) : (e.loadNew ns art name).1.stateOf name' = .loaded := by
  rw [stateOf_loadNew, if_neg (ne_of_loaded hnew hloaded)]
  exact hloaded

/-- A provider was there before the load, or it is the module itself. -/
theorem ProvidersLoaded.loadNew (h : e.ProvidersLoaded names) (ns : String) (art : Artifact) :
    (e.loadNew ns art name).1.ProvidersLoaded
      (names ∪ if crashed (e.loadNew ns art name).2.2 then {name} else ∅) := by
  have hkept : ∀ name', e.stateOf name' = .loaded →
      (e.loadNew ns art name).1.stateOf name' = .loaded := fun _ => loaded_loadNew hnew ns art
  obtain ⟨-, hsame⟩ | ⟨hend, e₁, functions, globals, hsame, hpublish⟩ :=
    link_tables (e.begin art name) ns art name
  · constructor
    · exact fun q p hq => (h.1 q p (hsame.funcs ▸ hq)).imp (hkept _) .inl
    · exact fun x m hx => (h.2 x m (hsame.globals ▸ hx)).imp (hkept _) .inl
  · have hself : (e.loadNew ns art name).1.stateOf name = .loaded ∨
        name ∈ names ∪ if crashed (e.loadNew ns art name).2.2 then {name} else ∅ := by
      cases hcrashed : crashed (e.loadNew ns art name).2.2 with
      | true => exact .inr (.inr (by simp))
      | false =>
        rw [stateOf_loadNew, if_pos rfl, state_ofResult_eq_loaded hcrashed]
        exact .inl (hend.resolve_right (Bool.eq_false_iff.mp hcrashed))
    constructor
    · intro q p hq
      obtain ⟨arity, -, hown⟩ | ⟨-, hold⟩ := funcs_publish e₁ name functions globals q
      · rw [← hpublish] at hown
        cases hown.symm.trans hq
        exact hself
      · rw [← hpublish, hsame.funcs] at hold
        exact (h.1 q p (hold.symm.trans hq)).imp (hkept _) .inl
    · intro x m hx
      have hget := globals_publish e₁ name functions globals x
      rw [← hpublish, hsame.globals] at hget
      have hx := hget.symm.trans hx
      split at hx
      · cases hx
        exact hself
      · exact (h.2 x m hx).imp (hkept _) .inl

end New

/-- What is recorded of the name is the result of the load, unless that is a crash. -/
theorem recorded_loadNew {ns name name' : String} {art : Artifact} {record : LoadRecord}
    {result : Result EntryPoint} (hget : (e.loadNew ns art name).1.modules.get? name' = some record)
    (hresult : record.outcome.result? = some result) :
    crashed result = false ∨ e.modules.get? name' = some record := by
  simp only [Engine.loadNew, finish, Table.get?_insert] at hget
  split at hget
  · cases hget
    cases hcrashed : crashed ((e.begin art name).link ns art name).2.2 with
    | true =>
      rw [recordOf, Outcome.ofResult_eq_pending.mpr hcrashed] at hresult
      cases hresult
    | false =>
      rw [recordOf, Outcome.result?_ofResult hcrashed] at hresult
      cases hresult
      exact .inl hcrashed
  · rename_i hne
    rw [(link_recorded (e.begin art name) ns art name).1, begin, Table.get?_insert, if_neg hne] at hget
    exact .inr hget

/-- A load that links has a name of which no load has ended. It begins, and its outcome is recorded
unless it crashes. -/
theorem Settled.loadNew (he : e.Settled names) {name : String}
    (hnew : ∀ record, e.modules.get? name = some record → record.outcome = .pending)
    (ns : String) (art : Artifact) :
    e.Progress (e.begin art name) ∧ (e.begin art name).ProvidersLoaded names ∧
      (e.begin art name).Progress (e.loadNew ns art name).1 ∧
      (e.loadNew ns art name).1.Settled
        (names ∪ if crashed (e.loadNew ns art name).2.2 then {name} else ∅) := by
  refine ⟨fun name' => ?_, ?_, fun name' => ?_, fun name' hloading => ?_,
    fun name' record result hget hresult => ?_, he.providers.loadNew hnew ns art⟩
  · rw [stateOf_begin]
    split
    · rename_i heq
      exact heq ▸ moves_of_pending hnew
    · exact .stay _
  · exact ⟨fun q p hq => (he.providers.1 q p hq).imp_left (loaded_begin hnew art),
      fun x m hx => (he.providers.2 x m hx).imp_left (loaded_begin hnew art)⟩
  · rw [stateOf_loadNew, stateOf_begin]
    split
    · exact moves_ofResult _
    · exact .stay _
  · rw [stateOf_loadNew] at hloading
    split at hloading
    · rename_i heq
      exact .inr (by rw [if_pos (state_ofResult_eq_loading.mp hloading)]; exact heq)
    · exact .inl (he.ended name' hloading)
  · exact (recorded_loadNew hget hresult).elim id fun hold => he.recorded name' record result hold hresult

theorem tables_registerForeign (e : Engine) (symbol : Registry.Foreign) (origin : String) :
    e.SameTables (e.registerForeign symbol origin).1 := by
  unfold registerForeign
  split
  · exact .refl e
  · split
    · exact ⟨rfl, rfl, rfl, rfl⟩
    · exact .refl e

/-- All that a call does is to invoke a function. -/
theorem call_cases (e : Engine) (qualified : String) (args : List Int64) :
    (e.call qualified args).1 = e ∨
      ∃ function, (e.call qualified args).1 = (e.invokeForValue function args).1 := by
  unfold call
  split
  · exact .inl rfl
  split
  · exact .inl rfl
  split
  · exact .inl rfl
  split
  · exact .inl rfl
  · exact .inr ⟨_, rfl⟩

theorem tables_call (e : Engine) (qualified : String) (args : List Int64) :
    e.SameTables (e.call qualified args).1 := by
  obtain heq | ⟨function, heq⟩ := call_cases e qualified args
  · rw [heq]
    exact .refl e
  · rw [heq]
    exact (ran_invokeForValue e function args).tables

/-- A refusal is no crash. -/
theorem crashed_of_refusal? {α : Type} {art : Option Artifact} {name : String} {failure : Failure}
    (h : e.refusal? art name = some failure) : crashed (.error failure : Result α) = false := by
  unfold refusal? at h
  dsimp only at h
  repeat' split at h
  all_goals cases h
  all_goals rfl

/-- What a request reports to have crashed, it has left loading. -/
theorem Settled.crashed_iff (he : e.Settled names) (ns : String) (art : Artifact) (name : String) :
    crashed (e.load ns (some art) name).2.2 = true ↔ e.refusal? (some art) name = none ∧
      (∀ record, e.modules.get? name = some record → record.outcome = .pending) ∧
      (e.load ns (some art) name).1.stateOf name = .loading := by
  obtain ⟨failure, hrefusal, heq⟩ | ⟨-, record, result, metrics, hget, hresult, heq⟩ |
    ⟨hrefusal, hnew, heq⟩ := load_cases e ns art name
  · rw [heq, hrefusal]
    simp [crashed_of_refusal? hrefusal]
  · rw [heq, he.recorded name record result hget hresult]
    refine iff_of_false Bool.false_ne_true ?_
    rintro ⟨-, hpending, -⟩
    rw [hpending record hget] at hresult
    cases hresult
  · rw [heq, stateOf_loadNew, if_pos rfl, state_ofResult_eq_loading]
    exact ⟨fun h => ⟨hrefusal, hnew, h⟩, fun h => h.2.2⟩

/-- One request: the state of each name moves on, through the state in which an artifact is linked
if one is, and nothing is going on in the end but what crashed. -/
theorem Event.step (he : e.Settled names) (event : Event) :
    ((event.linking e = none ∧ e.Progress (event.run e)) ∨
      ∃ e₁, event.linking e = some e₁ ∧ e.Progress e₁ ∧ e₁.ProvidersLoaded names ∧
        e₁.Progress (event.run e)) ∧ (event.run e).Settled (names ∪ event.lost e) := by
  cases event with
  | load ns art name =>
    dsimp only [linking, run, Event.lost]
    obtain ⟨failure, hrefusal, heq⟩ | ⟨-, record, result, metrics, hget, hresult, heq⟩ |
      ⟨hrefusal, hnew, heq⟩ := load_cases e ns art name
    · rw [heq]
      simp only [crashed_of_refusal? hrefusal, Bool.false_eq_true, if_false, Set.union_empty]
      exact ⟨.inl ⟨by simp [hrefusal], (SameTables.refl e).progress⟩, he⟩
    · have htables : e.SameTables { e with metrics } := ⟨rfl, rfl, rfl, rfl⟩
      rw [heq]
      simp only [he.recorded name record result hget hresult, Bool.false_eq_true, if_false,
        Set.union_empty]
      exact ⟨.inl ⟨by simp [known?, hget, hresult], htables.progress⟩, htables.settled he⟩
    · have hunknown : e.known? name = none := by
        unfold known?
        cases hget : e.modules.get? name with
        | none => rfl
        | some record => simp [Outcome.result?_eq_none.mpr (hnew record hget)]
      obtain ⟨hbegins, hproviders, hends, hsettled⟩ := he.loadNew hnew ns art
      rw [heq]
      exact ⟨.inr ⟨_, by simp [hrefusal, hunknown], hbegins, hproviders, hends⟩, hsettled⟩
  | register symbol origin =>
    have htables := tables_registerForeign e symbol origin
    exact ⟨.inl ⟨rfl, htables.progress⟩, (Set.union_empty names).symm ▸ htables.settled he⟩
  | call qualified args =>
    have htables := tables_call e qualified args
    exact ⟨.inl ⟨rfl, htables.progress⟩, (Set.union_empty names).symm ▸ htables.settled he⟩

/-! ## Sequences of requests -/

theorem Settled.chain (he : e.Settled names) (events : List Event) :
    (e :: e.later events).IsChain Progress := by
  induction events generalizing e names with
  | nil => exact .singleton e
  | cons event events ih =>
    obtain ⟨hstep, hsettled⟩ := event.step he
    unfold later
    obtain ⟨hlinking, hprogress⟩ | ⟨e₁, hlinking, hbegins, -, hends⟩ := hstep
    · rw [hlinking]
      exact .cons_cons hprogress (ih hsettled)
    · rw [hlinking]
      exact .cons_cons hbegins (.cons_cons hends (ih hsettled))

theorem Settled.providersLoaded (he : e.Settled names) (events : List Event) :
    ∀ e' ∈ e :: e.later events, e'.ProvidersLoaded (names ∪ e.lost events) := by
  induction events generalizing e names with
  | nil => simpa [later, lost] using he.providers
  | cons event events ih =>
    obtain ⟨hstep, hsettled⟩ := event.step he
    have hsub : names ⊆ names ∪ e.lost (event :: events) := Set.subset_union_left
    have hlinking : ∀ e' ∈ (event.linking e).toList,
        e'.ProvidersLoaded (names ∪ e.lost (event :: events)) := by
      intro e' he'
      obtain ⟨hnone, -⟩ | ⟨e₁, hsome, -, hproviders, -⟩ := hstep
      · simp [hnone] at he'
      · have heq : e' = e₁ := by simpa [hsome] using he'
        exact heq ▸ hproviders.mono hsub
    intro e' he'
    rw [later, List.mem_cons, List.mem_append] at he'
    obtain rfl | he' | he' := he'
    · exact he.providers.mono hsub
    · exact hlinking e' he'
    · have hrest := ih hsettled e' he'
      rwa [Set.union_assoc] at hrest

theorem Settled.after (he : e.Settled names) (events : List Event) :
    (e.after events).Settled (names ∪ e.lost events) := by
  induction events generalizing e names with
  | nil => exact (Set.union_empty names).symm ▸ he
  | cons event events ih =>
    have hrest := ih (event.step he).2
    rwa [Set.union_assoc] at hrest

/-- An artifact is linked at most once under a name of which no load crashes, and never under a name
that was loaded before. -/
theorem Settled.countP_loading (he : e.Settled names) (events : List Event) {name : String}
    (hname : name ∉ names ∪ e.lost events) :
    (e.later events).countP (fun e' => e'.stateOf name = .loading) ≤
      if e.stateOf name = .unloaded then 1 else 0 := by
  induction events generalizing e names with
  | nil => simp [later]
  | cons event events ih =>
    obtain ⟨hstep, hsettled⟩ := event.step he
    have hout : name ∉ (names ∪ event.lost e) ∪ (event.run e).lost events := by
      rwa [Set.union_assoc]
    have hrest := ih hsettled hout
    have hended : (event.run e).stateOf name ≠ .loading := fun h =>
      hout (.inl (hsettled.ended name h))
    rw [later, List.countP_append, List.countP_cons_of_neg (by simpa using hended)]
    obtain ⟨hnone, hprogress⟩ | ⟨e₁, hsome, hbegins, -, hends⟩ := hstep
    · have hmove := hprogress name
      rw [hnone]
      generalize e.stateOf name = s at hmove ⊢
      generalize (event.run e).stateOf name = s' at hmove hrest hended
      cases hmove <;> simp_all
    · have hmove := hbegins name
      have hmove' := hends name
      have hidle : e.stateOf name ≠ .loading := fun h => hname (.inl (he.ended name h))
      rw [hsome]
      simp only [Option.toList_some, List.countP_cons, List.countP_nil]
      generalize e.stateOf name = s at hmove hidle ⊢
      generalize e₁.stateOf name = s₁ at hmove hmove' ⊢
      generalize (event.run e).stateOf name = s' at hmove' hrest hended
      cases hmove <;> cases hmove' <;> simp_all

/-- A record of a load that has ended is never written again. -/
theorem Event.get?_modules {record : LoadRecord} {name : String}
    (hget : e.modules.get? name = some record) (hended : record.outcome ≠ .pending)
    (event : Event) : (event.run e).modules.get? name = some record := by
  cases event with
  | load ns art name' =>
    dsimp only [run]
    obtain ⟨failure, -, heq⟩ | ⟨-, _, _, metrics, -, -, heq⟩ | ⟨-, hnew, heq⟩ :=
      load_cases e ns art name'
    · rw [heq]
      exact hget
    · rw [heq]
      exact hget
    · have hne : name ≠ name' := by
        rintro rfl
        exact hended (hnew record hget)
      rw [heq]
      simp only [loadNew, finish]
      rw [(link_recorded (e.begin art name') ns art name').1]
      simp only [begin, Table.get?_insert, if_neg hne]
      exact hget
  | register symbol origin =>
    rw [run, (tables_registerForeign e symbol origin).modules]
    exact hget
  | call qualified args =>
    rw [run, (tables_call e qualified args).modules]
    exact hget

theorem get?_modules_after {record : LoadRecord} {name : String}
    (hget : e.modules.get? name = some record) (hended : record.outcome ≠ .pending)
    (events : List Event) : (e.after events).modules.get? name = some record := by
  induction events generalizing e with
  | nil => exact hget
  | cons event events ih => exact ih (event.get?_modules hget hended)

theorem Event.closed_run (event : Event) (e : Engine) : (event.run e).closed = e.closed := by
  cases event with
  | load ns art name =>
    dsimp only [run]
    obtain ⟨failure, -, heq⟩ | ⟨-, _, _, metrics, -, -, heq⟩ | ⟨-, -, heq⟩ :=
      load_cases e ns art name
    · rw [heq]
    · rw [heq]
    · rw [heq]
      exact (link_recorded (e.begin art name) ns art name).2
  | register symbol origin => exact (tables_registerForeign e symbol origin).closed
  | call qualified args => exact (tables_call e qualified args).closed

theorem closed_after (e : Engine) (events : List Event) : (e.after events).closed = e.closed := by
  induction events generalizing e with
  | nil => rfl
  | cons event events ih => exact (ih (event.run e)).trans (event.closed_run e)

/-- What is refused is refused for its name. -/
theorem refusal?_congr (h : e₁.closed = e.closed) (art art' : Artifact) (name : String) :
    e₁.refusal? (some art') name = e.refusal? (some art) name := by
  simp [refusal?, h]

/-- The result of a load is recorded, unless the load is refused or crashes. -/
theorem get?_modules_load (e : Engine) (ns : String) (art : Artifact) (name : String)
    (h : e.refusal? (some art) name = none)
    (hcrashed : crashed (e.load ns (some art) name).2.2 = false) :
    ∃ record, (e.load ns (some art) name).1.modules.get? name = some record ∧
      record.outcome.result? = some (e.load ns (some art) name).2.2 := by
  obtain ⟨failure, hrefusal, -⟩ | ⟨-, record, result, metrics, hget, hresult, heq⟩ | ⟨-, -, heq⟩ :=
    load_cases e ns art name
  · rw [h] at hrefusal
    cases hrefusal
  · rw [heq]
    exact ⟨record, hget, hresult⟩
  · rw [heq] at hcrashed ⊢
    refine ⟨recordOf art name (.ofResult (e.loadNew ns art name).2.2), ?_,
      Outcome.result?_ofResult hcrashed⟩
    simp only [loadNew, finish, Table.get?_insert, if_pos]

/-- To load a name again, whatever the artifact and the frame, gives the result that it gave before
and does nothing but count, unless the load before crashed. -/
theorem load_again (e : Engine) (ns : String) (art : Artifact) (name : String)
    (hcrashed : crashed (e.load ns (some art) name).2.2 = false) (events : List Event) (ns' : String)
    (art' : Artifact) :
    let e' := (e.load ns (some art) name).1.after events
    ∃ metrics, e'.load ns' (some art') name =
      ({ e' with metrics }, ns', (e.load ns (some art) name).2.2) := by
  intro e'
  have hclosed : e'.closed = e.closed := by
    rw [closed_after]
    exact (Event.load ns art name).closed_run e
  have hrefusal := refusal?_congr hclosed art art' name
  cases hrefused : e.refusal? (some art) name with
  | some failure =>
    rw [hrefused] at hrefusal
    exact ⟨e'.metrics, by simp [load, hrefusal, hrefused]⟩
  | none =>
    obtain ⟨record, hget, hresult⟩ := get?_modules_load e ns art name hrefused hcrashed
    have hended : record.outcome ≠ .pending := by
      intro hpending
      rw [hpending] at hresult
      cases hresult
    have hget' : e'.modules.get? name = some record := get?_modules_after hget hended events
    obtain ⟨failure, h, -⟩ | ⟨-, record', result, metrics, h, hresult', heq⟩ | ⟨-, hnew, -⟩ :=
      load_cases e' ns' art' name
    · rw [hrefusal, hrefused] at h
      cases h
    · rw [hget'] at h
      cases h
      rw [hresult] at hresult'
      cases hresult'
      exact ⟨metrics, heq⟩
    · exact absurd (hnew record hget') hended

/-- A module is loaded once, unless a load of it crashes. Whatever an engine is asked to load, to register
and to call:

* the state of a name goes from unloaded to loading and from there to loaded or failed, where it stays;
* a name of which no load crashes is loading once at most, and what provides functions or globals is a
  loaded module at every moment, or one whose load crashed;
* to load a name again gives the result that it gave before, and changes nothing but the metrics, unless
  that was a crash;
* a crash is the answer of exactly those loads that link and leave their name loading. -/
theorem loaded_once (registry : Registry) (catalog : Option Catalog) (env : Env)
    (around : Surroundings) (events : List Event) :
    let e : Engine := { registry, catalog, env, around }
    (e :: e.later events).IsChain Progress ∧
    (∀ name, name ∉ e.lost events →
      (e :: e.later events).countP (fun e' => e'.stateOf name = .loading) ≤ 1) ∧
    (∀ e' ∈ e :: e.later events, e'.ProvidersLoaded (e.lost events)) ∧
    (∀ ns art name between ns' art',
      crashed ((e.after events).load ns (some art) name).2.2 = false →
      let e' := e.after (events ++ .load ns art name :: between)
      ∃ metrics, e'.load ns' (some art') name =
        ({ e' with metrics }, ns', ((e.after events).load ns (some art) name).2.2)) ∧
    ∀ ns art name, crashed ((e.after events).load ns (some art) name).2.2 = true ↔
      (e.after events).refusal? (some art) name = none ∧
        (∀ record, (e.after events).modules.get? name = some record → record.outcome = .pending) ∧
        ((e.after events).load ns (some art) name).1.stateOf name = .loading := by
  intro e
  have he : e.Settled ∅ := settled_fresh registry catalog env around
  refine ⟨he.chain events, fun name hname => ?_, ?_, ?_, ?_⟩
  · have hfresh : e.stateOf name ≠ .loading := he.ended name
    rw [List.countP_cons_of_neg (by simpa using hfresh)]
    exact he.countP_loading events (by rwa [Set.empty_union])
  · simpa only [Set.empty_union] using he.providersLoaded events
  · intro ns art name between ns' art' hcrashed
    have hafter : e.after (events ++ .load ns art name :: between) =
        ((e.after events).load ns (some art) name).1.after between := by
      simp [after, Event.run]
    rw [hafter]
    exact load_again (e.after events) ns art name hcrashed between ns' art'
  · exact (he.after events).crashed_iff

/-- A module of which the entry comes back without a value. -/
def muteModule : Binary.Module :=
  { types := [{ params := [], results := [] }]
    funcs := [{ typeIdx := 0, body := [] }]
    exports := [{ name := "init", kind := Binary.kindFunc, index := 0 }] }

/-- An artifact of it, which promises a function. -/
def muteArtifact : Artifact :=
  { manifest := some { entry := "init", functions := [("user/f", 0)] }, bytes := muteModule.encode }

/-- The load of the artifact crashes, and its name is left loading although the function has it as a
provider. When it is loaded again it is linked again, and that fails. -/
theorem crashed_load_left_loading :
    let e := ({} : Engine).after [.load "user" muteArtifact "m"]
    crashed (({} : Engine).load "user" (some muteArtifact) "m").2.2 = true ∧
      e.stateOf "m" = .loading ∧ e.funcs.get? "user/f" = some { module := "m", arity := 0 } ∧
      crashed (e.load "user" (some muteArtifact) "m").2.2 = false ∧
      (e.load "user" (some muteArtifact) "m").1.stateOf "m" = .failed := by
  decide +kernel

end Engine

end WasmLisp
