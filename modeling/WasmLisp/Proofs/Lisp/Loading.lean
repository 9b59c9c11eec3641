import Mathlib
import WasmLisp.Proofs.Engine.Once
import WasmLisp.Proofs.Lisp.Aligned

/-!
# What evaluators load

Evaluators load modules under names that they make of numbers, one after the other.

* `Engine.Ended`: a load of a name has ended. If none has, the name is linked (`Engine.load_of_not_ended`),
  and the state of a name that the engine did not know is the outcome (`Engine.stateOf_load`);
* `Engine.loadAll_after`, `Engine.loadAll_split`: modules in order are loaded up to the first that is
  stopped;
* `Session.requireForms_names`: how modules are named that forms are compiled to.
-/

namespace WasmLisp

open Evaluator (Call moduleName modulePrefix loadAll)

/-! ## Names that are not known -/

namespace Evaluator

open Engine (Loadable)

theorem loadable_of_stem {name : String} {rest : List Char}
    (h : name.toList = modulePrefix.toList ++ rest) (hrest : '#' ∉ rest) : Loadable name := by
  refine ⟨?_, ?_⟩
  · rintro rfl
    exact absurd h (by simp [modulePrefix])
  · rw [h, List.mem_append]
    rintro (hstem | hin)
    · exact absurd hstem (by decide)
    · exact hrest hin

/-- The engine can load modules with the names of evaluations. -/
theorem loadable_moduleName (n : Nat) : Loadable (moduleName modulePrefix n) := by
  refine loadable_of_stem (toList_moduleName _ n) ?_
  rw [List.mem_cons]
  rintro (hdollar | hdigit)
  · exact absurd hdollar (by decide)
  · exact notMem_toString (by decide) n hdigit

/-- And those that are required. -/
theorem loadable_requiredName (n i : Nat) : Loadable (Session.moduleName modulePrefix n i) := by
  have hstem : (Session.moduleName modulePrefix n i).toList =
      modulePrefix.toList ++ ('$' :: (toString n).toList ++ '.' :: (toString i).toList) := by
    show (s!"{moduleName modulePrefix n}.{i}").toList = _
    rw [toList_numbered, toList_moduleName, List.append_assoc]
  refine loadable_of_stem hstem ?_
  simp only [List.cons_append, List.mem_cons, List.mem_append]
  rintro (hdollar | hdigit | hdot | hdigit)
  · exact absurd hdollar (by decide)
  · exact notMem_toString (by decide) n hdigit
  · exact absurd hdot (by decide)
  · exact notMem_toString (by decide) i hdigit

end Evaluator

namespace Engine

variable {e : Engine} {ns name : String} {art : Artifact}

/-- A load of the name has ended: it succeeded, or it failed. -/
def Ended (e : Engine) (name : String) : Prop :=
  ∃ record, e.modules.get? name = some record ∧ record.outcome ≠ .pending

/-- A name of which no load has ended is linked. -/
theorem load_of_not_ended (hopen : e.closed = false) (hname : Loadable name) (hnew : ¬e.Ended name) :
    e.load ns (some art) name = e.loadNew ns art name := by
  have hrefusal : e.refusal? (some art) name = none := by
    have hbad : ¬(name = "" ∨ name.toList.contains '#') := by
      rw [List.contains_iff_mem]
      exact fun h => h.elim hname.1 hname.2
    simp only [refusal?, hopen, Bool.or_eq_true, decide_eq_true_eq, hbad, Option.isNone_some,
      Bool.false_eq_true, if_false]
  obtain ⟨failure, hsome, -⟩ | ⟨-, record, _, _, hget, hresult, -⟩ | ⟨-, -, heq⟩ :=
    e.load_cases ns art name
  · rw [hrefusal] at hsome
    cases hsome
  · refine absurd ⟨record, hget, fun hpending => ?_⟩ hnew
    rw [hpending] at hresult
    cases hresult
  · exact heq

theorem load_of_unknown (hopen : e.closed = false) (hname : Loadable name)
    (hnew : e.modules.get? name = none) : e.load ns (some art) name = e.loadNew ns art name := by
  refine load_of_not_ended hopen hname ?_
  rintro ⟨record, hget, -⟩
  rw [hnew] at hget
  cases hget

/-- The state of a name after it was linked is the outcome, and the states of others stay. -/
theorem stateOf_load (hopen : e.closed = false) (hname : Loadable name)
    (hnew : e.modules.get? name = none) (name' : String) :
    (e.load ns (some art) name).1.stateOf name' =
      if name' = name then (Outcome.ofResult (e.load ns (some art) name).2.2).state
      else e.stateOf name' := by
  have hlinked : ∀ name', ((e.begin art name).link ns art name).1.stateOf name' =
      (e.begin art name).stateOf name' := by
    intro name'
    unfold stateOf
    rw [(link_recorded (e.begin art name) ns art name).1]
  rw [load_of_unknown hopen hname hnew, loadNew, stateOf_finish, hlinked, stateOf_begin]
  split <;> rfl

end Engine

/-! ## Loading among other things -/

namespace Engine

variable {e : Engine}

/-- A name that is known was known before, or one of the events loads it. -/
theorem known_after {events : List Event} {name : String}
    (h : (e.after events).modules.get? name ≠ none) :
    e.modules.get? name ≠ none ∨ ∃ ns art, Event.load ns art name ∈ events := by
  induction events generalizing e with
  | nil => exact .inl h
  | cons event events ih =>
    obtain hknown | ⟨ns, art, hin⟩ := ih (e := event.run e) h
    · cases event with
      | load ns art name' =>
        refine (get?_modules_of_load e ns art name' hknown).symm.imp_right ?_
        rintro rfl
        exact ⟨ns, art, List.mem_cons_self⟩
      | register symbol origin =>
        rw [Event.run, (tables_registerForeign e symbol origin).modules] at hknown
        exact .inl hknown
      | call qualified args =>
        rw [Event.run, (tables_call e qualified args).modules] at hknown
        exact .inl hknown
    · exact .inr ⟨ns, art, List.mem_cons_of_mem _ hin⟩

/-- A load of a name has ended before, or the event is one that loads it and does not crash. -/
theorem ended_of_run {event : Event} {name : String} (h : (event.run e).Ended name) :
    e.Ended name ∨ ∃ ns art, event = .load ns art name ∧
      crashed (e.load ns (some art) name).2.2 = false := by
  obtain ⟨record, hget, hended⟩ := h
  cases event with
  | load ns art name' =>
    dsimp only [Event.run] at hget
    obtain ⟨failure, -, heq⟩ | ⟨-, _, _, metrics, -, -, heq⟩ | ⟨-, -, heq⟩ := load_cases e ns art name'
    · rw [heq] at hget
      exact .inl ⟨record, hget, hended⟩
    · rw [heq] at hget
      exact .inl ⟨record, hget, hended⟩
    · rw [heq] at hget
      simp only [loadNew, finish, Table.get?_insert] at hget
      split at hget
      · rename_i hname
        subst hname
        cases hget
        refine .inr ⟨ns, art, rfl, Bool.eq_false_iff.mpr fun hcrashed => hended ?_⟩
        rw [heq] at hcrashed
        exact Outcome.ofResult_eq_pending.mpr hcrashed
      · rename_i hne
        rw [(link_recorded (e.begin art name') ns art name').1, begin, Table.get?_insert,
          if_neg hne] at hget
        exact .inl ⟨record, hget, hended⟩
  | register symbol origin =>
    rw [Event.run, (tables_registerForeign e symbol origin).modules] at hget
    exact .inl ⟨record, hget, hended⟩
  | call qualified args =>
    rw [Event.run, (tables_call e qualified args).modules] at hget
    exact .inl ⟨record, hget, hended⟩

theorem ended_of_after {events : List Event} {name : String} (h : (e.after events).Ended name) :
    e.Ended name ∨ ∃ ns art, .load ns art name ∈ events := by
  induction events generalizing e with
  | nil => exact .inl h
  | cons event events ih =>
    obtain hended | ⟨ns, art, hin⟩ := ih (e := event.run e) h
    · refine (ended_of_run hended).imp_right ?_
      rintro ⟨ns, art, rfl, -⟩
      exact ⟨ns, art, List.mem_cons_self⟩
    · exact .inr ⟨ns, art, List.mem_cons_of_mem _ hin⟩

/-- Modules that are loaded in order are loads one after the other. -/
theorem loadAll_after (e : Engine) (ns : String) (cs : List Compiled) :
    ∃ events : List Event, (loadAll e ns cs).1 = e.after events ∧
      ∀ event ∈ events, ∃ ns', ∃ c ∈ cs, event = .load ns' c.artifact c.module := by
  induction cs generalizing e ns with
  | nil => exact ⟨[], rfl, fun _ h => absurd h List.not_mem_nil⟩
  | cons c cs ih =>
    rcases hload : e.load ns (some c.artifact) c.module with ⟨e₁, ns₁, failure | entry⟩
    · refine ⟨[.load ns c.artifact c.module], ?_, ?_⟩
      · simp only [loadAll, hload, after, List.foldl_cons, List.foldl_nil, Event.run]
      · simp
    · obtain ⟨events, heq, hevents⟩ := ih e₁ ns₁
      refine ⟨.load ns c.artifact c.module :: events, ?_, ?_⟩
      · simp only [loadAll, hload, heq, after, List.foldl_cons, Event.run]
      · intro event hin
        obtain rfl | hin := List.mem_cons.mp hin
        · exact ⟨ns, c, List.mem_cons_self, rfl⟩
        · obtain ⟨ns', c', hc', rfl⟩ := hevents event hin
          exact ⟨ns', c', List.mem_cons_of_mem _ hc', rfl⟩

theorem stateOf_of_unknown {name : String} (h : e.modules.get? name = none) :
    e.stateOf name = .unloaded := by
  rw [stateOf, h]
  rfl

/-- A name that is not known is not known after a load of another one. -/
theorem unknown_of_load (e : Engine) (ns : String) (art : Artifact) {name name' : String}
    (hne : name' ≠ name) (hnew : e.modules.get? name' = none) :
    (e.load ns (some art) name).1.modules.get? name' = none := by
  by_contra hknown
  exact (get?_modules_of_load e ns art name hknown).elim hne fun hold => hold hnew

/-- A load of a name was begun and did not succeed: it failed, or it crashed. -/
def Stopped (e : Engine) (name : String) : Prop :=
  e.stateOf name = .failed ∨ e.stateOf name = .loading

theorem state_ofResult_error (failure : Failure) :
    (Outcome.ofResult (.error failure)).state = .failed ∨
      (Outcome.ofResult (.error failure)).state = .loading := by
  unfold Outcome.ofResult
  dsimp only
  split
  · exact .inr rfl
  · exact .inl rfl

/-- Modules with new names are loaded up to the first that is stopped, and the others stay as they are. -/
theorem loadAll_split (ns : String) {cs : List Compiled} (hopen : e.closed = false)
    (hnames : ∀ c ∈ cs, Loadable c.module ∧ e.modules.get? c.module = none)
    (hnodup : (cs.map (·.module)).Nodup) :
    ∃ done rest, ∃ last : LoadState, cs = done ++ rest ∧ (last = .failed ∨ last = .loading) ∧
      ∀ name, (loadAll e ns cs).1.stateOf name =
        if name ∈ done.map (·.module) then .loaded
        else if rest.head?.map (·.module) = some name then last
        else e.stateOf name := by
  induction cs generalizing e ns with
  | nil => exact ⟨[], [], .failed, rfl, .inl rfl, fun name => by simp [loadAll]⟩
  | cons c cs ih =>
    obtain ⟨hloadable, hnew⟩ := hnames c List.mem_cons_self
    obtain ⟨hother, hnodup⟩ := List.nodup_cons.mp hnodup
    have hstate : ∀ name', (e.load ns (some c.artifact) c.module).1.stateOf name' = _ :=
      stateOf_load hopen hloadable hnew
    have hclosed := (Event.load ns c.artifact c.module).closed_run e
    rcases hload : e.load ns (some c.artifact) c.module with ⟨e₁, ns₁, failure | entry⟩
    · rw [hload] at hstate
      refine ⟨[], c :: cs, _, rfl, state_ofResult_error failure, fun name => ?_⟩
      simp only [loadAll, hload, hstate, List.map_nil, List.not_mem_nil, if_false, List.head?_cons,
        Option.map_some, Option.some.injEq]
      by_cases h : name = c.module
      · rw [if_pos h, if_pos h.symm]
      · rw [if_neg h, if_neg (Ne.symm h)]
    · rw [hload] at hstate
      simp only [Event.run, hload] at hclosed
      have hnames' : ∀ c' ∈ cs, Loadable c'.module ∧ e₁.modules.get? c'.module = none := by
        intro c' hc'
        obtain ⟨hloadable', hnew'⟩ := hnames c' (List.mem_cons_of_mem _ hc')
        have hne : c'.module ≠ c.module := fun heq => hother (List.mem_map.mpr ⟨c', hc', heq⟩)
        have hnew' := unknown_of_load e ns c.artifact hne hnew'
        rw [hload] at hnew'
        exact ⟨hloadable', hnew'⟩
      obtain ⟨done, rest, last, rfl, hlast, hsplit⟩ := ih ns₁ (hclosed.trans hopen) hnames' hnodup
      refine ⟨c :: done, rest, last, rfl, hlast, fun name => ?_⟩
      simp only [loadAll, hload, hsplit, hstate, List.map_cons, List.mem_cons]
      by_cases h : name = c.module
      · subst h
        have hdone : c.module ∉ done.map (·.module) := fun hin =>
          hother (by rw [List.map_append]; exact List.mem_append_left _ hin)
        have hrest : rest.head?.map (·.module) ≠ some c.module := by
          intro hhead
          obtain ⟨c', hc', heq⟩ := Option.map_eq_some_iff.mp hhead
          exact hother (by
            rw [List.map_append]
            exact List.mem_append_right _ (List.mem_map.mpr ⟨c', List.mem_of_mem_head? hc', heq⟩))
        rw [if_neg hdone, if_neg hrest, if_pos rfl, if_pos (.inl rfl)]
        rfl
      · simp only [h, if_false, false_or]

end Engine

/-- The modules that forms are compiled to are named by the stem and a number. -/
theorem Session.requireForms_names {s : Session} {stem : String} {i : Nat} {p p' : Progress}
    {forms : List Form} {stop : Option Failure} (h : s.requireForms stem i p forms = (p', stop)) :
    ∀ m ∈ p'.done.modules, m ∈ p.done.modules ∨ ∃ j : Nat, m.module = s!"{stem}.{j}" := by
  induction forms generalizing i p with
  | nil =>
    cases h
    exact fun m hm => .inl hm
  | cons f forms ih =>
    have hfirst : ∀ m ∈ (s.requireForm p s!"{stem}.{i}" f).1.done.modules,
        m ∈ p.done.modules ∨ ∃ j : Nat, m.module = s!"{stem}.{j}" := by
      obtain ⟨e, he⟩ | ⟨es, node, q, hash, hok, hdef, hq⟩ | ⟨es, node, hok, hcurrent⟩ :=
        s.requireForm_cases p f
      · rw [requireForm_error he]
        exact fun m hm => .inl hm
      · rw [requireForm_skip hok hdef hq]
        exact fun m hm => .inl hm
      · rw [requireForm_build hok hcurrent]
        unfold Progress.build
        dsimp only
        rcases p.compiler.compile _ with ⟨compiler, failure | art⟩
        · exact fun m hm => .inl hm
        · intro m hm
          refine (List.mem_append.mp hm).imp_right fun hm => ?_
          rw [List.mem_singleton.mp hm]
          exact ⟨i, rfl⟩
    rw [requireForms] at h
    rcases hform : s.requireForm p s!"{stem}.{i}" f with ⟨p₁, _ | e⟩
    · rw [hform] at h hfirst
      exact fun m hm => (ih h m hm).elim (hfirst m) .inr
    · rw [hform] at h hfirst
      cases h
      exact hfirst

end WasmLisp
