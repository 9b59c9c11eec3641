import Mathlib
import WasmLisp.Proofs.Lisp.Loading

/-!
# Definitions that are left out are compiled ones

A definition is recorded as current when all forms of the request are compiled. Only then are the modules
loaded, up to the first that is stopped, and the record stays.

* `Session.requireForms_numbers`: the modules of one request are numbered in ascending order, and what is to
  be recorded is defined by some of them;
* `Engine.loadAll_numbered`: such a module is loaded if and only if none up to it is stopped;
* `Evaluator.Tracked`: what a session knows was compiled, whichever calls fail (`Evaluator.Tracked.run`);
* `Evaluator.skipped_loaded_unless_stopped`: a definition that is left out as current was compiled as a module
  of its own, and that is loaded unless one of its request was stopped before it.
-/

namespace WasmLisp

open Evaluator (Call modulePrefix loadAll Used)

/-! ## Modules of one request -/

namespace Session

/-- A unit is one definition with a digest. -/
def Defines (u : CompUnit) (q hash : String) : Prop :=
  ∃ node, u.forms = [node] ∧ definition? (some node) = some (q, hash)

variable {s : Session} {stem : String} {p p' : Progress}

/-- The modules that forms are compiled to are numbered in ascending order, and what is to be recorded of
them is defined by one that was handed to the compiler. -/
theorem requireForms_numbers {i : Nat} {forms : List Form}
    (h : s.requireForms stem i p forms = (p', none)) :
    ∃ js : List Nat,
      p'.done.modules.map (·.module) =
        p.done.modules.map (·.module) ++ js.map (fun j => s!"{stem}.{j}") ∧
      js.Pairwise (· < ·) ∧ (∀ j ∈ js, i ≤ j) ∧
      ∀ q hash, p'.fresh.get? q = some hash → p.fresh.get? q = some hash ∨
        ∃ j ∈ js, ∃ u ∈ s.handedForms stem i p forms, u.name = s!"{stem}.{j}" ∧ Defines u q hash := by
  induction forms generalizing i p with
  | nil =>
    cases h
    exact ⟨[], (List.append_nil _).symm, .nil, fun _ h => absurd h List.not_mem_nil, fun _ _ => .inl⟩
  | cons form forms ih =>
    obtain ⟨p₁, hform⟩ : ∃ p₁, s.requireForm p s!"{stem}.{i}" form = (p₁, none) := by
      rw [requireForms] at h
      rcases hform : s.requireForm p s!"{stem}.{i}" form with ⟨p₁, _ | failure⟩
      · exact ⟨p₁, rfl⟩
      · rw [hform] at h
        cases h
    simp only [requireForms, handedForms, hform] at h ⊢
    obtain ⟨js, hmodules, hsorted, hle, hfresh⟩ := ih h
    obtain ⟨failure, hok⟩ | ⟨es, node, q', hash', hok, hdef, hq⟩ | ⟨es, node, hok, hcurrent⟩ :=
      s.requireForm_cases p form
    · rw [requireForm_error hok] at hform
      cases hform
    · rw [requireForm_skip hok hdef hq] at hform
      cases hform
      refine ⟨js, hmodules, hsorted, fun j hj => (Nat.le_succ i).trans (hle j hj), fun q hash hget => ?_⟩
      refine (hfresh q hash hget).imp_right ?_
      rintro ⟨j, hj, u, hu, hname⟩
      exact ⟨j, hj, u, List.mem_append_right _ hu, hname⟩
    · rw [requireForm_build hok hcurrent, Progress.build] at hform
      rcases hcompile : p.compiler.compile (s.part p.frame.ns s!"{stem}.{i}" es node) with
        ⟨compiler, failure | art⟩
      · simp only [hcompile] at hform
        cases hform
      simp only [hcompile] at hform
      cases hform
      have hunit : s.handedForm p s!"{stem}.{i}" form = [s.part p.frame.ns s!"{stem}.{i}" es node] := by
        simp [handedForm, hok, hcurrent]
      refine ⟨i :: js, by simpa [part] using hmodules, List.pairwise_cons.mpr ⟨hle, hsorted⟩, ?_, ?_⟩
      · intro j hj
        obtain rfl | hj := List.mem_cons.mp hj
        · exact le_rfl
        · exact (Nat.le_succ i).trans (hle j hj)
      · intro q hash hget
        rw [hunit]
        obtain hhere | ⟨j, hj, u, hu, hname⟩ := hfresh q hash hget
        · -- it was to be recorded before, or the form is the definition
          unfold Progress.freshWith at hhere
          dsimp only at hhere
          split at hhere
          · rename_i q₁ hash₁ hdef
            rw [Table.get?_insert] at hhere
            split at hhere
            · rename_i heq
              obtain rfl : hash₁ = hash := Option.some.inj hhere
              subst heq
              obtain ⟨n, rfl⟩ : ∃ n, node = some n := by
                cases node with
                | none => cases hdef
                | some n => exact ⟨n, rfl⟩
              exact .inr ⟨i, List.mem_cons_self, _, List.mem_cons_self, rfl, n, rfl, hdef⟩
            · exact .inl hhere
          · exact .inl hhere
        · exact .inr ⟨j, List.mem_cons_of_mem _ hj, u, List.mem_cons_of_mem _ hu, hname⟩

end Session

namespace Engine

variable {e : Engine} {stem : String}

/-- Modules with numbers are loaded up to the first that is stopped, and all other names stay as they
are. -/
theorem stateOf_loadAll_numbered (ns : String) {cs : List Compiled} {js : List Nat}
    (hopen : e.closed = false) (hmodules : cs.map (·.module) = js.map (fun j => s!"{stem}.{j}"))
    (hnodup : js.Nodup)
    (hnew : ∀ j : Nat, Loadable s!"{stem}.{j}" ∧ e.modules.get? s!"{stem}.{j}" = none) :
    ∃ loaded others, ∃ last : LoadState, js = loaded ++ others ∧
      (last = .failed ∨ last = .loading) ∧
      (∀ k : Nat, (loadAll e ns cs).1.stateOf s!"{stem}.{k}" =
        if k ∈ loaded then .loaded else if others.head? = some k then last else .unloaded) ∧
      ∀ name, (∀ j : Nat, name ≠ s!"{stem}.{j}") →
        (loadAll e ns cs).1.stateOf name = e.stateOf name := by
  have hnumber : ∀ c ∈ cs, ∃ j ∈ js, c.module = s!"{stem}.{j}" := by
    intro c hc
    have hmem : c.module ∈ js.map (fun j => s!"{stem}.{j}") := hmodules ▸ List.mem_map_of_mem hc
    obtain ⟨j, hj, heq⟩ := List.mem_map.mp hmem
    exact ⟨j, hj, heq.symm⟩
  have hnames : (cs.map (·.module)).Nodup := by
    rw [hmodules]
    exact hnodup.map fun _ _ heq => (Evaluator.numbered_inj heq).2
  obtain ⟨done, rest, last, rfl, hlast, hstate⟩ := loadAll_split (e := e) ns hopen (fun c hc => by
    obtain ⟨j, -, heq⟩ := hnumber c hc
    exact heq ▸ hnew j) hnames
  rw [List.map_append] at hmodules
  obtain ⟨loaded, others, rfl, hloaded, hothers⟩ := List.map_eq_append_iff.mp hmodules.symm
  refine ⟨loaded, others, last, rfl, hlast, fun k => ?_, fun name hother => ?_⟩
  · have hin : s!"{stem}.{k}" ∈ done.map (·.module) ↔ k ∈ loaded := by
      rw [← hloaded, List.mem_map]
      exact ⟨fun ⟨j, hj, heq⟩ => (Evaluator.numbered_inj heq).2 ▸ hj, fun hk => ⟨k, hk, rfl⟩⟩
    have hhead : rest.head?.map (·.module) = some s!"{stem}.{k}" ↔ others.head? = some k := by
      rw [← List.head?_map, ← hothers, List.head?_map, Option.map_eq_some_iff]
      exact ⟨fun ⟨j, hj, heq⟩ => (Evaluator.numbered_inj heq).2 ▸ hj, fun hk => ⟨k, hk, rfl⟩⟩
    rw [hstate, stateOf_of_unknown (hnew k).2]
    simp only [hin, hhead]
  · have hnone : ∀ c ∈ done ++ rest, c.module ≠ name := by
      intro c hc heq
      obtain ⟨j, -, hj⟩ := hnumber c hc
      exact hother j (heq ▸ hj)
    rw [hstate, if_neg, if_neg]
    · intro hhead
      obtain ⟨c, hc, heq⟩ := Option.map_eq_some_iff.mp hhead
      exact hnone c (List.mem_append_right _ (List.mem_of_mem_head? hc)) heq
    · intro hin
      obtain ⟨c, hc, heq⟩ := List.mem_map.mp hin
      exact hnone c (List.mem_append_left _ hc) heq

/-- If the numbers ascend, such a module is loaded if and only if none up to it is stopped. -/
theorem loadAll_numbered (ns : String) {cs : List Compiled} {js : List Nat} (hopen : e.closed = false)
    (hmodules : cs.map (·.module) = js.map (fun j => s!"{stem}.{j}")) (hsorted : js.Pairwise (· < ·))
    (hnew : ∀ j : Nat, Loadable s!"{stem}.{j}" ∧ e.modules.get? s!"{stem}.{j}" = none) :
    (∀ j ∈ js, (loadAll e ns cs).1.stateOf s!"{stem}.{j}" = .loaded ↔
      ∀ k ≤ j, ¬(loadAll e ns cs).1.Stopped s!"{stem}.{k}") ∧
    ∀ name, (∀ j : Nat, name ≠ s!"{stem}.{j}") →
      (loadAll e ns cs).1.stateOf name = e.stateOf name := by
  obtain ⟨loaded, others, last, rfl, hlast, hnumbered, hkept⟩ :=
    stateOf_loadAll_numbered ns hopen hmodules (hsorted.imp Nat.ne_of_lt) hnew
  obtain ⟨-, hascending, hapart⟩ := List.pairwise_append.mp hsorted
  refine ⟨fun j hj => ?_, hkept⟩
  obtain hj | hj := List.mem_append.mp hj
  · -- it is loaded, and what is stopped comes after it
    refine iff_of_true ((hnumbered j).trans (if_pos hj)) fun k hk hstopped => ?_
    rw [Stopped, hnumbered] at hstopped
    split at hstopped
    · simp at hstopped
    · split at hstopped
      · rename_i hhead
        exact absurd (hapart j hj k (List.mem_of_mem_head? hhead)) (Nat.not_lt.mpr hk)
      · simp at hstopped
  · -- the first of the others is stopped
    cases others with
    | nil => exact absurd hj List.not_mem_nil
    | cons k others =>
      have hnot : ∀ i ∈ k :: others, i ∉ loaded := fun i hi hin => lt_irrefl i (hapart i hin i hi)
      have hle : k ≤ j := by
        obtain rfl | hj := List.mem_cons.mp hj
        · exact le_rfl
        · exact ((List.pairwise_cons.mp hascending).1 j hj).le
      refine iff_of_false (fun hloaded => ?_) fun hall => hall k hle ?_
      · rw [hnumbered, if_neg (hnot j hj)] at hloaded
        split at hloaded
        · rw [hloaded] at hlast
          simp at hlast
        · cases hloaded
      · rw [Stopped, hnumbered, if_neg (hnot k List.mem_cons_self), List.head?_cons, if_pos rfl]
        exact hlast

end Engine

/-! ## What a session knows -/

namespace Session

@[simp] theorem settle_requires {α : Type} (s : Session) (f : Frame) (r : Result α) :
    (s.settle f r).requires = s.requires := by
  cases r <;> rfl

theorem compile_requires (s : Session) (c : Compiler) (module src : String) :
    (s.compile c module src).1.requires = s.requires := by
  unfold compile
  split
  · rfl
  · split
    · exact settle_requires _ _ _
    · exact settle_requires _ _ _

theorem require_requires (s : Session) (c : Compiler) (modulePrefix src : String) :
    s.requires ≤ (s.require c modulePrefix src).1.requires := by
  unfold require
  split
  · exact le_rfl
  · split
    · exact le_rfl
    · dsimp only
      split <;> exact Nat.le_succ _

/-- A request that fails records nothing. -/
theorem require_error_tracker {s s' : Session} {c c' : Compiler} {modulePrefix src : String}
    {failure : Failure} (h : s.require c modulePrefix src = (s', c', .error failure)) :
    s'.tracker = s.tracker := by
  unfold require at h
  split at h
  · cases h
    rfl
  · split at h
    · cases h
      rfl
    · dsimp only at h
      split at h
      · cases h
        rfl
      · cases h

theorem switchTo_requires (s : Session) (ns : String) : (s.switchTo ns).requires = s.requires := by
  unfold switchTo
  split <;> rfl

end Session

namespace Evaluator

/-- A module of a request is loaded if and only if none up to it is stopped. -/
def LoadedUnlessStopped (e : Engine) (n i : Nat) : Prop :=
  e.stateOf (Session.moduleName modulePrefix n i) = .loaded ↔
    ∀ j ≤ i, ¬e.Stopped (Session.moduleName modulePrefix n j)

theorem LoadedUnlessStopped.congr {e e' : Engine} {n i : Nat} (h : LoadedUnlessStopped e n i)
    (hsame : ∀ j, e'.stateOf (Session.moduleName modulePrefix n j) =
      e.stateOf (Session.moduleName modulePrefix n j)) : LoadedUnlessStopped e' n i := by
  simpa only [LoadedUnlessStopped, Engine.Stopped, hsame] using h

/-- A module was handed to the compiler that is a definition with a digest, and it is loaded unless one of its
request is stopped. -/
def Backed (units : List CompUnit) (requires : Nat) (e : Engine) (q hash : String) : Prop :=
  ∃ n ≤ requires, ∃ i, LoadedUnlessStopped e n i ∧
    ∃ u ∈ units, u.name = Session.moduleName modulePrefix n i ∧ Session.Defines u q hash

/-- Every definition that the session knows was handed to the compiler, and the engine knows the modules of
the evaluator only. -/
structure Tracked (units : List CompUnit) (v : Evaluator) (s : Lisp) : Prop where
  opened : s.engine.closed = false
  used : ∀ name, s.engine.modules.get? name ≠ none → Used v.evals v.session.requires name
  backed : ∀ q hash, v.session.tracker.hashes.get? q = some hash →
    Backed units v.session.requires s.engine q hash

variable {units : List CompUnit} {v : Evaluator} {s : Lisp}

theorem Backed.mono {units' : List CompUnit} {requires requires' : Nat} {e e' : Engine} {q hash : String}
    (h : Backed units requires e q hash) (hunits : units ⊆ units') (hrequires : requires ≤ requires')
    (hsame : ∀ n ≤ requires, ∀ j, e'.stateOf (Session.moduleName modulePrefix n j) =
      e.stateOf (Session.moduleName modulePrefix n j)) : Backed units' requires' e' q hash := by
  obtain ⟨n, hn, i, hloaded, u, hu, hdefines⟩ := h
  exact ⟨n, hn.trans hrequires, i, hloaded.congr (hsame n hn), u, hunits hu, hdefines⟩

/-- An evaluation leaves the modules of requests as they are. -/
theorem Tracked.eval (h : Tracked units v s) (src : String) :
    Tracked (units ++ (Call.eval src).handed v s) (v.eval s src).1 (v.eval s src).2.1 ∧
      ∀ n ≤ v.session.requires, ∀ j,
        (v.eval s src).2.1.engine.stateOf (Session.moduleName modulePrefix n j) =
          s.engine.stateOf (Session.moduleName modulePrefix n j) := by
  generalize hhanded : (Call.eval src).handed v s = handed
  clear hhanded
  have htracker := Session.compile_tracker (v.session.switchTo v.ns) s.compiler
    (moduleName modulePrefix (v.evals + 1)) src
  have hrequires := Session.compile_requires (v.session.switchTo v.ns) s.compiler
    (moduleName modulePrefix (v.evals + 1)) src
  rw [Session.switchTo_tracker] at htracker
  rw [Session.switchTo_requires] at hrequires
  unfold Evaluator.eval
  dsimp only
  rcases hcompile : (v.session.switchTo v.ns).compile s.compiler (moduleName modulePrefix (v.evals + 1))
    src with ⟨session, compiler, failure | m⟩
  · rw [hcompile] at htracker hrequires
    unfold moduleName at hcompile
    rw [hcompile]
    refine ⟨⟨h.opened, fun name hname => ?_, fun q hash hget => ?_⟩, fun _ _ _ => rfl⟩
    · exact (h.used name hname).mono (Nat.le_succ _) hrequires.ge
    · rw [htracker] at hget
      exact (h.backed q hash hget).mono (List.subset_append_left _ _) hrequires.ge fun _ _ _ => rfl
  · obtain ⟨_, _, _, art, -, -, -, rfl, -⟩ := Session.compile_eq_ok hcompile
    rw [hcompile] at htracker hrequires
    unfold moduleName at hcompile
    rw [hcompile]
    dsimp only at htracker hrequires ⊢
    have hnew : s.engine.modules.get? (moduleName modulePrefix (v.evals + 1)) = none := by
      by_contra hknown
      exact not_used_eval _ _ (h.used _ hknown)
    have hsame : ∀ n j, (s.engine.load v.ns (some art) (moduleName modulePrefix (v.evals + 1))).1.stateOf
        (Session.moduleName modulePrefix n j) = s.engine.stateOf (Session.moduleName modulePrefix n j) := by
      intro n j
      rw [Engine.stateOf_load h.opened (loadable_moduleName _) hnew, if_neg]
      exact moduleName_ne_requiredName.symm
    refine ⟨⟨?_, fun name hname => ?_, fun q hash hget => ?_⟩, fun n _ j => hsame n j⟩
    · exact ((Engine.Event.load v.ns art _).closed_run s.engine).trans h.opened
    · obtain rfl | hold := Engine.get?_modules_of_load _ _ _ _ hname
      · exact .inl ⟨v.evals + 1, le_rfl, rfl⟩
      · exact (h.used name hold).mono (Nat.le_succ _) hrequires.ge
    · rw [htracker] at hget
      exact (h.backed q hash hget).mono (List.subset_append_left _ _) hrequires.ge fun n _ j => hsame n j

/-- A require that is compiled makes known what its modules define, whether they are loaded or not. -/
theorem Tracked.require (h : Tracked units v s) (src : String) :
    Tracked (units ++ (Call.require src).handed v s) (v.require s src).1 (v.require s src).2.1 ∧
      ∀ n ≤ v.session.requires, ∀ j,
        (v.require s src).2.1.engine.stateOf (Session.moduleName modulePrefix n j) =
          s.engine.stateOf (Session.moduleName modulePrefix n j) := by
  have hrequires := Session.require_requires (v.session.switchTo v.ns) s.compiler modulePrefix src
  rw [Session.switchTo_requires] at hrequires
  unfold Evaluator.require
  dsimp only
  rcases hrequire : (v.session.switchTo v.ns).require s.compiler modulePrefix src with
    ⟨session, compiler, failure | q⟩
  · rw [hrequire] at hrequires
    have htracker : session.tracker = v.session.tracker := by
      rw [Session.require_error_tracker hrequire, Session.switchTo_tracker]
    refine ⟨⟨h.opened, fun name hname => ?_, fun q hash hget => ?_⟩, fun _ _ _ => rfl⟩
    · exact (h.used name hname).mono le_rfl hrequires
    · rw [htracker] at hget
      exact (h.backed q hash hget).mono (List.subset_append_left _ _) hrequires fun _ _ _ => rfl
  · obtain ⟨forms, p, hprefix, hread, hforms, rfl, rfl, rfl⟩ := Session.require_eq_ok hrequire
    obtain ⟨js, hmodules, hsorted, -, hfresh⟩ := Session.requireForms_numbers hforms
    obtain ⟨events, hevents, hloads⟩ := Engine.loadAll_after s.engine v.ns p.done.modules
    rw [List.map_nil, List.nil_append] at hmodules
    have hrequires' : v.session.requires ≤ (v.session.switchTo v.ns).requires + 1 := by
      rw [hrequire] at hrequires
      exact hrequires
    obtain ⟨hloaded, hothers⟩ := Engine.loadAll_numbered v.ns h.opened hmodules hsorted fun j => by
      refine ⟨loadable_requiredName _ j, ?_⟩
      by_contra hknown
      rw [Session.switchTo_requires] at hknown
      exact not_used_require _ _ j (h.used _ hknown)
    have hsame : ∀ n ≤ v.session.requires, ∀ j,
        (loadAll s.engine v.ns p.done.modules).1.stateOf (Session.moduleName modulePrefix n j) =
          s.engine.stateOf (Session.moduleName modulePrefix n j) := by
      intro n hn j
      refine hothers _ fun k heq => ?_
      have hnumber := (requiredName_inj heq).1
      rw [Session.switchTo_requires] at hnumber
      omega
    refine ⟨⟨?_, fun name hname => ?_, fun q hash hget => ?_⟩, hsame⟩
    · show (loadAll s.engine v.ns p.done.modules).1.closed = false
      rw [hevents, Engine.closed_after]
      exact h.opened
    · have hknown : (s.engine.after events).modules.get? name ≠ none := hevents ▸ hname
      obtain hold | ⟨ns, art, hin⟩ := Engine.known_after hknown
      · exact (h.used name hold).mono le_rfl hrequires'
      · obtain ⟨ns', c, hc, hload⟩ := hloads _ hin
        obtain ⟨-, -, rfl⟩ := Engine.Event.load.inj hload
        have hmem : c.module ∈ js.map _ := hmodules ▸ List.mem_map_of_mem hc
        obtain ⟨j, -, heq⟩ := List.mem_map.mp hmem
        exact .inr ⟨_, le_rfl, j, heq.symm⟩
    · obtain ⟨hordered, -⟩ := Session.requireForms_fresh (p := { frame := _, compiler := _ }) .nil hforms
      have hrecorded := DefTracker.get?_record_all hordered (v.session.switchTo v.ns).tracker q
      rw [Session.switchTo_tracker] at hrecorded
      have hget' : (p.fresh.get? q).or (v.session.tracker.hashes.get? q) = some hash := by
        rw [← hrecorded, ← Session.switchTo_tracker v.session v.ns]
        exact hget
      obtain hnow | ⟨-, hold⟩ := Option.or_eq_some_iff.mp hget'
      · obtain hnone | ⟨j, hj, u, hu, hname, hdefines⟩ := hfresh q hash hnow
        · cases hnone
        · refine ⟨_, le_rfl, j, hloaded j hj, u, List.mem_append_right _ ?_, hname, hdefines⟩
          unfold Call.handed Session.handed Call.request
          simp only [if_neg hprefix, hread]
          exact hu
      · exact (h.backed q hash hold).mono (List.subset_append_left _ _) hrequires' hsame

/-- Whether a call succeeds or fails, the evaluator knows only what was compiled. -/
theorem Tracked.run (h : Tracked units v s) (c : Call) :
    Tracked (units ++ c.handed v s) (c.run v s).1 (c.run v s).2.1 := by
  cases c with
  | eval src => exact (h.eval src).1
  | require src => exact (h.require src).1

/-- The evaluator and the Lisp after calls one after the other, whether they succeed or fail. -/
def after (v : Evaluator) (s : Lisp) : List Call → Evaluator × Lisp
  | [] => (v, s)
  | c :: rest => after (c.run v s).1 (c.run v s).2.1 rest

theorem Tracked.after (h : Tracked units v s) (calls : List Call) :
    Tracked (units ++ handedAll v s calls) (after v s calls).1 (after v s calls).2 := by
  induction calls generalizing units v s with
  | nil =>
    rw [handedAll, List.append_nil]
    exact h
  | cons c calls ih =>
    rw [handedAll, ← List.append_assoc]
    exact ih (h.run c)

/-- A new evaluator knows no definition, and a fresh engine no module. -/
theorem tracked_new {target : Target} {registry : Registry} {catalog : Option Catalog}
    {around : Surroundings} (hengine : s.engine = { registry, catalog, around })
    (hv : Evaluator.new s target = .ok v) : Tracked [] v s := by
  obtain ⟨session, hsession, rfl⟩ := new_eq_ok hv
  obtain ⟨env, -, rfl⟩ := Session.new_eq_ok hsession
  refine ⟨by rw [hengine], fun name hname => absurd ?_ hname, fun q hash hget => ?_⟩
  · rw [hengine]
    rfl
  · cases hget

/-- What is left out as current was compiled, and is loaded unless its request was stopped. Whatever an
evaluator of a Lisp with a fresh engine has been asked, failed calls included: a require that succeeds
reports the definitions that it leaves out, and each of them was handed to the compiler by an earlier call as
a module of its own, with the same name and digest. That module is loaded if and only if neither it nor one
with a lower number in its request has failed or crashed. -/
theorem skipped_loaded_unless_stopped {s : Lisp} {target : Target} {v : Evaluator} {registry : Registry}
    {catalog : Option Catalog} {around : Surroundings} (hengine : s.engine = { registry, catalog, around })
    (hv : Evaluator.new s target = .ok v) (calls : List Call) {v₁ v₂ : Evaluator} {s₁ s₂ : Lisp}
    (hafter : after v s calls = (v₁, s₁)) {src : String} {skipped : List String}
    (hrun : v₁.require s₁ src = (v₂, s₂, .ok skipped)) :
    let stages := (v₁.session.switchTo v₁.ns).requireStages s₁.compiler modulePrefix src
    skipped = stages.filterMap (Session.Stage.skipped? v₁.session.tracker) ∧
    ∀ x ∈ stages, ∀ q hash, x.definition? = some (q, hash) →
      x.skipped? v₁.session.tracker = some q →
      ∃ n i, ∃ u ∈ handedAll v s calls, u.name = Session.moduleName modulePrefix n i ∧
        Session.Defines u q hash ∧
        (s₂.engine.stateOf u.name = .loaded ↔
          ∀ j ≤ i, ¬s₂.engine.Stopped (Session.moduleName modulePrefix n j)) := by
  have htracked := (tracked_new hengine hv).after calls
  rw [hafter, List.nil_append] at htracked
  have hsame := (htracked.require src).2
  rw [hrun] at hsame
  obtain ⟨session, compiler, q, engine, ns, hrequire, -, rfl, -, -⟩ := require_eq_ok hrun
  have hskipped := Session.require_skipped (by rw [hrequire])
  rw [Session.switchTo_tracker] at hskipped
  refine ⟨hskipped, fun x _ q hash hdef hleft => ?_⟩
  have hcurrent : v₁.session.tracker.hashes.get? q = some hash := by
    rw [Session.Stage.skipped?, hdef] at hleft
    simpa [DefTracker.changed] using hleft
  obtain ⟨n, hn, i, hloaded, u, hu, hname, hdefines⟩ := htracked.backed q hash hcurrent
  refine ⟨n, i, u, hu, hname, hdefines, ?_⟩
  rw [hname]
  exact hloaded.congr (hsame n hn)

/-! ## A request that is stopped -/

/-- A request whose first module fails when it is loaded. -/
def stoppedCalls : List Call := [.require "(quot 1 0) (defn f [] 1)"]

/-- The evaluator and the Lisp that it leaves. -/
def stopped : Evaluator × Lisp := Evaluator.after smallEvaluator smallLisp stoppedCalls

/-- The definition alone is required again. -/
def requiredAgain : Evaluator × Lisp × Result (List String) :=
  stopped.1.require stopped.2 "(defn f [] 1)"

/-- It is left out, no module is loaded that defines the name, and the name cannot be called. -/
theorem requiredAgain_skips :
    requiredAgain.2.2.toOption = some ["user/f"] ∧
      (∀ u ∈ handedAll smallEvaluator smallLisp stoppedCalls, ∀ node ∈ u.forms,
        Session.definedName? node = some "user/f" →
          requiredAgain.2.1.engine.stateOf u.name = .unloaded) ∧
      (requiredAgain.1.eval requiredAgain.2.1 "(f)").2.2.isOk = false := by
  decide +kernel

/-- What is left out was compiled by the request that was stopped. -/
theorem skipped_loaded_unless_stopped_again : ∃ hash n i,
    ∃ u ∈ handedAll smallEvaluator smallLisp stoppedCalls,
      u.name = Session.moduleName modulePrefix n i ∧ Session.Defines u "user/f" hash ∧
      (requiredAgain.2.1.engine.stateOf u.name = .loaded ↔
        ∀ j ≤ i, ¬requiredAgain.2.1.engine.Stopped (Session.moduleName modulePrefix n j)) := by
  have hanswer := Except.eq_ok_of_toOption requiredAgain_skips.1
  unfold requiredAgain at hanswer ⊢
  rcases hstopped : stopped with ⟨v₁, s₁⟩
  rw [hstopped] at hanswer
  dsimp only at hanswer ⊢
  rcases hrun : v₁.require s₁ "(defn f [] 1)" with ⟨v₂, s₂, r⟩
  rw [hrun] at hanswer
  obtain rfl : r = .ok ["user/f"] := hanswer
  have hengine : smallLisp.engine = { registry := {}, catalog := some Catalog.standard, around := {} } := rfl
  obtain ⟨hskipped, hloaded⟩ :=
    skipped_loaded_unless_stopped hengine new_smallEvaluator stoppedCalls hstopped hrun
  have hmem : "user/f" ∈ ["user/f"] := List.mem_singleton_self _
  rw [hskipped] at hmem
  obtain ⟨x, hx, hleft⟩ := List.mem_filterMap.mp hmem
  obtain ⟨⟨q, hash⟩, hdef, hchanged⟩ := Option.bind_eq_some_iff.mp hleft
  obtain rfl := Option.some.inj (Option.ite_none_left_eq_some.mp hchanged).2
  exact ⟨hash, hloaded x hx _ hash hdef hleft⟩

/-- A definition is left out as current although no module is loaded that defines it. -/
theorem skipped_although_unloaded : ∃ v s, requiredAgain = (v, s, .ok ["user/f"]) ∧
    (∀ u ∈ handedAll smallEvaluator smallLisp stoppedCalls, ∀ hash,
      Session.Defines u "user/f" hash → s.engine.stateOf u.name = .unloaded) ∧
    (v.eval s "(f)").2.2.isOk = false := by
  obtain ⟨hanswer, hunloaded, hfails⟩ := requiredAgain_skips
  generalize requiredAgain = required at hanswer hunloaded hfails ⊢
  obtain ⟨v, s, r⟩ := required
  obtain rfl : r = .ok ["user/f"] := Except.eq_ok_of_toOption hanswer
  refine ⟨v, s, rfl, ?_, hfails⟩
  rintro u hu hash ⟨node, hforms, hdef⟩
  obtain ⟨name, hname, heq⟩ := Option.bind_eq_some_iff.mp hdef
  cases heq
  exact hunloaded u hu node (hforms ▸ List.mem_singleton_self _) hname

end Evaluator

end WasmLisp
