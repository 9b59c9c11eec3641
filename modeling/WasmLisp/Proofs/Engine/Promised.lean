import Mathlib
import WasmLisp.Proofs.Engine.Linked
import WasmLisp.Proofs.Engine.Once

/-!
# What a manifest promises

A manifest names an entry and functions, and says nothing of what the binary exports. An engine that
calls a function that is not there, or takes the first of no results, crashes. This is exactly when that
happens:

* `Engine.crashed_call_iff`: the module of a function does not export it, or it comes back without a value;
* `Engine.crashed_link_iff`: the entry comes back without a value, and no effect is refused after it;
* `Engine.survives_iff`: both for an engine that was asked to do anything before. The module of a function
  is then live (`Engine.Live`), so that nothing else stands between a call and a crash.
-/

namespace WasmLisp.Engine

variable {e e₁ e₂ : Engine} {name q : String} {args : List Int64}

/-! ## Calls -/

/-- A call of a function that was recorded crashes if its module is live and does not export it, or if it
comes back without a value. -/
theorem crashed_call_iff (e : Engine) (q : String) (args : List Int64) :
    crashed (e.call q args).2 = true ↔ ∃ p, e.funcs.get? q = some p ∧ (args.length : Int) = p.arity ∧
      (e.store.find? p.module).isSome ∧
      ∀ a, e.exportedFunction? p.module q = some a → e.ComesBackEmpty a args := by
  unfold call
  cases hp : e.funcs.get? q with
  | none => exact iff_of_false Bool.false_ne_true (by simp)
  | some p =>
    simp only [Option.some.injEq, exists_eq_left']
    by_cases harity : (args.length : Int) = p.arity
    · rw [if_neg (not_not.mpr harity)]
      cases hlive : e.store.find? p.module with
      | none => exact iff_of_false Bool.false_ne_true (by simp)
      | some i =>
        simp only [Option.isNone_some, Bool.false_eq_true, if_false, harity, Option.isSome_some,
          true_and]
        cases ha : e.exportedFunction? p.module q with
        | none => exact iff_of_true rfl (by simp)
        | some a =>
          simp only [Option.some.injEq, forall_eq']
          rw [← crashed_invokeForValue_iff, crashed_mapError]
          · intro failure hcrash
            exact if_pos hcrash
          · intro failure hcrash
            rw [if_neg (by simp [hcrash])]
            exact hcrash
    · rw [if_pos harity]
      exact iff_of_false Bool.false_ne_true (by simp [harity])

/-! ## Loads -/

/-- What is found out about an artifact and the engine in which its entry is called, once its instance is
made. -/
def entered? (e : Engine) (art : Artifact) (name : String) : Option (Prepared × Engine) :=
  match e.prepare art name with
  | .error _ => none
  | .ok a =>
    match e.bound name a with
    | (_, .error _) => none
    | (e, .ok p) =>
      match Binary.redirectImports p.target art.bytes, e.bindersTaken? name p with
      | .ok redirected, none =>
        match (e.bindVars name p).instantiate redirected.bytes name with
        | (_, some _) => none
        | (e, none) => some (a, e)
      | _, _ => none

/-- An engine in the namespace in which an entry runs. -/
def within (e : Engine) (ns : String) : Engine := { e with env := e.env.ensure ns }

/-- All effects are carried out once the entry has ended. -/
def CarriesOut (e : Engine) (ns : String) (entry : Nat) (effects : List Effect) : Prop :=
  (({ env := ((e.within ns).invoke entry []).1.env, ns } : Frame).apply effects).2 = none

/-- A load crashes if the entry comes back without a value, and no effect is refused after it. -/
def CrashesAt (e : Engine) (ns name : String) (a : Prepared) : Prop :=
  ∃ entry, e.exportedFunction? name a.entry = some entry ∧ (e.within ns).ComesBackEmpty entry [] ∧
    e.CarriesOut ns entry a.manifest.effects

theorem crashesAt_iff (e : Engine) (ns name : String) (a : Prepared) :
    e.CrashesAt ns name a ↔ ∃ e' ns' entry,
      e.initialise ns name a.entry a.manifest.effects = (e', ns', .ok (entry, [])) := by
  constructor
  · rintro ⟨entry, hentry, hempty, hcarried⟩
    unfold ComesBackEmpty within at hempty
    unfold CarriesOut within at hcarried
    unfold initialise
    rw [hentry]
    dsimp only
    rcases hrun : invoke { e with env := e.env.ensure ns } entry [] with ⟨e₁, out⟩
    rw [hrun] at hempty hcarried
    cases hempty
    dsimp only at hcarried ⊢
    rcases happly : ({ env := e₁.env, ns } : Frame).apply a.manifest.effects with ⟨frame, fault⟩
    rw [happly] at hcarried
    cases hcarried
    exact ⟨_, _, _, rfl⟩
  · rintro ⟨e', ns', entry, hinit⟩
    obtain ⟨e₁, frame, hentry, hrun, happly, -, -⟩ := initialise_eq_ok hinit
    refine ⟨entry, hentry, congrArg Prod.snd hrun, ?_⟩
    unfold CarriesOut within
    rw [hrun]
    exact congrArg Prod.snd happly

theorem crashed_link_iff (e : Engine) (ns : String) (art : Artifact) (name : String) :
    crashed (e.link ns art name).2.2 = true ↔
      ∃ a e₁, e.entered? art name = some (a, e₁) ∧ e₁.CrashesAt ns name a := by
  -- whatever can fail before the entry is called reports it
  have hprepare := crashed_prepare e art name
  unfold link entered?
  cases hp : e.prepare art name with
  | error failure =>
    rw [hp] at hprepare
    exact iff_of_false (ne_true_of_eq_false hprepare) (by simp)
  | ok a =>
    have hbound := crashed_resolveAll e.materialize name a.info {} a.info.imports
    unfold bound
    dsimp only
    generalize e.materialize.resolveAll name a.info {} a.info.imports = resolved at hbound ⊢
    rcases resolved with ⟨e₁, failure | p⟩
    · exact iff_of_false (ne_true_of_eq_false hbound) (by simp)
    dsimp only
    cases Binary.redirectImports p.target art.bytes with
    | error fault => exact iff_of_false Bool.false_ne_true (by simp)
    | ok redirected =>
      dsimp only [start]
      cases e₁.bindersTaken? name p with
      | some cause => exact iff_of_false Bool.false_ne_true (by simp)
      | none =>
        dsimp only
        rcases (e₁.bindVars name p).instantiate redirected.bytes name with ⟨e₂, _ | cause⟩
        · simp only [Option.some.injEq, Prod.mk.injEq, and_assoc, exists_eq_left', exists_and_left]
          rw [crashesAt_iff]
          rcases hinit : e₂.initialise ns name a.entry a.manifest.effects with
            ⟨e₃, ns', failure | ⟨entry, _ | ⟨v, vs⟩⟩⟩
          · exact iff_of_false (ne_true_of_eq_false (crashed_initialise hinit)) (by simp)
          · exact iff_of_true rfl ⟨e₃, ns', entry, rfl⟩
          · exact iff_of_false Bool.false_ne_true (by simp)
        · exact iff_of_false Bool.false_ne_true (by simp)

/-! ## Live modules -/

/-- The module of every function that was recorded is live. -/
def Live (e : Engine) : Prop :=
  ∀ q p, e.funcs.get? q = some p → (e.store.find? p.module).isSome

theorem Live.grown (he : e.Live) (hfuncs : e₁.funcs = e.funcs) (hgrown : e.store.Grown e₁.store) :
    e₁.Live := by
  intro q p hp
  rw [hfuncs] at hp
  exact hgrown.find?_isSome (he q p hp)

theorem Live.ran (he : e.Live) (h : e.Ran e₁) : e₁.Live := he.grown h.tables.funcs h.store

theorem find?_of_exportedFunction? {x : String} {a : Nat} (h : e.exportedFunction? name x = some a) :
    (e.store.find? name).isSome := by
  unfold exportedFunction? Machine.Store.export? at h
  cases hfind : e.store.find? name with
  | some i => rfl
  | none =>
    rw [hfind] at h
    cases h

/-- An artifact that is linked has a live instance, in which its entry was found. -/
theorem find?_link {ns : String} {art : Artifact}
    (hr : (e.link ns art name).2.2.isOk = true ∨ crashed (e.link ns art name).2.2 = true) :
    ((e.link ns art name).1.store.find? name).isSome := by
  rcases hlink : e.link ns art name with ⟨e₁, ns', r⟩
  rw [hlink] at hr
  obtain ⟨a, p, e₂, b, -, -, -, hstart⟩ := link_eq_published hlink hr
  obtain ⟨m, s, e₃, e₄, function, values, frame, hstarted, rfl, -, -⟩ := start_eq_published hstart hr
  have hran := (ran_invoke { e₃ with env := e₃.env.ensure ns } function []).store
  rw [hstarted.ran] at hran
  exact hran.find?_isSome (find?_of_exportedFunction? hstarted.entry)

theorem Live.link (he : e.Live) (ns : String) (art : Artifact) (name : String) :
    (e.link ns art name).1.Live := by
  have hsearched : ∀ a, (e.bound name a).1.Live := by
    intro a
    have hbound := searched_bound e name a
    obtain ⟨_, store, _, _, _, _, heq, hgrown⟩ := id hbound
    refine he.grown hbound.tables.funcs ?_
    rw [heq]
    exact hgrown
  obtain ⟨-, e₁, hran, rfl | ⟨a, -, rfl⟩⟩ | ⟨hend, a, p, e₁, e₂, -, hbound, hran, hpublish⟩ :=
    link_cases e ns art name
  · exact he.ran hran
  · exact (hsearched a).ran hran
  · -- the functions that are new are those of the module itself
    have hlive : e₂.Live := by
      have h := hsearched a
      rw [hbound] at h
      exact h.ran hran
    have hself : (e₂.store.find? name).isSome := by
      have hfound := find?_link hend
      rwa [hpublish] at hfound
    rw [hpublish]
    intro q p hp
    obtain ⟨arity, -, hown⟩ | ⟨-, hold⟩ :=
      funcs_publish e₂ name a.manifest.functions a.info.exportedGlobals q
    · cases hown.symm.trans hp
      exact hself
    · exact hlive q p (hold.symm.trans hp)

theorem Live.run (he : e.Live) (event : Event) : (event.run e).Live := by
  cases event with
  | load ns art name =>
    show (e.load ns (some art) name).1.Live
    obtain ⟨failure, -, heq⟩ | ⟨-, record, result, metrics, -, -, heq⟩ | ⟨-, -, heq⟩ :=
      load_cases e ns art name
    · rw [heq]
      exact he
    · rw [heq]
      exact he
    · rw [heq]
      have hbegun : (e.begin art name).Live := he
      exact hbegun.link ns art name
  | register symbol origin =>
    refine he.grown (tables_registerForeign e symbol origin).funcs ?_
    show e.store.Grown (e.registerForeign symbol origin).1.store
    unfold registerForeign
    split
    · exact .refl _
    · split <;> exact .refl _
  | call qualified args =>
    show (e.call qualified args).1.Live
    obtain heq | ⟨function, heq⟩ := call_cases e qualified args
    · rwa [heq]
    · rw [heq]
      exact he.ran (ran_invokeForValue e function args)

/-- The modules of all functions stay live, whatever an engine is asked to do before it is closed. -/
theorem Live.after (he : e.Live) (events : List Event) : (e.after events).Live := by
  induction events generalizing e with
  | nil => exact he
  | cons event events ih => exact ih (he.run event)

theorem live_fresh (registry : Registry) (catalog : Option Catalog) (env : Env)
    (around : Surroundings) : Live { registry, catalog, env, around } :=
  fun q p hp => absurd hp (by simp [Table.get?])

/-! ## Kept and broken promises -/

/-- A function that has no results. -/
def Void (e : Engine) (a : Nat) : Prop := ∃ f, e.store.funcs[a]? = some f ∧ f.type.results = []

/-- When an engine survives. After whatever it was asked to load, to register and to call: a call crashes
unless the module that the function is recorded for exports it, and with a result if it comes back; and a
load crashes only if it links, the entry is exported without a result, and comes back, and no effect is
refused after it. -/
theorem survives_iff (registry : Registry) (catalog : Option Catalog) (env : Env)
    (around : Surroundings) (events : List Event) :
    let e := ({ registry, catalog, env, around } : Engine).after events
    (∀ q args, crashed (e.call q args).2 = false ↔
      ∀ p, e.funcs.get? q = some p → (args.length : Int) = p.arity →
        ∃ a, e.exportedFunction? p.module q = some a ∧ (e.Void a → ¬ e.ComesBackEmpty a args)) ∧
    ∀ ns art name, crashed (e.load ns (some art) name).2.2 = false ↔
      (e.refusal? (some art) name = none →
        (∀ record, e.modules.get? name = some record → record.outcome = .pending) →
        ∀ a e₁ entry, (e.begin art name).entered? art name = some (a, e₁) →
          e₁.exportedFunction? name a.entry = some entry → e₁.Void entry →
            (e₁.within ns).ComesBackEmpty entry [] → ¬ e₁.CarriesOut ns entry a.manifest.effects) := by
  intro e
  have hlive : e.Live := (live_fresh registry catalog env around).after events
  have hsettled := (settled_fresh registry catalog env around).after events
  refine ⟨fun q args => ?_, fun ns art name => ?_⟩
  · rw [← Bool.not_eq_true, crashed_call_iff]
    constructor
    · -- the module is live, so that only a promise that is broken can stop the call
      intro hsurvives p hp harity
      by_contra hbroken
      refine hsurvives ⟨p, hp, harity, hlive q p hp, fun a ha => ?_⟩
      by_contra hfull
      exact hbroken ⟨a, ha, fun _ => hfull⟩
    · rintro hkept ⟨p, hp, harity, -, hcrashes⟩
      obtain ⟨a, ha, hfull⟩ := hkept p hp harity
      have hempty := hcrashes a ha
      exact hfull hempty.results hempty
  · obtain ⟨failure, hrefused, heq⟩ | ⟨-, record, result, metrics, hget, hresult, heq⟩ |
      ⟨hrefusal, hnew, heq⟩ := load_cases e ns art name
    · rw [heq]
      exact iff_of_true (crashed_of_refusal? hrefused) (by simp [hrefused])
    · -- what is recorded is the result of a load that has ended
      rw [heq]
      refine iff_of_true (hsettled.recorded name record result hget hresult) fun _ hnew => ?_
      rw [hnew record hget] at hresult
      cases hresult
    · rw [heq, ← Bool.not_eq_true]
      show ¬ crashed ((e.begin art name).link ns art name).2.2 = true ↔ _
      rw [crashed_link_iff]
      constructor
      · intro hsurvives _ _ a e₁ entry hentered hentry _ hempty hcarried
        exact hsurvives ⟨a, e₁, hentered, entry, hentry, hempty, hcarried⟩
      · rintro hkept ⟨a, e₁, hentered, entry, hentry, hempty, hcarried⟩
        exact hkept hrefusal hnew a e₁ entry hentered hentry hempty.results hempty hcarried

/-- A module with nothing but an entry. -/
def idleModule : Binary.Module :=
  { types := [{ params := [], results := [Binary.i64] }]
    funcs := [{ typeIdx := 0, body := [0x42, 0x00] }]
    exports := [{ name := "init", kind := Binary.kindFunc, index := 0 }] }

/-- An artifact that promises a function which its module does not have. -/
def idleArtifact : Artifact :=
  { manifest := some { entry := "init", functions := [("user/f", 0)] }, bytes := idleModule.encode }

/-- The artifact is loaded, and the call of what it promised crashes. -/
theorem crashes_on_missing_function :
    let e := ({} : Engine).after [.load "user" idleArtifact "m"]
    e.stateOf "m" = .loaded ∧ crashed (e.call "user/f" []).2 = true := by
  decide +kernel

end WasmLisp.Engine
