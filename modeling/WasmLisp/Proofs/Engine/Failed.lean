import Mathlib
import WasmLisp.Proofs.Engine.Interned
import WasmLisp.Proofs.Engine.Promised

/-!
# What a load that fails leaves behind

The effects of an artifact are carried out one after another once its entry has returned, and those
before one that is refused stay done. A load that fails for any other reason moves nothing: code that
runs declares vars, but it makes no alias and refers to no name. A load that crashes because its entry
returned no value has carried out all effects.

* `Directory.carriedOut`: the effects that are carried out before one is refused, and why that is;
* `Frame.apply_carriedOut`: what effects make of a frame, whether one is refused or not;
* `Engine.load_failed`: where a failed load leaves the namespace, the aliases and the refers.
-/

namespace WasmLisp

/-! ## Effects up to the first that is refused -/

namespace Directory

variable {d d' d'' : Directory} {es : List Effect}

/-- Every namespace has the same aliases and refers. -/
structure SameNames (d d' : Directory) : Prop where
  aliases : d'.aliases = d.aliases
  refers : d'.refers = d.refers

theorem SameNames.refl (d : Directory) : d.SameNames d := ⟨rfl, rfl⟩

theorem SameNames.trans (h : d.SameNames d') (h' : d'.SameNames d'') : d.SameNames d'' :=
  ⟨h'.aliases.trans h.aliases, h'.refers.trans h.refers⟩

theorem sameNames_ensure (d : Directory) (names : Set String) : d.SameNames (d.ensure names) := ⟨rfl, rfl⟩

theorem sameNames_declare (d : Directory) (V : Set (String × String)) : d.SameNames (d.declare V) :=
  ⟨rfl, rfl⟩

theorem SameNames.effect (h : d.SameNames d') (e : Effect) : (d.effect e).SameNames (d'.effect e) := by
  obtain ⟨namespaces, aliases, refers, vars⟩ := d
  obtain ⟨namespaces', aliases', refers', vars'⟩ := d'
  obtain ⟨rfl, rfl⟩ := h
  unfold Directory.effect
  split
  · exact ⟨rfl, rfl⟩
  split
  · exact ⟨rfl, rfl⟩
  split <;> exact ⟨rfl, rfl⟩

theorem SameNames.effects (h : d.SameNames d') (es : List Effect) :
    (d.effects es).SameNames (d'.effects es) := by
  induction es generalizing d d' with
  | nil => exact h
  | cons e es ih => exact ih (h.effect e)

/-- Why an effect is refused, if it is: its kind is unknown, or the alias stands for another namespace. -/
def refusal? (d : Directory) (e : Effect) : Option Env.Fault :=
  if e.kind = .switchNs ∨ e.kind = .require ∨ e.kind = .refer then none
  else if e.kind = .nickname then
    match (d.aliases e.ns).get? e.name with
    | some existing =>
      if existing = e.target then none else some (.aliasTaken e.name existing e.ns)
    | none => none
  else some (.unknownEffect e.kind.code)

/-- The effects that are carried out before one is refused, and why it is refused. -/
def carriedOut (d : Directory) : List Effect → List Effect × Option Env.Fault
  | [] => ([], none)
  | e :: rest =>
    match d.refusal? e with
    | some fault => ([], some fault)
    | none => (e :: ((d.effect e).carriedOut rest).1, ((d.effect e).carriedOut rest).2)

theorem SameNames.refusal? (h : d.SameNames d') (e : Effect) : d'.refusal? e = d.refusal? e := by
  unfold Directory.refusal?
  rw [h.aliases]

theorem SameNames.carriedOut (h : d.SameNames d') (es : List Effect) :
    d'.carriedOut es = d.carriedOut es := by
  induction es generalizing d d' with
  | nil => rfl
  | cons e es ih =>
    unfold Directory.carriedOut
    rw [h.refusal? e, ih (h.effect e)]

/-- If none is refused, all are carried out. -/
theorem carriedOut_eq_self (h : (d.carriedOut es).2 = none) : d.carriedOut es = (es, none) := by
  induction es generalizing d with
  | nil => rfl
  | cons e es ih =>
    unfold carriedOut at h ⊢
    split at h
    · cases h
    · rw [ih h]

/-- What is carried out is the beginning of the list, and what comes next is what was refused. -/
theorem eq_append_of_carriedOut {done : List Effect} {fault : Env.Fault}
    (h : d.carriedOut es = (done, some fault)) :
    ∃ refused rest, es = done ++ refused :: rest ∧ (d.effects done).refusal? refused = some fault := by
  induction es generalizing d done with
  | nil => cases h
  | cons e es ih =>
    unfold carriedOut at h
    split at h
    · rename_i fault' hfault
      cases h
      exact ⟨e, es, rfl, hfault⟩
    · obtain ⟨rfl, hrest⟩ := Prod.mk.inj h
      obtain ⟨refused, rest, heq, hrefused⟩ := ih (Prod.ext rfl hrest)
      exact ⟨refused, rest, congrArg (e :: ·) heq, hrefused⟩

end Directory

namespace Env

/-- An alias is refused if it stands for another namespace, and then everything stays. -/
theorem addAlias_refused {e : Env} {ns name target : String} {fault : Fault}
    (h : (e.addAlias ns name target).2 = some fault) : (e.addAlias ns name target).1 = e := by
  unfold addAlias at h ⊢
  split at h
  · split
    · rfl
    · rfl
  · cases h

theorem snd_addAlias (e : Env) (ns name target : String) :
    (e.addAlias ns name target).2 = match (e.directory.aliases ns).get? name with
      | some existing => if existing = target then none else some (.aliasTaken name existing ns)
      | none => none := by
  have haliases : (e.find? ns).bind (·.aliases.get? name) = (e.directory.aliases ns).get? name := by
    show _ = ((e.find? ns).getD {}).aliases.get? name
    cases e.find? ns <;> rfl
  unfold addAlias
  rw [haliases]
  cases (e.directory.aliases ns).get? name with
  | none => rfl
  | some existing =>
    dsimp only
    split <;> rfl

end Env

namespace Frame

variable {f f' : Frame} {es : List Effect}

theorem snd_applyOne (f : Frame) (e : Effect) : (f.applyOne e).2 = f.env.directory.refusal? e := by
  unfold applyOne Directory.refusal?
  by_cases hswitch : e.kind = .switchNs
  · rw [if_pos hswitch, if_pos (.inl hswitch)]
  by_cases hrequire : e.kind = .require
  · rw [if_neg hswitch, if_pos hrequire, if_pos (.inr (.inl hrequire))]
  rw [if_neg hswitch, if_neg hrequire]
  by_cases hnickname : e.kind = .nickname
  · have hrefer : e.kind ≠ .refer := by rw [hnickname]; decide
    rw [if_pos hnickname, if_neg (by simp [hswitch, hrequire, hrefer]), if_pos hnickname]
    dsimp only
    rw [Env.snd_addAlias, Env.directory_ensure, Env.directory_ensure]
    rfl
  rw [if_neg hnickname, if_neg hnickname]
  by_cases hrefer : e.kind = .refer
  · rw [if_pos hrefer, if_pos (.inr (.inr hrefer))]
  · rw [if_neg hrefer, if_neg (by simp [hswitch, hrequire, hrefer])]

/-- An effect that is refused moves nothing. -/
theorem applyOne_refused {e : Effect} {fault : Env.Fault} (h : f.applyOne e = (f', some fault)) :
    f'.ns = f.ns ∧ f.env.directory.SameNames f'.env.directory := by
  rcases applyOne_cases e with heq | heq | heq | heq | heq
  all_goals rw [heq] at h
  · cases h
  · cases h
  · obtain ⟨rfl, hfault⟩ := Prod.mk.inj h
    refine ⟨rfl, ?_⟩
    dsimp only
    rw [Env.addAlias_refused hfault, Env.directory_ensure, Env.directory_ensure]
    exact (Directory.sameNames_ensure _ _).trans (Directory.sameNames_ensure _ _)
  · cases h
  · cases h
    exact ⟨rfl, .refl _⟩

/-- Effects are carried out up to the first that is refused, and what was carried out until then stays. -/
theorem apply_carriedOut (f : Frame) (es : List Effect) :
    (f.apply es).2 = (f.env.directory.carriedOut es).2 ∧
      (f.apply es).1.ns = nsAfter f.ns (f.env.directory.carriedOut es).1 ∧
      (f.env.directory.effects (f.env.directory.carriedOut es).1).SameNames
        (f.apply es).1.env.directory := by
  induction es generalizing f with
  | nil => exact ⟨rfl, rfl, .refl _⟩
  | cons e es ih =>
    have hfault := snd_applyOne f e
    unfold apply Directory.carriedOut
    rw [← hfault]
    split
    · rename_i f₁ hone
      obtain ⟨hdirectory, hns⟩ := directory_applyOne hone
      rw [hone]
      obtain ⟨hsnd, hmoved, hsame⟩ := ih f₁
      rw [hdirectory] at hsnd hmoved hsame
      rw [hns] at hmoved
      exact ⟨hsnd, hmoved, hsame⟩
    · rename_i f₁ fault hone
      obtain ⟨hns, hsame⟩ := applyOne_refused hone
      rw [hone]
      exact ⟨rfl, hns, hsame⟩

end Frame

/-! ## Code that runs -/

namespace Engine

variable {e : Engine} {ns name : String}

/-- Vars of a set are on top of a directory that has the same aliases and refers. -/
theorem sameNames_of_over {env : Env} {D : Directory} {A : Set (String × String)}
    (h : env.Over D A) : D.SameNames env.directory := by
  obtain ⟨V, -, hdirectory⟩ := h
  rw [hdirectory]
  exact Directory.sameNames_declare D V

theorem over_self (env : Env) (A : Set (String × String)) : env.Over env.directory A :=
  ⟨∅, Set.empty_subset A, (Directory.declare_empty _).symm⟩

/-- Binders bind vars of some set. -/
theorem binds_univ (e : Engine) : e.Binds Set.univ := fun _ f _ _ _ => Set.subset_univ f.binds

theorem sameNames_invoke (e : Engine) (function : Nat) (args : List Int64) :
    e.env.directory.SameNames (e.invoke function args).1.env.directory :=
  sameNames_of_over (e.binds_univ.invoke (over_self e.env _) function args).2

theorem sameNames_instantiate (e : Engine) (bin : List UInt8) (name : String) :
    e.env.directory.SameNames (e.instantiate bin name).1.env.directory := by
  unfold instantiate
  split
  · exact .refl _
  rename_i m _
  split
  · exact .refl _
  rename_i store _
  split
  · exact .refl _
  · exact sameNames_of_over
      (({ e with store } : Engine).binds_univ.runStart (over_self e.env _) m name).2

/-! ## Loads that fail -/

/-- If this is a failure, then nothing was moved, or an effect was refused after those before it were
carried out, or it is a crash after all of them were. -/
def FailsAt {α : Type} (D : Directory) (ns name entry : String) (effects : List Effect)
    (r : Engine × String × Result α) : Prop :=
  ∀ failure, r.2.2 = .error failure →
    (r.2.1 = ns ∧ D.SameNames r.1.env.directory) ∨
    (∃ done fault, D.carriedOut effects = (done, some fault) ∧
      failure = .initFailed name entry (some (.plain fault.message)) ∧
      r.2.1 = Frame.nsAfter ns done ∧ (D.effects done).SameNames r.1.env.directory) ∨
    failure = .crash "no result" ∧ D.carriedOut effects = (effects, none) ∧
      r.2.1 = Frame.nsAfter ns effects ∧ (D.effects effects).SameNames r.1.env.directory

section FailsAt

variable {α : Type} {D D' : Directory} {entry : String} {effects : List Effect}

theorem FailsAt.of_unmoved {e : Engine} {r : Result α} (h : D.SameNames e.env.directory) :
    FailsAt D ns name entry effects (e, ns, r) := fun _ _ => .inl ⟨rfl, h⟩

theorem FailsAt.of_ok {e : Engine} {ns' : String} {v : α} :
    FailsAt D ns name entry effects (e, ns', .ok v) := fun _ h => by cases h

theorem FailsAt.of_sameNames {r : Engine × String × Result α} (h : FailsAt D' ns name entry effects r)
    (hD : D.SameNames D') : FailsAt D ns name entry effects r := by
  intro failure hfailure
  obtain ⟨hns, hsame⟩ | ⟨done, fault, hdone, heq, hns, hsame⟩ | ⟨heq, hdone, hns, hsame⟩ :=
    h failure hfailure
  · exact .inl ⟨hns, hD.trans hsame⟩
  · refine .inr (.inl ⟨done, fault, ?_, heq, hns, (hD.effects done).trans hsame⟩)
    rw [← hdone, hD.carriedOut]
  · refine .inr (.inr ⟨heq, ?_, hns, (hD.effects effects).trans hsame⟩)
    rw [← hdone, hD.carriedOut]

end FailsAt

/-- An entry returns in the names that there were; what effects do then is up to them. -/
theorem sameNames_entered (e : Engine) (ns : String) (function : Nat) :
    e.env.directory.SameNames
      (invoke { e with env := e.env.ensure ns } function []).1.env.directory := by
  have henter : e.env.directory.SameNames (e.env.ensure ns).directory := by
    rw [Env.directory_ensure]
    exact Directory.sameNames_ensure _ _
  exact henter.trans (sameNames_invoke { e with env := e.env.ensure ns } function [])

theorem failsAt_initialise (e : Engine) (ns name entry : String) (effects : List Effect) :
    FailsAt e.env.directory ns name entry effects (e.initialise ns name entry effects) := by
  unfold initialise
  split
  · exact .of_unmoved (.refl _)
  rename_i function _
  have hrun := sameNames_entered e ns function
  dsimp only
  split
  · rename_i heq
    rw [heq] at hrun
    exact .of_unmoved hrun
  · rename_i e₁ values heq
    rw [heq] at hrun
    obtain ⟨hfault, hns, hsame⟩ := Frame.apply_carriedOut { env := e₁.env, ns } effects
    refine FailsAt.of_sameNames ?_ hrun
    split
    · rename_i frame fault happly
      rw [happly] at hfault hns hsame
      rintro _ ⟨⟩
      exact .inr (.inl ⟨_, fault, Prod.ext rfl hfault.symm, rfl, hns, hsame⟩)
    · exact .of_ok

/-- If an entry and all effects are done, the effects have been carried out. -/
theorem initialise_carriedOut {e₁ : Engine} {ns' entry : String} {effects : List Effect}
    {result : Nat × List Int64} (h : e.initialise ns name entry effects = (e₁, ns', .ok result)) :
    e.env.directory.carriedOut effects = (effects, none) ∧ ns' = Frame.nsAfter ns effects ∧
      (e.env.directory.effects effects).SameNames e₁.env.directory := by
  obtain ⟨e₂, frame, -, hran, happly, rfl, rfl⟩ := initialise_eq_ok h
  have hrun := sameNames_entered e ns result.1
  rw [hran] at hrun
  obtain ⟨hfault, hns, hsame⟩ := Frame.apply_carriedOut { env := e₂.env, ns } effects
  rw [happly] at hfault hns hsame
  have hall := Directory.carriedOut_eq_self hfault.symm
  rw [hall] at hns hsame
  exact ⟨(hrun.carriedOut effects).symm.trans hall, hns, (hrun.effects effects).trans hsame⟩

theorem failsAt_start (e : Engine) (ns name : String) (bin : List UInt8) (p : Plan) (a : Prepared) :
    FailsAt e.env.directory ns name a.entry a.manifest.effects (e.start ns name bin p a) := by
  have hmade := sameNames_instantiate (e.bindVars name p) bin name
  unfold start
  dsimp only
  split
  · exact .of_unmoved (.refl _)
  split
  · rename_i heq
    rw [heq] at hmade
    exact .of_unmoved hmade
  rename_i e₁ heq
  rw [heq] at hmade
  refine FailsAt.of_sameNames ?_ hmade
  have hinit := failsAt_initialise e₁ ns name a.entry a.manifest.effects
  split
  · rename_i e₂ ns' failure heq'
    rw [heq'] at hinit
    rintro _ ⟨⟩
    exact hinit failure rfl
  · -- everything is published, and then the entry turns out to have given no value
    rename_i e₂ ns' function values heq'
    obtain ⟨hdone, hns, hsame⟩ := initialise_carriedOut heq'
    intro failure hfailure
    cases values with
    | cons value values => cases hfailure
    | nil =>
      cases hfailure
      refine .inr (.inr ⟨rfl, hdone, hns, hsame.trans ?_⟩)
      rw [directory_publish]
      exact Directory.sameNames_declare _ _

theorem failsAt_link {art : Artifact} {a : Prepared} (h : e.prepare art name = .ok a) (ns : String) :
    FailsAt e.env.directory ns name a.entry a.manifest.effects (e.link ns art name) := by
  have hbound := env_bound e name a
  unfold bound at hbound
  unfold link
  rw [h]
  dsimp only
  split
  · rename_i heq
    rw [heq] at hbound
    exact .of_unmoved (hbound ▸ .refl _)
  · rename_i e₁ p heq
    rw [heq] at hbound
    split
    · exact .of_unmoved (hbound ▸ .refl _)
    · rename_i redirected _
      rw [← hbound]
      exact failsAt_start e₁ ns name redirected.bytes p a

/-- What a failed load leaves behind. If loading an artifact fails, the current namespace and the
aliases and refers of all namespaces are what they were; or one of its effects is refused, the load
reports why, and the effects before that one have been carried out; or it crashes for want of a value of
its entry, and all effects have been carried out. -/
theorem load_failed (e : Engine) (ns : String) (art : Artifact) (name : String)
    (h : (e.load ns (some art) name).2.2.isOk = false) :
    ((e.load ns (some art) name).2.1 = ns ∧
      e.env.directory.SameNames (e.load ns (some art) name).1.env.directory) ∨
    (∃ a done refused rest fault, (e.begin art name).prepare art name = .ok a ∧
      a.manifest.effects = done ++ refused :: rest ∧
      e.env.directory.carriedOut a.manifest.effects = (done, some fault) ∧
      (e.env.directory.effects done).refusal? refused = some fault ∧
      (e.load ns (some art) name).2.2 =
        .error (.initFailed name a.entry (some (.plain fault.message))) ∧
      (e.load ns (some art) name).2.1 = Frame.nsAfter ns done ∧
      (e.env.directory.effects done).SameNames (e.load ns (some art) name).1.env.directory) ∨
    ∃ a, (e.begin art name).prepare art name = .ok a ∧
      e.env.directory.carriedOut a.manifest.effects = (a.manifest.effects, none) ∧
      (e.load ns (some art) name).2.2 = .error (.crash "no result") ∧
      (e.load ns (some art) name).2.1 = Frame.nsAfter ns a.manifest.effects ∧
      (e.env.directory.effects a.manifest.effects).SameNames
        (e.load ns (some art) name).1.env.directory := by
  obtain ⟨_, -, heq⟩ | ⟨-, _, _, _, -, -, heq⟩ | ⟨-, -, heq⟩ := load_cases e ns art name
  · rw [heq]
    exact .inl ⟨rfl, .refl _⟩
  · rw [heq]
    exact .inl ⟨rfl, .refl _⟩
  rw [heq] at h ⊢
  unfold loadNew at h ⊢
  dsimp only at h ⊢
  cases hprepare : (e.begin art name).prepare art name with
  | error failure =>
    have hlink : (e.begin art name).link ns art name = (e.begin art name, ns, .error failure) := by
      rw [link, hprepare]
    rw [hlink]
    exact .inl ⟨rfl, .refl _⟩
  | ok a =>
    have hfails := failsAt_link hprepare ns
    cases hresult : ((e.begin art name).link ns art name).2.2 with
    | ok entry =>
      rw [hresult] at h
      cases h
    | error failure =>
      obtain hunmoved | ⟨done, fault, hdone, rfl, hns, hsame⟩ | ⟨rfl, hdone, hns, hsame⟩ :=
        hfails failure hresult
      · exact .inl hunmoved
      · obtain ⟨refused, rest, heffects, hrefused⟩ := Directory.eq_append_of_carriedOut hdone
        exact .inr (.inl
          ⟨a, done, refused, rest, fault, rfl, heffects, hdone, hrefused, rfl, hns, hsame⟩)
      · exact .inr (.inr ⟨a, rfl, hdone, rfl, hns, hsame⟩)

/-- An artifact that runs nothing and has effects. -/
def movingArtifact (effects : List Effect) : Artifact :=
  { manifest := some { entry := "init", effects }, bytes := idleModule.encode }

/-- An engine in which the namespace `w` calls `one` by the alias `m`. -/
def aliasedEngine : Engine :=
  (({} : Engine).load "user"
    (some (movingArtifact [{ kind := .nickname, ns := "w", name := "m", target := "one" }])) "a").1

/-- An artifact that goes to the namespace `w`, which calls `two` first by the alias `k` and then `m`. -/
def takenArtifact : Artifact :=
  movingArtifact [{ kind := .switchNs, ns := "w" },
    { kind := .nickname, ns := "w", name := "k", target := "two" },
    { kind := .nickname, ns := "w", name := "m", target := "two" }]

/-- The load is refused its second alias, and the first one stays. -/
theorem load_failed_takenArtifact :
    (aliasedEngine.load "user" (some takenArtifact) "b").2.2.isOk = false ∧
    ∃ a done refused rest fault,
      (aliasedEngine.begin takenArtifact "b").prepare takenArtifact "b" = .ok a ∧
      a.manifest.effects = done ++ refused :: rest ∧
      aliasedEngine.env.directory.carriedOut a.manifest.effects = (done, some fault) ∧
      (aliasedEngine.env.directory.effects done).refusal? refused = some fault ∧
      (aliasedEngine.load "user" (some takenArtifact) "b").2.2 =
        .error (.initFailed "b" a.entry (some (.plain fault.message))) ∧
      (aliasedEngine.load "user" (some takenArtifact) "b").2.1 = Frame.nsAfter "user" done ∧
      (aliasedEngine.env.directory.effects done).SameNames
        (aliasedEngine.load "user" (some takenArtifact) "b").1.env.directory := by
  have hfails : (aliasedEngine.load "user" (some takenArtifact) "b").2.2.isOk = false := by
    decide +kernel
  refine ⟨hfails, ?_⟩
  obtain ⟨hns, -⟩ | hrefused | ⟨a, -, -, hcrash, -⟩ :=
    load_failed aliasedEngine "user" takenArtifact "b" hfails
  · exact absurd hns (by decide +kernel)
  · exact hrefused
  · have hno : crashed (aliasedEngine.load "user" (some takenArtifact) "b").2.2 = false := by
      decide +kernel
    rw [hcrash] at hno
    cases hno

/-- A load that fails can change the current namespace and the aliases of a namespace. -/
theorem failed_load_moves :
    (aliasedEngine.load "user" (some takenArtifact) "b").2.2.isOk = false ∧
    (aliasedEngine.load "user" (some takenArtifact) "b").2.1 = "w" ∧
    aliasedEngine.env.directory.aliases "w" = [("m", "one")] ∧
    (aliasedEngine.load "user" (some takenArtifact) "b").1.env.directory.aliases "w" =
      [("k", "two"), ("m", "one")] := by
  decide +kernel

end Engine

end WasmLisp
