import Mathlib
import WasmLisp.Proofs.Backend
import WasmLisp.Proofs.Engine

/-!
# Names of instances

Imports are bound to the live instance of a name, which is the first of that name. Here is that no
two live instances ever have the same one.

* `Store.Adds`: the instances that were added have certain names, and `Store.Free`: a name has no live
  instance;
* `Engine.Named`: live instances are those of loaded modules and those made for registered symbols;
  `Engine.Named.load` says that this stays so, `Engine.Named.free` that the names of a new module are
  free.
-/

namespace WasmLisp

namespace Machine.Store

variable {η : Type} {s t u : Store η} {P Q : String → Prop} {name : String} {inst : Instance}

/-! ## Stores -/

/-- The live instances were there before, or have a name with the property. -/
def Adds (P : String → Prop) (s t : Store η) : Prop :=
  ∀ (i : Nat) (inst : Instance), t.instances[i]? = some inst → inst.live = true →
    s.instances[i]? = some inst ∨ P inst.name

/-- No live instance has the name. -/
def Free (s : Store η) (name : String) : Prop :=
  ∀ (i : Nat) (inst : Instance), s.instances[i]? = some inst → inst.live = true → inst.name ≠ name

theorem Adds.refl (P : String → Prop) (s : Store η) : s.Adds P s := fun _ _ h _ => .inl h

theorem Adds.trans (h : s.Adds P t) (h' : t.Adds P u) : s.Adds P u := by
  intro i inst hi hlive
  obtain hold | hnew := h' i inst hi hlive
  · exact h i inst hold hlive
  · exact .inr hnew

theorem Adds.mono (h : s.Adds P t) (hPQ : ∀ x, P x → Q x) : s.Adds Q t :=
  fun i inst hi hlive => (h i inst hi hlive).imp_right (hPQ _)

theorem adds_of_instances (h : t.instances = s.instances) : s.Adds P t :=
  fun _ _ hi _ => .inl (h ▸ hi)

theorem adds_push (h : t.instances = s.instances.push inst) (hP : P inst.name) : s.Adds P t := by
  intro i inst' hi _
  rw [h, Array.getElem?_push] at hi
  split at hi
  · cases hi
    exact .inr hP
  · exact .inl hi

theorem Adds.free (h : s.Adds P t) (hs : s.Free name) (hP : ¬ P name) : t.Free name := by
  rintro i inst hi hlive rfl
  obtain hold | hnew := h i inst hi hlive
  · exact hs i inst hold hlive rfl
  · exact hP hnew

theorem Free.find? (h : s.Free name) : s.find? name = none := by
  unfold Store.find?
  rw [Array.findIdx?_eq_none_iff]
  intro inst hinst
  obtain ⟨i, hi, rfl⟩ := Array.mem_iff_getElem.mp hinst
  have hne := h i _ (Array.getElem?_eq_getElem hi)
  by_cases hlive : s.instances[i].live = true
  · simp [hne hlive]
  · simp [hlive]

/-- An instance whose name was free is found under it. -/
theorem Free.find?_push (h : s.Free inst.name) (hlive : inst.live = true)
    (ht : t.instances = s.instances.push inst) : t.find? inst.name = some s.instances.size := by
  unfold Store.find?
  rw [ht, Array.findIdx?_push]
  have hnone := h.find?
  unfold Store.find? at hnone
  simp [hnone, hlive]

theorem Free.export?_push (h : s.Free inst.name) (hlive : inst.live = true)
    (ht : t.instances = s.instances.push inst) (x : String) :
    t.export? inst.name x = inst.exports.lookup x := by
  simp only [Store.export?, h.find?_push hlive ht, bind, Option.bind_some, ht,
    Array.getElem?_push_size]

/-- Instances that are closed are no longer live. -/
theorem adds_foldl_close (is : List Nat) (s : Store η) :
    s.Adds P (is.foldl Store.close s) ∧
      ∀ i ∈ is, ∀ inst, (is.foldl Store.close s).instances[i]? = some inst → inst.live = false := by
  have hclose : ∀ (s : Store η) (i : Nat), s.Adds P (s.close i) := by
    intro s i j inst hj hlive
    rw [Store.close, Array.getElem?_modify] at hj
    split at hj
    · obtain ⟨inst', -, rfl⟩ := Option.map_eq_some_iff.mp hj
      cases hlive
    · exact .inl hj
  -- what was closed once stays closed
  have hclosed : ∀ (is : List Nat) (s : Store η) (i : Nat),
      (∀ inst, s.instances[i]? = some inst → inst.live = false) →
      ∀ inst, (is.foldl Store.close s).instances[i]? = some inst → inst.live = false := by
    intro is
    induction is with
    | nil => exact fun s i h => h
    | cons j is ih =>
      intro s i h
      refine ih _ i fun inst hinst => ?_
      rw [Store.close, Array.getElem?_modify] at hinst
      split at hinst
      · obtain ⟨inst', -, rfl⟩ := Option.map_eq_some_iff.mp hinst
        rfl
      · exact h inst hinst
  induction is generalizing s with
  | nil => exact ⟨.refl P s, fun i hi => absurd hi List.not_mem_nil⟩
  | cons j is ih =>
    obtain ⟨hadds, hends⟩ := ih (s.close j)
    refine ⟨(hclose s j).trans hadds, fun i hi => ?_⟩
    rcases List.mem_cons.mp hi with rfl | hi
    · refine hclosed is _ i fun inst hinst => ?_
      rw [Store.close, Array.getElem?_modify, if_pos rfl] at hinst
      obtain ⟨inst', -, rfl⟩ := Option.map_eq_some_iff.mp hinst
      rfl
    · exact hends i hi

end Machine.Store

namespace Engine

open Machine (Store)

variable {e e₁ e₂ : Engine} {name x : String}

/-! ## Names -/

/-- The names that instances can have which are made for a module. -/
def Reserved (name x : String) : Prop := x = name ∨ x = name ++ "#var" ∨ x = name ++ "#var.def"

/-- The names of instances of registered symbols that were made between two generations. -/
def ForeignName (first last : Nat) (x : String) : Prop :=
  ∃ g, first < g ∧ g ≤ last ∧ (x = s!"#foreign/{g}" ∨ x = s!"#foreign.data/{g}")

/-- A name that a module can be loaded under. -/
def Loadable (name : String) : Prop := name ≠ "" ∧ '#' ∉ name.toList

theorem loadable_of_refusal? {art : Option Artifact} (h : e.refusal? art name = none) :
    Loadable name := by
  unfold refusal? at h
  dsimp only at h
  split at h
  · cases h
  split at h
  · cases h
  · rename_i hname
    simp only [Bool.or_eq_true, decide_eq_true_eq, List.contains_iff_mem, not_or] at hname
    exact hname

/-- What stands before the first number sign of a name. -/
def stem (x : String) : List Char := x.toList.takeWhile (· ≠ '#')

theorem Reserved.stem (h : Reserved name x) (hname : Loadable name) : stem x = name.toList := by
  have hall : ∀ c ∈ name.toList, decide (c ≠ '#') = true := by
    intro c hc
    rw [decide_eq_true_eq]
    rintro rfl
    exact hname.2 hc
  unfold Engine.stem
  obtain rfl | rfl | rfl := h
  · exact List.takeWhile_eq_self_iff.mpr hall
  · rw [String.toList_append, List.takeWhile_append_of_pos hall]
    simp
  · rw [String.toList_append, List.takeWhile_append_of_pos hall]
    simp

theorem toList_foreign (g : Nat) :
    (s!"#foreign/{g}").toList = '#' :: "foreign/".toList ++ (toString g).toList := by
  rw [String.toList_append]
  rfl

theorem toList_foreignData (g : Nat) :
    (s!"#foreign.data/{g}").toList = '#' :: "foreign.data/".toList ++ (toString g).toList := by
  rw [String.toList_append]
  rfl

theorem stem_foreign {g : Nat} (h : x = s!"#foreign/{g}" ∨ x = s!"#foreign.data/{g}") :
    stem x = [] := by
  unfold stem
  rcases h with rfl | rfl
  · rw [toList_foreign]
    rfl
  · rw [toList_foreignData]
    rfl

theorem ForeignName.stem {first last : Nat} (h : ForeignName first last x) : stem x = [] := by
  obtain ⟨g, -, -, hx⟩ := h
  exact stem_foreign hx

theorem foreign_inj {g k : Nat} (h : s!"#foreign/{g}" = s!"#foreign/{k}") : g = k := by
  have hlist := congrArg String.toList h
  rw [toList_foreign, toList_foreign] at hlist
  exact toString_toList_inj (List.append_cancel_left hlist)

theorem foreignData_inj {g k : Nat} (h : s!"#foreign.data/{g}" = s!"#foreign.data/{k}") :
    g = k := by
  have hlist := congrArg String.toList h
  rw [toList_foreignData, toList_foreignData] at hlist
  exact toString_toList_inj (List.append_cancel_left hlist)

theorem foreign_ne_foreignData (g k : Nat) : s!"#foreign/{g}" ≠ s!"#foreign.data/{k}" := by
  intro h
  have hlist := congrArg String.toList h
  rw [toList_foreign, toList_foreignData] at hlist
  have hchar : some '/' = some '.' := congrArg (fun l : List Char => l[8]?) hlist
  cases hchar

/-- The instances of a generation have names of their own. -/
theorem foreignName_iff {first last g : Nat} :
    (ForeignName first last s!"#foreign/{g}" ↔ first < g ∧ g ≤ last) ∧
      (ForeignName first last s!"#foreign.data/{g}" ↔ first < g ∧ g ≤ last) := by
  constructor
  · constructor
    · rintro ⟨g', hfirst, hlast, heq | heq⟩
      · rw [foreign_inj heq]
        exact ⟨hfirst, hlast⟩
      · exact absurd heq (foreign_ne_foreignData g g')
    · exact fun h => ⟨g, h.1, h.2, .inl rfl⟩
  · constructor
    · rintro ⟨g', hfirst, hlast, heq | heq⟩
      · exact absurd heq.symm (foreign_ne_foreignData g' g)
      · rw [foreignData_inj heq]
        exact ⟨hfirst, hlast⟩
    · exact fun h => ⟨g, h.1, h.2, .inr rfl⟩

theorem Reserved.inj {name' : String} (h : Reserved name x) (h' : Reserved name' x)
    (hname : Loadable name) (hname' : Loadable name') : name = name' :=
  String.toList_inj.mp ((h.stem hname).symm.trans (h'.stem hname'))

theorem not_foreignName (h : Reserved name x) (hname : Loadable name) {first last : Nat} :
    ¬ ForeignName first last x := by
  intro hforeign
  have hnil := (h.stem hname).symm.trans hforeign.stem
  exact hname.1 (String.toList_inj.mp hnil)

theorem ForeignName.mono {first first' last last' : Nat} (h : ForeignName first last x)
    (hfirst : first' ≤ first) (hlast : last ≤ last') : ForeignName first' last' x := by
  obtain ⟨g, hg, hg', hx⟩ := h
  exact ⟨g, Nat.lt_of_le_of_lt hfirst hg, Nat.le_trans hg' hlast, hx⟩

/-! ## What gets instances -/

/-- The search for providers makes instances of new generations only. -/
def Generates (e e' : Engine) : Prop :=
  e.generation ≤ e'.generation ∧ e.store.Adds (ForeignName e.generation e'.generation) e'.store

theorem Generates.refl (e : Engine) : e.Generates e := ⟨Nat.le_refl _, .refl _ _⟩

theorem Generates.trans (h : e.Generates e₁) (h' : e₁.Generates e₂) : e.Generates e₂ :=
  ⟨Nat.le_trans h.1 h'.1, (h.2.mono fun _ hx => hx.mono (Nat.le_refl _) h'.1).trans
    (h'.2.mono fun _ hx => hx.mono h.1 (Nat.le_refl _))⟩

theorem generates_materialize (e : Engine) : e.Generates e.materialize := by
  unfold materialize
  split
  · exact .refl e
  · refine ⟨Nat.le_succ _, ?_⟩
    have hfns : ForeignName e.generation (e.generation + 1) s!"#foreign/{e.generation + 1}" :=
      foreignName_iff.1.mpr ⟨Nat.lt_succ_self _, Nat.le_refl _⟩
    have hdata : ForeignName e.generation (e.generation + 1) s!"#foreign.data/{e.generation + 1}" :=
      foreignName_iff.2.mpr ⟨Nat.lt_succ_self _, Nat.le_refl _⟩
    dsimp only
    split <;> split
    · exact .refl _ _
    · exact Store.adds_push rfl hfns
    · exact Store.adds_push rfl hdata
    · exact (Store.adds_push rfl hfns).trans (Store.adds_push rfl hdata)

theorem generates_resolveImport (e : Engine) (module : String) (info : Binary.Info)
    (i : Binary.Import) (p : Plan) : e.Generates (e.resolveImport module info i p).1 := by
  obtain heq | ⟨_, _, _, _, registry, -, -, -, heq⟩ := resolveImport_cases e module info i p
  · rw [heq]
    exact .refl e
  · rw [heq]
    exact generates_materialize { e with registry }

theorem generates_bound (e : Engine) (name : String) (a : Prepared) :
    e.Generates (e.bound name a).1 :=
  (generates_materialize e).trans (resolveAll_induction (motive := e.materialize.Generates)
    (fun e₁ i p h => h.trans (generates_resolveImport e₁ name a.info i p)) _ _ (.refl _))

theorem adds_bindVars (e : Engine) (name : String) (p : Plan) :
    e.store.Adds (fun x => x = name ++ "#var" ∨ x = name ++ "#var.def")
      (e.bindVars name p).store := by
  unfold bindVars
  dsimp only
  split <;> split
  · exact .refl _ _
  · exact Store.adds_push rfl (.inl rfl)
  · exact Store.adds_push rfl (.inr rfl)
  · exact (Store.adds_push rfl (.inl rfl)).trans (Store.adds_push rfl (.inr rfl))

/-- The name of a module is still free when the host functions for it are there. -/
theorem free_bindVars (h : e.store.Free name) (p : Plan) : (e.bindVars name p).store.Free name := by
  have hne : ∀ suffix, suffix ≠ "" → name ≠ name ++ suffix := by
    intro suffix hsuffix heq
    have hlength := congrArg String.length heq
    rw [String.length_append] at hlength
    exact hsuffix (String.length_eq_zero_iff.mp (by omega))
  refine (adds_bindVars e name p).free h ?_
  rintro (heq | heq)
  · exact hne "#var" (by decide) heq
  · exact hne "#var.def" (by decide) heq

theorem instances_invoke (e : Engine) (function : Nat) (args : List Int64) :
    (e.invoke function args).1.store.instances = e.store.instances := by
  unfold invoke
  dsimp only
  split
  · rfl
  · have halike := Machine.invoke_alike HostFn.call e.store { env := e.env, around := e.around }
      function args
    split
    all_goals rename_i heq
    all_goals rw [heq] at halike
    all_goals exact halike.instances

theorem instances_invokeForValue (e : Engine) (function : Nat) (args : List Int64) :
    (e.invokeForValue function args).1.store.instances = e.store.instances := by
  have hsame := instances_invoke e function args
  unfold invokeForValue
  split
  all_goals rename_i heq
  all_goals rw [heq] at hsame
  all_goals exact hsame

theorem instances_runStart (e : Engine) (m : Machine.Module) (name : String) :
    (e.runStart m name).1.store.instances = e.store.instances := by
  unfold runStart
  dsimp only
  refine List.foldlRecOn (motive := fun (s : Engine × Option Failure) =>
    s.1.store.instances = e.store.instances) _ _ rfl ?_
  rintro ⟨e₁, failure⟩ hs function -
  cases failure with
  | some failure => exact hs
  | none =>
    have hsame := (instances_invoke e₁ function []).trans hs
    dsimp only
    split
    all_goals rename_i heq
    all_goals rw [heq] at hsame
    all_goals exact hsame

theorem adds_instantiate (e : Engine) (bin : List UInt8) (name : String) :
    e.store.Adds (Reserved name) (e.instantiate bin name).1.store := by
  unfold instantiate
  split
  · exact .refl _ _
  split
  · exact .refl _ _
  rename_i m _ _ store hinst
  split
  · exact .refl _ _
  · simp only [Store.instantiate?, bind, pure, Option.bind_eq_some_iff] at hinst
    obtain ⟨linked, -, heq⟩ := hinst
    have hadds : e.store.Adds (Reserved name) store := by
      cases heq
      exact Store.adds_push rfl (.inl rfl)
    exact hadds.trans (Store.adds_of_instances (instances_runStart { e with store } m name))

theorem instances_initialise (e : Engine) (ns name entry : String) (effects : List Effect) :
    (e.initialise ns name entry effects).1.store.instances = e.store.instances := by
  unfold initialise
  split
  · rfl
  · rename_i function _
    have hsame := instances_invoke { e with env := e.env.ensure ns } function []
    dsimp only
    split
    · rename_i heq
      rw [heq] at hsame
      exact hsame
    · rename_i heq
      rw [heq] at hsame
      split
      all_goals exact hsame

/-- What is discarded leaves no live instance. -/
theorem adds_discard (h : e.store.Grown e₁.store) (P : String → Prop) :
    e.store.Adds P (e₁.discard e.store.instances.size).store := by
  obtain ⟨hadds, hclosed⟩ := Store.adds_foldl_close (P := fun _ => False)
    ((List.range e₁.store.instances.size).drop e.store.instances.size) e₁.store
  intro i inst hi hlive
  obtain hold | hfalse := hadds i inst hi hlive
  · by_cases hlt : i < e.store.instances.size
    · have hkept := h.instances i _ (Array.getElem?_eq_getElem hlt)
      rw [hold] at hkept
      exact .inl (hkept ▸ Array.getElem?_eq_getElem hlt)
    · have hsize : i < e₁.store.instances.size := (Array.getElem?_eq_some_iff.mp hold).1
      have hmem : i ∈ (List.range e₁.store.instances.size).drop e.store.instances.size := by
        refine List.mem_iff_getElem.mpr ⟨i - e.store.instances.size, by simp; omega, ?_⟩
        simp only [List.getElem_drop, List.getElem_range]
        omega
      rw [hclosed i hmem inst hi] at hlive
      cases hlive
  · exact hfalse.elim

theorem adds_start (e : Engine) (ns name : String) (bin : List UInt8) (p : Plan) (a : Prepared) :
    e.store.Adds (Reserved name) (e.start ns name bin p a).1.store := by
  have hadds := ((adds_bindVars e name p).mono fun _ => .inr).trans
    (adds_instantiate (e.bindVars name p) bin name)
  have hran := (ran_bindVars e name p).trans (ran_instantiate (e.bindVars name p) bin name)
  unfold start
  dsimp only
  split
  · exact .refl _ _
  split
  · rename_i heq
    rw [heq] at hran
    exact adds_discard hran.store _
  · rename_i e₁ heq
    rw [heq] at hadds hran
    have hadds' := hadds.trans
      (Store.adds_of_instances (instances_initialise e₁ ns name a.entry a.manifest.effects))
    have hran' := hran.trans (ran_initialise e₁ ns name a.entry a.manifest.effects)
    split
    · rename_i heq'
      rw [heq'] at hran'
      exact adds_discard hran'.store _
    · rename_i heq'
      rw [heq'] at hadds'
      exact hadds'

/-- The instances that linking leaves: those of symbols that were found, and those made for the
module. -/
theorem adds_link (e : Engine) (ns : String) (art : Artifact) (name : String) :
    let e' := (e.link ns art name).1
    e.generation ≤ e'.generation ∧
      e.store.Adds (fun x => ForeignName e.generation e'.generation x ∨ Reserved name x) e'.store := by
  unfold link
  cases e.prepare art name with
  | error failure => exact ⟨Nat.le_refl _, .refl _ _⟩
  | ok a =>
    dsimp only
    obtain ⟨hle, hadds⟩ := generates_bound e name a
    unfold bound at hle hadds
    split
    · rename_i heq
      rw [heq] at hle hadds
      exact ⟨hle, hadds.mono fun _ => .inl⟩
    · rename_i e₁ p heq
      rw [heq] at hle hadds
      split
      · exact ⟨hle, hadds.mono fun _ => .inl⟩
      · rename_i redirected _
        have hgeneration : (e₁.start ns name redirected.bytes p a).1.generation = e₁.generation := by
          obtain ⟨-, hran⟩ | ⟨-, e₂, hran, hpublish⟩ := start_cases e₁ ns name redirected.bytes p a
          · obtain ⟨_, _, _, heq', -⟩ := hran
            rw [heq']
          · obtain ⟨_, _, _, rfl, -⟩ := hran
            rw [hpublish]
            rfl
        rw [hgeneration]
        exact ⟨hle, (hadds.mono fun _ => .inl).trans
          ((adds_start e₁ ns name redirected.bytes p a).mono fun _ => .inr)⟩

/-! ## Named engines -/

/-- Every live instance is one of a module that was loaded or is one of registered symbols. -/
def Named (e : Engine) : Prop :=
  ∀ (i : Nat) (inst : Machine.Instance), e.store.instances[i]? = some inst → inst.live = true →
    (∃ name, Loadable name ∧ e.modules.get? name ≠ none ∧ Reserved name inst.name) ∨
      ForeignName 0 e.generation inst.name

/-- The names that instances of a new module will have are free. -/
theorem Named.free (h : e.Named) (hname : Loadable name) (hnew : e.modules.get? name = none)
    (hx : Reserved name x) : e.store.Free x := by
  rintro i inst hi hlive rfl
  obtain ⟨name', hname', hknown, hreserved⟩ | hforeign := h i inst hi hlive
  · rw [hreserved.inj hx hname' hname] at hknown
    exact hknown hnew
  · exact not_foreignName hx hname hforeign

/-- The names that instances of the next generation will have are free. -/
theorem Named.free_foreign (h : e.Named) (hx : ForeignName e.generation (e.generation + 1) x) :
    e.store.Free x := by
  rintro i inst hi hlive rfl
  obtain ⟨name', hname', -, hreserved⟩ | hforeign := h i inst hi hlive
  · exact not_foreignName hreserved hname' hx
  · obtain ⟨g, hg, hg', hx | hx⟩ := hx
    · rw [hx, foreignName_iff.1] at hforeign
      omega
    · rw [hx, foreignName_iff.2] at hforeign
      omega

theorem Named.generates (h : e.Named) (hg : e.Generates e₁) (hm : e₁.modules = e.modules) :
    e₁.Named := by
  intro i inst hi hlive
  rw [hm]
  obtain hold | hnew := hg.2 i inst hi hlive
  · exact (h i inst hold hlive).imp_right fun hx => hx.mono (Nat.le_refl _) hg.1
  · exact .inr (hnew.mono (Nat.zero_le _) (Nat.le_refl _))

theorem Named.begin (h : e.Named) (art : Artifact) (name : String) : (e.begin art name).Named := by
  intro i inst hi hlive
  refine (h i inst hi hlive).imp_left ?_
  rintro ⟨name', hloadable, hknown, hreserved⟩
  refine ⟨name', hloadable, ?_, hreserved⟩
  rw [Engine.begin, Table.get?_insert]
  split
  · simp
  · exact hknown

theorem Named.load (h : e.Named) (ns : String) (art : Artifact) (name : String) :
    (e.load ns (some art) name).1.Named := by
  obtain ⟨failure, -, heq⟩ | ⟨-, record, result, metrics, -, -, heq⟩ | ⟨hrefusal, -, heq⟩ :=
    load_cases e ns art name
  · rw [heq]
    exact h
  · rw [heq]
    exact h
  · rw [heq]
    obtain ⟨hle, hadds⟩ := adds_link (e.begin art name) ns art name
    have hmodules : ∀ name', name' = name ∨ e.modules.get? name' ≠ none →
        (e.loadNew ns art name).1.modules.get? name' ≠ none := by
      intro name' hname'
      simp only [loadNew, finish, Table.get?_insert]
      split
      · simp
      · rename_i hne
        rw [(link_recorded (e.begin art name) ns art name).1, Engine.begin, Table.get?_insert, if_neg hne]
        exact hname'.resolve_left hne
    intro i inst hi hlive
    obtain hold | hforeign | hreserved := hadds i inst hi hlive
    · obtain ⟨name', hloadable, hknown, hreserved⟩ | hforeign := h i inst hold hlive
      · exact .inl ⟨name', hloadable, hmodules name' (.inr hknown), hreserved⟩
      · exact .inr (hforeign.mono (Nat.le_refl _) hle)
    · exact .inr (hforeign.mono (Nat.zero_le _) (Nat.le_refl _))
    · exact .inl ⟨name, loadable_of_refusal? hrefusal, hmodules name (.inl rfl), hreserved⟩

end Engine

end WasmLisp
