import Mathlib
import WasmLisp.Proofs.Analysis.Declared
import WasmLisp.Proofs.Codegen.Correct
import WasmLisp.Proofs.Engine.Interned
import WasmLisp.Proofs.Engine.Same
import WasmLisp.Proofs.Lisp.Calls
import WasmLisp.Proofs.Session.Current

/-!
# The compile side and the execution side stay aligned

The session declares the vars of a unit and carries out its effects form by form. The engine runs all
forms, then carries out the effects, then interns the functions. Since effects and declarations commute
(`Directory.effects_declare`) both make the same of a directory.

* `Session.takeForm_directory`, `Session.extend_directory`: what forms make of the session's frame;
* `Engine.Ready`, `Aligned`: what every load keeps (`Ready.load`);
* `Evaluator.InStep`: what every call keeps that succeeds (`InStep.run`);
* `Evaluator.aligned_after_calls`: so it is after every sequence of such calls.
-/

namespace WasmLisp

open Node (definitions Orderly)

/-! ## Directories -/

theorem Directory.subset_declare (d : Directory) (V : Set (String × String)) :
    d.vars ⊆ (d.declare V).vars := Set.subset_union_left

/-- The namespace that is current after effects is there if the one before them was. -/
theorem Directory.nsAfter_mem {d : Directory} {ns : String} (h : ns ∈ d.namespaces)
    (es : List Effect) : Frame.nsAfter ns es ∈ (d.effects es).namespaces := by
  induction es generalizing d ns with
  | nil => exact h
  | cons e es ih =>
    have hone : (if e.kind = .switchNs then e.ns else ns) ∈ (d.effect e).namespaces := by
      split
      · rename_i hkind
        rw [effect, if_pos (.inl hkind)]
        exact .inr rfl
      · exact d.subset_effects [e] h
    exact ih hone

theorem Directory.ensure_of_mem {d : Directory} {ns : String} (h : ns ∈ d.namespaces) :
    d.ensure {ns} = d :=
  Directory.ext (Set.union_eq_self_of_subset_right (Set.singleton_subset_iff.mpr h)) rfl rfl rfl

/-- The directory that everything starts from. -/
theorem Env.directory_initial : Env.initial.directory =
    { namespaces := {Env.coreNs, Env.defaultNs}, aliases := fun _ => [], refers := fun _ => []
      vars := ∅ } := by
  have hempty : ({} : Env).directory =
      { namespaces := ∅, aliases := fun _ => [], refers := fun _ => [], vars := ∅ } := by
    refine Directory.ext ?_ rfl rfl ?_ <;> ext x <;> simp [directory, find?, lookup?, Table.get?]
  rw [initial, directory_ensure, directory_ensure, hempty]
  exact Directory.ext (by simp only [Directory.ensure, Set.empty_union, Set.singleton_union]) rfl rfl
    rfl

/-! ## Forms in a session -/

/-- An environment form that is replayed has carried out its effects. -/
theorem EnvForm.apply_of_replay {f f' : Frame} {form : Form} {es : List Effect}
    (h : replay f form = (f', .ok es)) : f.apply es = (f', none) := by
  unfold replay at h
  split at h
  · cases h
  · split at h
    · rename_i happly
      cases h
      exact happly
    · cases h

namespace Session

variable {f f' : Frame} {form : Form} {es : List Effect} {node : Option Node} {u u' : CompUnit}

/-- A form carries out effects, or it declares what its node defines. -/
theorem takeForm_directory (h : takeForm f form = (f', .ok (es, node))) :
    f'.env.directory = (f.env.directory.effects es).declare (definitions node.toList) ∧
      f'.ns = Frame.nsAfter f.ns es ∧ Orderly node.toList ∧ (node.isSome → es = []) := by
  unfold takeForm at h
  split at h
  · cases hr : EnvForm.replay f form with
    | mk f₁ r =>
      rw [hr] at h
      obtain ⟨rfl, hok⟩ := Prod.mk.inj h
      cases r with
      | error e => cases hok
      | ok effects =>
        cases hok
        obtain ⟨hdirectory, hns⟩ := Frame.directory_apply (EnvForm.apply_of_replay hr)
        refine ⟨?_, hns, Node.orderly_nil, nofun⟩
        rw [Option.toList_none, Node.definitions_nil, Directory.declare_empty]
        exact hdirectory
  · cases hr : form.analyze f.env f.ns with
    | mk env r =>
      rw [hr] at h
      obtain ⟨rfl, hok⟩ := Prod.mk.inj h
      cases r with
      | error e => cases hok
      | ok n =>
        cases hok
        obtain ⟨hdirectory, horderly⟩ := analyze_declares hr
        exact ⟨hdirectory, rfl, horderly, fun _ => rfl⟩

/-- The forms of a unit make of the frame what its effects and its definitions make of it. -/
theorem extend_directory {forms : List Form} (h : extend f u forms = (f', .ok u')) :
    ∃ es nodes, u' = { u with effects := u.effects ++ es, forms := u.forms ++ nodes } ∧
      f'.env.directory = (f.env.directory.effects es).declare (definitions nodes) ∧
      f'.ns = Frame.nsAfter f.ns es ∧ Orderly nodes := by
  induction forms generalizing f u with
  | nil =>
    cases h
    refine ⟨[], [], by simp, ?_, rfl, Node.orderly_nil⟩
    rw [Node.definitions_nil, Directory.declare_empty]
    rfl
  | cons form forms ih =>
    rcases ht : takeForm f form with ⟨f₁, failure | ⟨es, node⟩⟩
    · simp only [extend, ht] at h
      cases h
    · simp only [extend, ht] at h
      obtain ⟨hdirectory, hns, horderly, -⟩ := takeForm_directory ht
      obtain ⟨es', nodes, rfl, hrest, hrestNs, hrestOrderly⟩ := ih h
      refine ⟨es ++ es', node.toList ++ nodes, by simp, ?_, ?_, horderly.append hrestOrderly⟩
      · rw [hrest, hdirectory, Directory.effects_declare, Directory.declare_declare,
          ← Directory.effects_append, Node.definitions_append]
      · rw [hrestNs, hns, Frame.nsAfter_append]

/-- So it is with the forms of a unit that has no others. -/
theorem unit_directory {forms : List Form} {name ns : String} {target : Target}
    (h : extend f { name, ns, target } forms = (f', .ok u)) :
    f'.env.directory = (f.env.directory.effects u.effects).declare (definitions u.forms) ∧
      f'.ns = Frame.nsAfter f.ns u.effects ∧ Orderly u.forms := by
  obtain ⟨es, nodes, rfl, hframe⟩ := extend_directory h
  simpa only [List.nil_append] using hframe

theorem takeForm_vars (h : takeForm f form = (f', .ok (es, node))) :
    f.env.directory.vars ⊆ f'.env.directory.vars := by
  rw [(takeForm_directory h).1]
  refine subset_trans ?_ (Directory.subset_declare _ _)
  rw [Directory.vars_effects]

/-- The frame in which forms leave off that were all compiled has all vars. -/
theorem requireForms_vars {s : Session} {stem : String} {i : Nat} {p p' : Progress}
    {forms : List Form} (h : s.requireForms stem i p forms = (p', none)) :
    p.frame.env.directory.vars ⊆ p'.frame.env.directory.vars := by
  induction forms generalizing p i with
  | nil =>
    cases h
    exact subset_rfl
  | cons form forms ih =>
    have hframe := requireForm_frame s p s!"{stem}.{i}" form
    unfold requireForms at h
    split at h
    · cases h
    · rename_i p₁ hform
      rw [hform] at hframe
      refine subset_trans ?_ (ih h)
      rw [hframe]
      rcases ht : takeForm p.frame form with ⟨f₁, failure | ⟨es, node⟩⟩
      · rw [requireForm_error (by rw [ht])] at hform
        cases hform
      · exact takeForm_vars ht

/-- A definition at the top is the only one in its node. -/
theorem definitions_of_definition? {q hash : String} (h : definition? node = some (q, hash))
    (horderly : Orderly node.toList) :
    ∃ v, definitions node.toList = {v} ∧ q = Symbol.qualify v.1 v.2 := by
  obtain ⟨n, rfl, name, hname, heq⟩ : ∃ n, node = some n ∧ ∃ name, definedName? n = some name ∧
      (name, n.hash) = (q, hash) := by
    cases node with
    | none => cases h
    | some n =>
      obtain ⟨name, hname, heq⟩ := Option.bind_eq_some_iff.mp h
      exact ⟨n, rfl, name, hname, Option.some.inj heq⟩
  cases heq
  have hall : ∀ v, n.defined? = some v → n.spine = [n] → definitions [n] = {v} := by
    intro v hv hspine
    ext w
    constructor
    · rintro ⟨m, hm, hw⟩
      have hin := horderly m hm (by rw [hw]; exact Option.some_ne_none w)
      obtain rfl : m = n := by simpa [Node.spineAll, hspine] using hin
      exact Option.some.inj (hw.symm.trans hv)
    · rintro rfl
      refine ⟨n, ?_, hv⟩
      rw [Node.flattenAll_singleton]
      cases n with
      | absent => cases hv
      | _ => simp [Node.flatten]
  cases n with
  | bindVar ns x init =>
    cases hname
    exact ⟨(ns, x), hall _ rfl rfl, rfl⟩
  | defn ns x params body =>
    cases hname
    exact ⟨(ns, x), hall _ rfl rfl, rfl⟩
  | _ => cases hname

end Session

/-! ## Artifacts of a compiler -/

/-- What a compiler gives was generated of the unit, wherever it comes from. -/
theorem Compiler.compile_made {inputs : Set (List UInt8)} {c : Compiler} {u : CompUnit}
    (hinputs : Digest.Apart inputs) (h : c.Honest inputs) (hc : c.Proper) (hu : c.hashed u ⊆ inputs)
    {art : Artifact} (hart : (c.compile u).2 = .ok art) (hsize : art.bytes.length < 0x100000000) :
    ∃ (b : Backend) (fns : List Defn) (g : Codegen.Generated), c.backend? u.target.normalize = some b ∧
      b.preamble.load = .ok fns ∧ art.Made { u with target := b.target } fns b.maxDepth g ∧
      art.entrySymbol = u.entrySymbol := by
  have hsame := (compile_honest hinputs h hc hu).2
  rw [hart] at hsame
  cases hb : c.backend? u.target.normalize with
  | none =>
    unfold compile at hart
    simp only [hb] at hart
    cases hart
  | some b =>
    simp only [answer, hb] at hsame
    cases hbuilt : b.build u with
    | error failure =>
      rw [hbuilt] at hsame
      exact hsame.elim
    | ok built =>
      rw [hbuilt] at hsame
      have hsame : art.Same built := hsame
      obtain ⟨fns, g, hfns, hg, -, -, rfl⟩ := Backend.build_eq_ok.mp hbuilt
      have hbytes : art.bytes = g.module.encode := hsame.bytes
      refine ⟨b, fns, g, rfl, hfns, ⟨hg, hbytes, .inr hsame.manifest, hbytes ▸ hsize⟩, ?_⟩
      obtain ⟨p, hp, hmanifest, -⟩ := Codegen.generate_eq_ok hg
      rw [hsame.entrySymbol, Backend.artifactOf, hmanifest]
      rfl

/-! ## Loading -/

variable {P : Set (String × String)} {f f' : Frame} {e e' : Engine} {ns ns' name : String}

/-- A session's frame and an engine with the namespace of its frame agree, apart from vars that are
declared on the compile side only. -/
structure Aligned (P : Set (String × String)) (f : Frame) (e : Engine) (ns : String) : Prop where
  current : f.ns = ns
  directory : f.env.directory = e.env.directory.declare P
  here : ns ∈ e.env.directory.namespaces
  core : Prod.fst '' P ⊆ e.env.directory.namespaces

theorem Aligned.subset_vars (h : Aligned P f e ns) : e.env.directory.vars ⊆ f.env.directory.vars := by
  rw [h.directory]
  exact Directory.subset_declare _ _

/-- Effects and definitions keep both sides aligned. -/
theorem Aligned.step (h : Aligned P f e ns) {es : List Effect} {V : Set (String × String)}
    (hf : f'.env.directory = (f.env.directory.effects es).declare V)
    (hfns : f'.ns = Frame.nsAfter f.ns es)
    (he : e'.env.directory = ((e.env.directory.ensure {ns}).effects es).declare V) :
    Aligned P f' e' (Frame.nsAfter ns es) := by
  rw [Directory.ensure_of_mem h.here] at he
  refine ⟨by rw [hfns, h.current], ?_, ?_, ?_⟩
  · rw [hf, he, h.directory, Directory.effects_declare, Directory.declare_comm]
  · rw [he]
    exact .inl (Directory.nsAfter_mem h.here es)
  · rw [he]
    exact (h.core.trans (Directory.subset_effects _ es)).trans Set.subset_union_left

namespace Engine

/-- What loading a new module relies on. -/
structure Ready (e : Engine) : Prop where
  named : e.Named
  binds : e.Binds e.env.directory.vars

/-- Neither a module nor the binary that it is rewritten to is too large for the 32-bit sizes of the
format. -/
def TakesSmall (e : Engine) (c : Compiled) : Prop :=
  c.artifact.bytes.length < 0x100000000 ∧
    (e.begin c.artifact c.module).RewritesSmall c.artifact c.module

instance (e : Engine) (c : Compiled) : Decidable (e.TakesSmall c) := inferInstanceAs (Decidable (_ ∧ _))

/-- The names that are known after a load. -/
theorem get?_modules_of_load (e : Engine) (ns : String) (art : Artifact) (name : String) {name' : String}
    (h : (e.load ns (some art) name).1.modules.get? name' ≠ none) :
    name' = name ∨ e.modules.get? name' ≠ none := by
  obtain ⟨failure, -, heq⟩ | ⟨-, record, result, metrics, -, -, heq⟩ | ⟨-, -, heq⟩ :=
    load_cases e ns art name
  · rw [heq] at h
    exact .inr h
  · rw [heq] at h
    exact .inr h
  · rw [heq] at h
    simp only [loadNew, finish, Table.get?_insert] at h
    split at h
    · exact .inl ‹_›
    · rename_i hne
      rw [(link_recorded (e.begin art name) ns art name).1, begin, Table.get?_insert, if_neg hne] at h
      exact .inr h

/-- A new module is loaded that was compiled of a unit. -/
theorem Ready.load {inputs : Set (List UInt8)} {c : Compiler} {u : CompUnit} {art : Artifact}
    {entry : EntryPoint} (hready : e.Ready) (haligned : Aligned P f e ns)
    (hnew : e.modules.get? name = none) (hinputs : Digest.Apart inputs) (hhonest : c.Honest inputs)
    (hproper : c.Proper) (hu : c.hashed u ⊆ inputs) (hart : (c.compile u).2 = .ok art)
    (hsmall : e.TakesSmall { artifact := art, module := name }) (horder : Orderly u.forms)
    (hslash : ∀ v ∈ definitions u.forms, '/' ∉ v.1.toList)
    (hf : f'.env.directory = (f.env.directory.effects u.effects).declare (definitions u.forms))
    (hfns : f'.ns = Frame.nsAfter f.ns u.effects)
    (hload : e.load ns (some art) name = (e', ns', .ok entry)) :
    e'.Ready ∧ Aligned P f' e' ns' ∧
      e'.env.directory.vars = e.env.directory.vars ∪ definitions u.forms := by
  obtain ⟨b, fns, g, -, hfns', hmade, hentry⟩ :=
    Compiler.compile_made hinputs hhonest hproper hu hart hsmall.1
  have hname : Loadable name := by
    cases hrefusal : e.refusal? (some art) name with
    | none => exact loadable_of_refusal? hrefusal
    | some failure =>
      simp only [Engine.load, hrefusal] at hload
      cases hload
  obtain ⟨hdirectory, rfl, hbinds⟩ := load_directory hnew (fun x hx => hready.named.free hname hnew hx)
    hmade hentry hsmall.2 (Preamble.orderly_load hfns') horder hslash hready.binds hload
  have hnamed := hready.named.load ns art name
  rw [hload] at hnamed
  refine ⟨⟨hnamed, hbinds⟩, haligned.step hf hfns hdirectory, ?_⟩
  rw [hdirectory, Directory.declare, Directory.vars_effects]
  rfl

end Engine

/-! ## Requiring form by form -/

/-- The keys name vars of a set. -/
def Names (keys : List String) (V : Set (String × String)) : Prop :=
  ∀ q ∈ keys, ∃ v ∈ V, q = Symbol.qualify v.1 v.2

theorem Names.mono {keys : List String} {V W : Set (String × String)} (h : Names keys V)
    (hVW : V ⊆ W) : Names keys W := fun q hq =>
  have ⟨v, hv, heq⟩ := h q hq
  ⟨v, hVW hv, heq⟩

theorem Names.freshWith {p : Session.Progress} {node : Option Node} {V : Set (String × String)}
    (h : Names p.fresh.keys V) (horderly : Orderly node.toList) :
    Names (p.freshWith node).keys (V ∪ definitions node.toList) := by
  intro q hq
  unfold Session.Progress.freshWith at hq
  split at hq
  · rename_i q' hash hdef
    obtain ⟨v, hv, rfl⟩ := Session.definitions_of_definition? hdef horderly
    rcases Table.mem_keys_insert hq with rfl | hq
    · exact ⟨v, .inr (by rw [hv]; rfl), rfl⟩
    · exact h.mono Set.subset_union_left q hq
  · exact h.mono Set.subset_union_left q hq

namespace Session

open Evaluator (loadAll loadsOf)

variable {inputs : Set (List UInt8)} {s : Session} {stem : String} {p p' : Progress}

/-- A definition that is left out as current declares nothing new if what is recorded is there. -/
theorem skip_directory {form : Form} {es : List Effect} {node : Option Node} {q hash : String}
    {V : Set (String × String)} (h : takeForm f form = (f', .ok (es, node)))
    (hdef : definition? node = some (q, hash)) (hq : s.tracker.changed q hash = false)
    (hnames : Names s.tracker.hashes.keys V) (hV : V ⊆ f.env.directory.vars)
    (hslash : ∀ v ∈ f'.env.directory.vars, '/' ∉ v.1.toList) :
    f'.env.directory = f.env.directory ∧ f'.ns = f.ns := by
  obtain ⟨hdirectory, hns, horderly, heffects⟩ := takeForm_directory h
  obtain ⟨v, hv, rfl⟩ := definitions_of_definition? hdef horderly
  obtain rfl : es = [] := heffects (by
    cases node with
    | none => cases hdef
    | some n => rfl)
  refine ⟨?_, hns⟩
  have hrecorded : Symbol.qualify v.1 v.2 ∈ s.tracker.hashes.keys := by
    have hget : s.tracker.hashes.get? (Symbol.qualify v.1 v.2) = some hash := by
      simpa [DefTracker.changed] using hq
    exact List.mem_map_of_mem (f := (·.1)) (Table.mem_of_get? hget)
  obtain ⟨w, hw, heq⟩ := hnames _ hrecorded
  have hsame : v = w := by
    have hcut := Symbol.cut?_qualify (hslash v (by rw [hdirectory, hv]; exact .inr rfl)) v.2
    rw [heq, Symbol.cut?_qualify (hslash w (takeForm_vars h (hV hw)))] at hcut
    exact (Option.some.inj hcut).symm
  rw [hdirectory, hv, hsame]
  exact Env.declare_of_subset (Set.singleton_subset_iff.mpr (hV hw))

/-- The modules that forms are compiled to are loaded one after the other. -/
theorem requireForms_aligned (hinputs : Digest.Apart inputs) {i : Nat} {forms : List Form}
    (hp : s.requireForms stem i p forms = (p', none)) (hproper : p.compiler.Proper)
    (hhonest : p.compiler.Honest inputs)
    (hhanded : ∀ u ∈ s.handedForms stem i p forms, p.compiler.hashed u ⊆ inputs)
    (hslash : ∀ v ∈ p'.frame.env.directory.vars, '/' ∉ v.1.toList) :
    p'.compiler.Honest inputs ∧ ∃ new, p'.done.modules = p.done.modules ++ new ∧
      ∀ (e e' : Engine) (ns ns' : String), e.Ready → Aligned P p.frame e ns →
        (∀ j, i ≤ j → e.modules.get? s!"{stem}.{j}" = none) →
        Names s.tracker.hashes.keys e.env.directory.vars →
        Names p.fresh.keys e.env.directory.vars →
        (∀ l ∈ loadsOf e ns new, l.1.TakesSmall l.2) → loadAll e ns new = (e', ns', .ok ()) →
        e'.Ready ∧ Aligned P p'.frame e' ns' ∧
          e'.env.directory.vars = e.env.directory.vars ∪
            definitions ((s.handedForms stem i p forms).flatMap (·.forms)) ∧
          Names p'.fresh.keys e'.env.directory.vars ∧
          ∀ name, e'.modules.get? name ≠ none →
            e.modules.get? name ≠ none ∨ ∃ j : Nat, name = s!"{stem}.{j}" := by
  induction forms generalizing p i with
  | nil =>
    cases hp
    refine ⟨hhonest, [], (List.append_nil _).symm, ?_⟩
    rintro e e' ns ns' hready haligned - - hfresh - hload
    cases hload
    refine ⟨hready, haligned, ?_, hfresh, fun _ h => .inl h⟩
    rw [handedForms, List.flatMap_nil, Node.definitions_nil, Set.union_empty]
  | cons form forms ih =>
    have hframe := requireForm_frame s p s!"{stem}.{i}" form
    have hbackends := requireForm_backends s p s!"{stem}.{i}" form
    unfold requireForms at hp
    obtain ⟨p₁, hform⟩ : ∃ p₁, s.requireForm p s!"{stem}.{i}" form = (p₁, none) := by
      rcases hform : s.requireForm p s!"{stem}.{i}" form with ⟨p₁, - | failure⟩
      · exact ⟨p₁, rfl⟩
      · simp only [hform] at hp
        cases hp
    have hunits : s.handedForms stem i p (form :: forms) =
        s.handedForm p s!"{stem}.{i}" form ++ s.handedForms stem (i + 1) p₁ forms := by
      simp only [handedForms, hform]
    rw [hunits] at hhanded ⊢
    simp only [hform] at hp hframe hbackends
    have hslash₁ : ∀ v ∈ p₁.frame.env.directory.vars, '/' ∉ v.1.toList := fun v hv =>
      hslash v (requireForms_vars hp hv)
    have hproper₁ : p₁.compiler.Proper := by
      unfold Compiler.Proper
      rw [hbackends]
      exact hproper
    have hhanded₁ : ∀ u ∈ s.handedForms stem (i + 1) p₁ forms, p₁.compiler.hashed u ⊆ inputs := by
      intro u hu
      rw [Compiler.hashed_congr hbackends]
      exact hhanded u (List.mem_append_right _ hu)
    obtain ⟨failure, h⟩ | ⟨es, node, q, hash, h, hdef, hq⟩ | ⟨es, node, h, hcurrent⟩ :=
      requireForm_cases s p form
    · rw [requireForm_error h] at hform
      cases hform
    · -- the definition is left out, so nothing is loaded for it
      rw [requireForm_skip h hdef hq] at hform
      cases hform
      obtain ⟨hhonest', new, hmodules, hrest⟩ := ih hp hproper₁ hhonest hhanded₁
      refine ⟨hhonest', new, hmodules, fun e e' ns ns' hready haligned hnew hnames => ?_⟩
      have hnone : s.handedForm p s!"{stem}.{i}" form = [] := by
        have hcurrent : s.isCurrent node = true := by simp [isCurrent, hdef, hq]
        simp [handedForm, h, hcurrent]
      rw [hnone, List.nil_append]
      have htaken : takeForm p.frame form = ((takeForm p.frame form).1, .ok (es, node)) :=
        Prod.ext rfl h
      obtain ⟨hdirectory, hns⟩ :=
        skip_directory htaken hdef hq hnames haligned.subset_vars hslash₁
      refine hrest e e' ns ns' hready ?_ (fun j hj => hnew j (by omega)) hnames
      exact ⟨hns.trans haligned.current, hdirectory.trans haligned.directory, haligned.here,
        haligned.core⟩
    · rw [requireForm_build h hcurrent, Progress.build] at hform
      have hunit : s.handedForm p s!"{stem}.{i}" form = [s.part p.frame.ns s!"{stem}.{i}" es node] := by
        simp [handedForm, h, hcurrent]
      rw [hunit, List.singleton_append] at hhanded ⊢
      have hu : p.compiler.hashed (s.part p.frame.ns s!"{stem}.{i}" es node) ⊆ inputs :=
        hhanded _ List.mem_cons_self
      have hhonest₁ := (Compiler.compile_honest hinputs hhonest hproper hu).1
      rcases hcompile : p.compiler.compile (s.part p.frame.ns s!"{stem}.{i}" es node) with
        ⟨compiler, failure | art⟩
      · simp only [hcompile] at hform
        cases hform
      simp only [hcompile] at hform
      cases hform
      rw [hcompile] at hhonest₁
      obtain ⟨hhonest', new, hmodules, hrest⟩ := ih hp hproper₁ hhonest₁ hhanded₁
      have htaken : takeForm p.frame form = ((takeForm p.frame form).1, .ok (es, node)) :=
        Prod.ext rfl h
      obtain ⟨hdirectory, hns, horderly, -⟩ := takeForm_directory htaken
      refine ⟨hhonest', { artifact := art, module := s!"{stem}.{i}" } :: new, by
        rw [hmodules]; simp [part], fun e e' ns ns' hready haligned hnew hnames hfresh hsmall hload => ?_⟩
      rcases hfirst : e.load ns (some art) s!"{stem}.{i}" with ⟨e₁, ns₁, failure | entry⟩
      · simp only [loadAll, hfirst] at hload
        cases hload
      simp only [loadAll, hfirst] at hload
      simp only [loadsOf, hfirst, List.mem_cons, forall_eq_or_imp] at hsmall
      obtain ⟨hready₁, haligned₁, hvars₁⟩ := hready.load haligned (hnew i le_rfl) hinputs hhonest hproper
        hu (by rw [hcompile]) hsmall.1 horderly
        (fun v hv => hslash₁ v (by rw [hdirectory]; exact .inr hv)) hdirectory hns hfirst
      have hnew₁ : ∀ j, i + 1 ≤ j → e₁.modules.get? s!"{stem}.{j}" = none := by
        intro j hj
        by_contra hknown
        have hloaded := Engine.get?_modules_of_load e ns art s!"{stem}.{i}" (by rw [hfirst]; exact hknown)
        obtain heq | hold := hloaded
        · have hij := (Evaluator.numbered_inj heq).2
          omega
        · exact hold (hnew j (by omega))
      have hfresh₁ : Names (p.freshWith node).keys e₁.env.directory.vars :=
        hvars₁ ▸ hfresh.freshWith horderly
      obtain ⟨hready', haligned', hvars', hfresh', hknown'⟩ := hrest e₁ e' ns₁ ns' hready₁ haligned₁
        hnew₁ (hnames.mono (hvars₁ ▸ Set.subset_union_left)) hfresh₁ hsmall.2 hload
      refine ⟨hready', haligned', ?_, hfresh', fun name' hname' => ?_⟩
      · rw [hvars', hvars₁, Set.union_assoc, List.flatMap_cons, Node.definitions_append]
      obtain hold | hj := hknown' name' hname'
      · have hloaded := Engine.get?_modules_of_load e ns art s!"{stem}.{i}" (by rw [hfirst]; exact hold)
        exact hloaded.elim (fun heq => .inr ⟨i, heq⟩) .inl
      · exact .inr hj

variable {c c' : Compiler} {s' : Session} {src : String}

/-- All that happens when a source is compiled as one unit. -/
theorem compile_eq_ok {module : String} {m : Compiled} (h : s.compile c module src = (s', c', .ok m)) :
    ∃ forms frame u art, Form.readAll src = .ok forms ∧
      extend s.frame { name := module, ns := s.ns, target := s.target } forms = (frame, .ok u) ∧
      c.compile u = (c', .ok art) ∧ m = { artifact := art, module } ∧ s' = { s with frame } := by
  unfold compile at h
  rcases hread : Form.readAll src with failure | forms
  · simp only [hread] at h
    cases h
  rcases hextend : extend s.frame { name := module, ns := s.ns, target := s.target } forms with
    ⟨frame, failure | u⟩
  · simp only [hread, hextend] at h
    cases h
  rcases hcompile : c.compile u with ⟨compiler, failure | art⟩
  · simp only [hread, hextend, hcompile] at h
    cases h
  · simp only [hread, hextend, hcompile] at h
    cases h
    exact ⟨forms, frame, u, art, rfl, hextend, hcompile, rfl, rfl⟩

/-- All that happens when a source is compiled form by form. -/
theorem require_eq_ok {modulePrefix : String} {q : Required}
    (h : s.require c modulePrefix src = (s', c', .ok q)) :
    ∃ forms p, modulePrefix ≠ "" ∧ Form.readAll src = .ok forms ∧
      requireForms { s with requires := s.requires + 1 } s!"{modulePrefix}${s.requires + 1}" 1
        { frame := s.frame, compiler := c } forms = (p, none) ∧
      s' = { s with requires := s.requires + 1, frame := p.frame
                    tracker := p.fresh.foldl (fun t (q, hash) => t.record q hash) s.tracker } ∧
      c' = p.compiler ∧ q = p.done := by
  unfold require at h
  split at h
  · cases h
  rename_i hprefix
  rcases hread : Form.readAll src with failure | forms
  · simp only [hread] at h
    cases h
  rcases hforms : requireForms { s with requires := s.requires + 1 }
    s!"{modulePrefix}${s.requires + 1}" 1 { frame := s.frame, compiler := c } forms with
    ⟨p, - | failure⟩
  · simp only [hread, hforms] at h
    cases h
    exact ⟨forms, p, hprefix, rfl, hforms, rfl, rfl, rfl⟩
  · simp only [hread, hforms] at h
    cases h

/-- What is recorded after a request is what was recorded before it and what it compiled. -/
theorem keys_record_all {t : Table String} {tracker : DefTracker} {q : String}
    (h : q ∈ (t.foldl (fun tr (e : String × String) => tr.record e.1 e.2) tracker).hashes.keys) :
    q ∈ t.keys ∨ q ∈ tracker.hashes.keys := by
  induction t generalizing tracker with
  | nil => exact .inr h
  | cons e t ih =>
    rw [List.foldl_cons] at h
    obtain h | h := ih h
    · exact .inl (List.mem_cons_of_mem _ h)
    · exact (Table.mem_keys_insert h).imp_left fun heq => List.mem_cons.mpr (.inl heq)

end Session

/-! ## Calls -/

namespace Evaluator

variable {inputs : Set (List UInt8)} {v v' : Evaluator} {s s' : Lisp} {c : Call} {src : String}

/-- What is hashed for a call is among the inputs, and nothing that it loads is too large. -/
structure Call.Fits (inputs : Set (List UInt8)) (v : Evaluator) (s : Lisp) (c : Call) : Prop where
  hashed : ∀ u ∈ c.handed v s, s.compiler.hashed u ⊆ inputs
  small : ∀ l ∈ c.loads v s, l.1.TakesSmall l.2

/-- So it is for calls one after the other if all that is hashed for them is among the inputs. -/
theorem fits_along {calls : List Call}
    (hhashed : ∀ u ∈ handedAll v s calls, s.compiler.hashed u ⊆ inputs)
    (hsmall : Along (fun v s c => ∀ l ∈ c.loads v s, l.1.TakesSmall l.2) v s calls) :
    Along (fun v s c => c.Fits inputs v s) v s calls := by
  induction calls generalizing v s with
  | nil => trivial
  | cons c calls ih =>
    refine ⟨⟨fun u hu => hhashed u (List.mem_append_left _ hu), hsmall.1⟩, ih (fun u hu => ?_) hsmall.2⟩
    rw [Compiler.hashed_congr (Call.run_backends v s c)]
    exact hhashed u (List.mem_append_right _ hu)

/-- The names of the modules of so many evaluations and of so many requires. -/
def Used (evals requires : Nat) (name : String) : Prop :=
  (∃ n ≤ evals, name = moduleName modulePrefix n) ∨
    ∃ n ≤ requires, ∃ i, name = Session.moduleName modulePrefix n i

/-- The next evaluation has a name of its own. -/
theorem not_used_eval (evals requires : Nat) :
    ¬Used evals requires (moduleName modulePrefix (evals + 1)) := by
  rintro (⟨n, hn, heq⟩ | ⟨n, -, i, heq⟩)
  · have := moduleName_inj heq
    omega
  · exact moduleName_ne_requiredName heq

/-- So do the modules of the next require. -/
theorem not_used_require (evals requires j : Nat) :
    ¬Used evals requires (Session.moduleName modulePrefix (requires + 1) j) := by
  rintro (⟨n, -, heq⟩ | ⟨n, hn, i, heq⟩)
  · exact moduleName_ne_requiredName heq.symm
  · have := (requiredName_inj heq).1
    omega

theorem Used.mono {evals evals' requires requires' : Nat} {name : String} (h : Used evals requires name)
    (hevals : evals ≤ evals') (hrequires : requires ≤ requires') : Used evals' requires' name :=
  h.imp (fun ⟨n, hn, heq⟩ => ⟨n, hn.trans hevals, heq⟩)
    fun ⟨n, hn, heq⟩ => ⟨n, hn.trans hrequires, heq⟩

/-- The compile side and the execution side are aligned, and later calls can rely on it. -/
structure InStep (inputs : Set (List UInt8)) (P : Set (String × String)) (v : Evaluator) (s : Lisp) :
    Prop where
  aligned : Aligned P v.session.frame s.engine v.ns
  ready : s.engine.Ready
  proper : s.compiler.Proper
  honest : s.compiler.Honest inputs
  recorded : Names v.session.tracker.hashes.keys s.engine.env.directory.vars
  used : ∀ name, s.engine.modules.get? name ≠ none → Used v.evals v.session.requires name

theorem switchTo_self {x : Session} {ns : String} (h : x.ns = ns) : x.switchTo ns = x := by
  rw [Session.switchTo, if_pos (by simp [h])]

/-- An evaluation that succeeds compiles the source and loads the module. -/
theorem eval_eq_ok {value : Int64} (h : v.eval s src = (v', s', .ok value)) :
    ∃ session compiler m engine ns entry,
      (v.session.switchTo v.ns).compile s.compiler (moduleName modulePrefix (v.evals + 1)) src =
        (session, compiler, .ok m) ∧
      s.engine.load v.ns (some m.artifact) m.module = (engine, ns, .ok entry) ∧
      value = entry.result ∧ v' = { session, ns, evals := v.evals + 1 } ∧
      s' = { s with compiler, engine } := by
  unfold eval at h
  rcases hcompile : (v.session.switchTo v.ns).compile s.compiler
    (moduleName modulePrefix (v.evals + 1)) src with ⟨session, compiler, failure | m⟩
  · unfold moduleName at hcompile
    simp only [hcompile] at h
    cases h
  rcases hload : s.engine.load v.ns (some m.artifact) m.module with ⟨engine, ns, failure | entry⟩
  · unfold moduleName at hcompile
    simp only [hcompile, hload] at h
    cases h
  · have hname := hcompile
    unfold moduleName at hname
    simp only [hname, hload] at h
    cases h
    exact ⟨session, compiler, m, engine, ns, entry, rfl, hload, rfl, rfl, rfl⟩

/-- A require that succeeds compiles the forms and loads the modules. -/
theorem require_eq_ok {skipped : List String} (h : v.require s src = (v', s', .ok skipped)) :
    ∃ session compiler q engine ns,
      (v.session.switchTo v.ns).require s.compiler modulePrefix src = (session, compiler, .ok q) ∧
      loadAll s.engine v.ns q.modules = (engine, ns, .ok ()) ∧ skipped = q.skipped ∧
      v' = { v with session, ns } ∧ s' = { s with compiler, engine } := by
  unfold require at h
  rcases hrequire : (v.session.switchTo v.ns).require s.compiler modulePrefix src with
    ⟨session, compiler, failure | q⟩
  · simp only [hrequire] at h
    cases h
  rcases hload : loadAll s.engine v.ns q.modules with ⟨engine, ns, failure | ⟨⟩⟩
  · simp only [hrequire, hload] at h
    cases h
  · simp only [hrequire, hload] at h
    cases h
    exact ⟨session, compiler, q, engine, ns, rfl, hload, rfl, rfl, rfl⟩

/-- An evaluation keeps the sides in step. -/
theorem InStep.eval {P : Set (String × String)} {value : Int64} (h : InStep inputs P v s)
    (hinputs : Digest.Apart inputs) (hfits : (Call.eval src).Fits inputs v s)
    (hslash : ∀ q ∈ v'.session.frame.env.directory.vars, '/' ∉ q.1.toList)
    (hrun : v.eval s src = (v', s', .ok value)) :
    InStep inputs P v' s' ∧ s'.engine.env.directory.vars = s.engine.env.directory.vars ∪
      definitions (((Call.eval src).handed v s).flatMap (·.forms)) := by
  obtain ⟨session, compiler, m, engine, ns, entry, hcompile, hload, rfl, rfl, rfl⟩ := eval_eq_ok hrun
  have hhanded := hfits.hashed
  have hsmall := hfits.small
  unfold Call.handed Session.handed Call.request at hhanded ⊢
  unfold Call.loads Call.request Session.handle at hsmall
  rw [switchTo_self h.aligned.current] at hcompile hhanded hsmall ⊢
  simp only [hcompile, loadsOf, List.forall_mem_cons] at hsmall
  obtain ⟨forms, frame, u, art, hread, hextend, hbuilt, rfl, rfl⟩ := Session.compile_eq_ok hcompile
  simp only [hread, hextend, Except.toOption, Option.toList_some, List.forall_mem_singleton,
    List.flatMap_singleton] at hhanded ⊢
  obtain ⟨hdirectory, hns, horderly⟩ := Session.unit_directory hextend
  have hnew : s.engine.modules.get? (moduleName modulePrefix (v.evals + 1)) = none := by
    by_contra hknown
    exact not_used_eval _ _ (h.used _ hknown)
  obtain ⟨hready, haligned, hvars⟩ := h.ready.load h.aligned hnew hinputs h.honest h.proper hhanded
    (by rw [hbuilt]) hsmall.1 horderly (fun q hq => hslash q (by rw [hdirectory]; exact .inr hq))
    hdirectory hns hload
  have hhonest := (Compiler.compile_honest hinputs h.honest h.proper hhanded).1
  rw [hbuilt] at hhonest
  refine ⟨⟨haligned, hready, fun key b hb => h.proper key b ?_, hhonest,
    h.recorded.mono (hvars ▸ Set.subset_union_left), fun name hname => ?_⟩, hvars⟩
  · have hbackends := Compiler.compile_backends s.compiler u
    rw [hbuilt] at hbackends
    exact hbackends ▸ hb
  · obtain rfl | hold := Engine.get?_modules_of_load _ _ _ _ (by rw [hload]; exact hname)
    · exact .inl ⟨v.evals + 1, le_rfl, rfl⟩
    · exact (h.used name hold).mono (Nat.le_succ _) le_rfl

/-- So does a require. -/
theorem InStep.require {P : Set (String × String)} {skipped : List String} (h : InStep inputs P v s)
    (hinputs : Digest.Apart inputs) (hfits : (Call.require src).Fits inputs v s)
    (hslash : ∀ q ∈ v'.session.frame.env.directory.vars, '/' ∉ q.1.toList)
    (hrun : v.require s src = (v', s', .ok skipped)) :
    InStep inputs P v' s' ∧ s'.engine.env.directory.vars = s.engine.env.directory.vars ∪
      definitions (((Call.require src).handed v s).flatMap (·.forms)) := by
  obtain ⟨session, compiler, q, engine, ns, hrequire, hload, rfl, rfl, rfl⟩ := require_eq_ok hrun
  have hhanded := hfits.hashed
  have hsmall := hfits.small
  unfold Call.handed Session.handed Call.request at hhanded ⊢
  unfold Call.loads Call.request Session.handle at hsmall
  rw [switchTo_self h.aligned.current] at hrequire hhanded hsmall ⊢
  simp only [hrequire] at hsmall
  obtain ⟨forms, p, hprefix, hread, hforms, rfl, rfl, rfl⟩ := Session.require_eq_ok hrequire
  simp only [if_neg hprefix, hread] at hhanded ⊢
  obtain ⟨hhonest, new, hmodules, hloads⟩ := Session.requireForms_aligned hinputs hforms h.proper
    h.honest hhanded hslash
  obtain rfl : p.done.modules = new := hmodules
  have hnew : ∀ j, 1 ≤ j →
      s.engine.modules.get? (Session.moduleName modulePrefix (v.session.requires + 1) j) = none := by
    intro j hj
    by_contra hknown
    exact not_used_require _ _ j (h.used _ hknown)
  obtain ⟨hready, haligned, hvars, hfresh, hknown⟩ := hloads s.engine engine v.ns ns h.ready h.aligned
    hnew h.recorded nofun hsmall hload
  refine ⟨⟨haligned, hready, fun key b hb => h.proper key b ?_, hhonest, fun q hq => ?_,
    fun name hname => ?_⟩, hvars⟩
  · have hbackends := Session.requireForms_backends { v.session with requires := v.session.requires + 1 }
      s!"{modulePrefix}${v.session.requires + 1}" 1
      { frame := v.session.frame, compiler := s.compiler } forms
    rw [hforms] at hbackends
    exact hbackends ▸ hb
  · obtain hq | hq := Session.keys_record_all hq
    · exact hfresh q hq
    · exact h.recorded.mono (hvars ▸ Set.subset_union_left) q hq
  · obtain hold | ⟨j, rfl⟩ := hknown name hname
    · exact (h.used name hold).mono le_rfl (Nat.le_succ _)
    · exact .inr ⟨v.session.requires + 1, le_rfl, j, rfl⟩

/-- A call that succeeds keeps the sides in step. -/
theorem InStep.run {P : Set (String × String)} (h : InStep inputs P v s)
    (hinputs : Digest.Apart inputs) (hfits : c.Fits inputs v s)
    (hslash : ∀ q ∈ v'.session.frame.env.directory.vars, '/' ∉ q.1.toList)
    (hrun : c.run v s = (v', s', .ok ())) :
    InStep inputs P v' s' ∧ s'.engine.env.directory.vars = s.engine.env.directory.vars ∪
      definitions ((c.handed v s).flatMap (·.forms)) := by
  cases c with
  | eval src =>
    rcases heval : v.eval s src with ⟨v₁, s₁, failure | value⟩
    · simp only [Call.run, heval] at hrun
      cases hrun
    · simp only [Call.run, heval] at hrun
      cases hrun
      exact h.eval hinputs hfits hslash heval
  | require src =>
    rcases hrequire : v.require s src with ⟨v₁, s₁, failure | skipped⟩
    · simp only [Call.run, hrequire] at hrun
      cases hrun
    · simp only [Call.run, hrequire] at hrun
      cases hrun
      exact h.require hinputs hfits hslash hrequire

/-! ## Sequences of calls -/

theorem switchTo_vars (x : Session) (ns : String) :
    (x.switchTo ns).frame.env.directory.vars = x.frame.env.directory.vars := by
  unfold Session.switchTo
  split
  · rfl
  · show (Env.ensure _ _).directory.vars = _
    rw [Env.directory_ensure]
    rfl

/-- Vars stay interned in the session while calls succeed. -/
theorem run_vars (h : c.run v s = (v', s', .ok ())) :
    v.session.frame.env.directory.vars ⊆ v'.session.frame.env.directory.vars := by
  rw [← switchTo_vars v.session v.ns]
  cases c with
  | eval src =>
    rcases heval : v.eval s src with ⟨v₁, s₁, failure | value⟩
    · simp only [Call.run, heval] at h
      cases h
    · simp only [Call.run, heval] at h
      cases h
      obtain ⟨_, _, _, _, _, _, hcompile, -, -, rfl, -⟩ := eval_eq_ok heval
      obtain ⟨forms, frame, u, art, -, hextend, -, -, rfl⟩ := Session.compile_eq_ok hcompile
      rw [(Session.unit_directory hextend).1]
      refine subset_trans ?_ (Directory.subset_declare _ _)
      rw [Directory.vars_effects]
  | require src =>
    rcases hrequire : v.require s src with ⟨v₁, s₁, failure | skipped⟩
    · simp only [Call.run, hrequire] at h
      cases h
    · simp only [Call.run, hrequire] at h
      cases h
      obtain ⟨_, _, _, _, _, hcompiled, -, -, rfl, -⟩ := require_eq_ok hrequire
      obtain ⟨forms, p, -, -, hforms, rfl, -⟩ := Session.require_eq_ok hcompiled
      have hvars := Session.requireForms_vars hforms
      exact hvars

theorem runAll_cons {calls : List Call} (h : runAll v s (c :: calls) = some (v', s')) :
    ∃ v₁ s₁, c.run v s = (v₁, s₁, .ok ()) ∧ runAll v₁ s₁ calls = some (v', s') := by
  rcases hrun : c.run v s with ⟨v₁, s₁, failure | ⟨⟩⟩
  · simp only [runAll, hrun] at h
    cases h
  · simp only [runAll, hrun] at h
    exact ⟨v₁, s₁, rfl, h⟩

theorem runAll_vars {calls : List Call} (h : runAll v s calls = some (v', s')) :
    v.session.frame.env.directory.vars ⊆ v'.session.frame.env.directory.vars := by
  induction calls generalizing v s with
  | nil =>
    cases h
    exact subset_rfl
  | cons c calls ih =>
    obtain ⟨v₁, s₁, hrun, hrest⟩ := runAll_cons h
    exact (run_vars hrun).trans (ih hrest)

theorem InStep.runAll {P : Set (String × String)} {calls : List Call} (h : InStep inputs P v s)
    (hinputs : Digest.Apart inputs) (hfits : Along (fun v s c => c.Fits inputs v s) v s calls)
    (hslash : ∀ q ∈ v'.session.frame.env.directory.vars, '/' ∉ q.1.toList)
    (hrun : runAll v s calls = some (v', s')) :
    InStep inputs P v' s' ∧ s'.engine.env.directory.vars = s.engine.env.directory.vars ∪
      definitions ((handedAll v s calls).flatMap (·.forms)) := by
  induction calls generalizing v s with
  | nil =>
    cases hrun
    refine ⟨h, ?_⟩
    rw [handedAll, List.flatMap_nil, Node.definitions_nil, Set.union_empty]
  | cons c calls ih =>
    obtain ⟨v₁, s₁, hfirst, hrest⟩ := runAll_cons hrun
    have hfits₁ := hfits.2
    rw [hfirst] at hfits₁
    obtain ⟨hstep, hvars⟩ :=
      h.run hinputs hfits.1 (fun q hq => hslash q (runAll_vars hrest hq)) hfirst
    obtain ⟨hlast, hvars'⟩ := ih hstep hfits₁ hrest
    refine ⟨hlast, ?_⟩
    rw [hvars', hvars, handedAll, hfirst, List.flatMap_append, Node.definitions_append, Set.union_assoc]

end Evaluator

/-! ## A fresh Lisp -/

namespace Preamble

/-- The vars of the functions of a preamble. -/
def vars (p : Preamble) : Set (String × String) := {q | ∃ d ∈ p.functions, q = (d.ns, d.name)}

/-- They are all in the core namespace. -/
theorem fst_vars (p : Preamble) : Prod.fst '' p.vars ⊆ {Env.coreNs} := by
  rintro _ ⟨_, ⟨d, hd, rfl⟩, rfl⟩
  have hsound := Codegen.functions_sound hd d.node
    (by rw [Defn.node, Node.flatten]; exact List.mem_cons_self)
  exact hsound.1

/-- A preamble declares its vars. -/
theorem directory_declare {p : Preamble} {env env' : Env} (h : p.declare env = .ok env') :
    env'.directory = env.directory.declare p.vars := by
  obtain ⟨fns, hfns, h⟩ := Except.bind_eq_ok h
  cases h
  have hvars : p.vars = {q | ∃ d ∈ fns, q = (d.ns, d.name)} := by
    simp only [vars, functions, hfns]
  rw [hvars, declareAll]
  clear hfns hvars h
  induction fns generalizing env with
  | nil => simp
  | cons d fns ih =>
    rw [List.foldl_cons, ih, Env.directory_intern, Directory.declare_declare]
    congr 1
    ext q
    simp

end Preamble

namespace Lisp

variable {inputs : Set (List UInt8)} {config : Config} {files : FileTree} {now : Instant} {s : Lisp}

/-- The backends that are added are made with the preamble, and the cache stays. -/
theorem addBackends_eq_ok {preamble : Preamble} {depth : Int} {c c' : Compiler}
    {targets : List NamedTarget} (h : addBackends preamble depth c targets = .ok c')
    (hc : ∀ key b, c.backends.get? key = some b → b.Made ∧ b.preamble = preamble) :
    (∀ key b, c'.backends.get? key = some b → b.Made ∧ b.preamble = preamble) ∧ c'.cache = c.cache := by
  have hadd : ∀ {c : Compiler} {b : Backend},
      (∀ key b, c.backends.get? key = some b → b.Made ∧ b.preamble = preamble) →
      b.Made → b.preamble = preamble →
      ∀ key b', (c.addBackend b).backends.get? key = some b' → b'.Made ∧ b'.preamble = preamble := by
    intro c b hc hb hpreamble key b' hget
    rw [Compiler.addBackend, Table.get?_insert] at hget
    split at hget
    · cases hget
      exact ⟨hb, hpreamble⟩
    · exact hc key b' hget
  induction targets generalizing c with
  | nil =>
    rw [addBackends] at h
    cases h
    split
    · exact ⟨hc, rfl⟩
    · exact ⟨hadd hc (.inl ⟨preamble, depth, rfl⟩) rfl, rfl⟩
  | cons t rest ih =>
    unfold addBackends at h
    split at h
    · exact ih h hc
    · split at h
      · rename_i b hb
        obtain ⟨hmade, hcache⟩ :=
          ih h (hadd hc (Backend.made_ofTarget hb) (Backend.preamble_ofTarget hb))
        exact ⟨hmade, hcache⟩
      · cases h

/-- Libraries register what can be registered. -/
theorem proper_registerLibraries {catalog : Catalog} {r r' : Registry} {names : List String}
    (h : registerLibraries catalog r names = .ok r') (hr : r.Proper) : r'.Proper := by
  induction names generalizing r with
  | nil =>
    cases h
    exact hr
  | cons name names ih =>
    unfold registerLibraries at h
    split at h
    · cases h
    · rename_i lib hlib
      have hlibrary : (r.registerLibrary lib).1.Proper := hr.registerSymbols lib.name lib.symbols
      split at h
      · cases h
      · rename_i r₁ heq
        rw [heq] at hlibrary
        exact ih h hlibrary

/-- A Lisp that is new, and what its parts are. -/
theorem new_eq_ok (h : new config files now = .ok s) :
    ∃ (registry : Registry) (cache : Cache) (around : Surroundings),
      Cache.openIn s.config.cacheDir files now = .ok cache ∧
      (∀ key b, s.compiler.backends.get? key = some b → b.Made ∧ b.preamble = s.preamble) ∧
      s.compiler.cache = some cache ∧ registry.Proper ∧
      s.engine = { registry, catalog := some Catalog.standard, around } := by
  unfold new at h
  obtain ⟨config', -, h⟩ := Except.bind_eq_ok h
  obtain ⟨registry, hregistry, h⟩ := Except.bind_eq_ok h
  obtain ⟨cache, hcache, h⟩ := Except.bind_eq_ok h
  obtain ⟨preamble, -, h⟩ := Except.bind_eq_ok h
  obtain ⟨-, -, h⟩ := Except.bind_eq_ok h
  obtain ⟨compiler, hcompiler, h⟩ := Except.bind_eq_ok h
  cases h
  obtain ⟨hmade, hkept⟩ := addBackends_eq_ok hcompiler fun key b hb => nomatch hb
  exact ⟨registry, cache, _, hcache, hmade, hkept,
    proper_registerLibraries hregistry Registry.proper_empty, rfl⟩

end Lisp

namespace Evaluator

/-- A new evaluator has a new session, and is in the default namespace. -/
theorem new_eq_ok {s : Lisp} {target : Target} {v : Evaluator} (h : Evaluator.new s target = .ok v) :
    ∃ session, Session.new (some s.preamble) target = .ok session ∧
      v = { session, ns := Env.defaultNs } := by
  unfold Evaluator.new at h
  split at h
  · cases h
  · obtain ⟨session, hsession, h⟩ := Except.bind_eq_ok h
    cases h
    exact ⟨session, hsession, rfl⟩

/-- A new evaluator of a new Lisp is in step. -/
theorem inStep_new {inputs : Set (List UInt8)} {config : Config} {files : FileTree} {now : Instant}
    {s : Lisp} {target : Target} {v : Evaluator} (hs : Lisp.new config files now = .ok s)
    (hfiles : files.AllFiles (Cache.Stored inputs)) (hv : Evaluator.new s target = .ok v) :
    InStep inputs s.preamble.vars v s ∧ s.engine.env.directory.vars = ∅ := by
  obtain ⟨registry, cache, around, hcache, hmade, hkept, -, hengine⟩ := Lisp.new_eq_ok hs
  obtain ⟨session, hsession, rfl⟩ := new_eq_ok hv
  obtain ⟨env, henv, hsession⟩ := Except.bind_eq_ok hsession
  cases hsession
  have hdeclared := Preamble.directory_declare henv
  have huser : Env.defaultNs ∈ Env.initial.directory.namespaces := by
    rw [Env.directory_initial]
    exact .inr rfl
  obtain ⟨config, preamble, compiler, engine⟩ := s
  obtain rfl : engine = _ := hengine
  refine ⟨⟨⟨rfl, ?_, huser, ?_⟩, ⟨?_, ?_⟩, fun key b hb => (hmade key b hb).1, ?_, nofun,
    fun _ h => absurd rfl h⟩, ?_⟩
  · show (env.ensure Env.defaultNs).directory = _
    rw [Env.directory_ensure, hdeclared, Directory.ensure_declare, Directory.ensure_of_mem huser]
  · refine preamble.fst_vars.trans ?_
    show _ ⊆ Env.initial.directory.namespaces
    rw [Env.directory_initial]
    exact fun x hx => .inl hx
  · intro i inst hi
    simp at hi
  · intro i handle label t hi
    simp at hi
  · rintro _ hsome
    obtain rfl := Option.some.inj (hkept.symm.trans hsome)
    exact Cache.openIn_allFiles hfiles hcache
  · exact congrArg Directory.vars Env.directory_initial

/-- The compile side and the execution side stay aligned. Whatever an evaluator of a new Lisp is asked
to evaluate and to require, if all of it succeeds and defines vars only in namespaces without a slash in
their names: the session and the frame of the engine are in the same namespace, and their
environments have the same namespaces, aliases and refers. The engine has interned the vars that the
compiled units define, and the session these and those of the preamble. -/
theorem aligned_after_calls {inputs : Set (List UInt8)} {config : Config} {files : FileTree}
    {now : Instant} {s s' : Lisp} {target : Target} {v v' : Evaluator} {calls : List Call}
    (hs : Lisp.new config files now = .ok s) (hfiles : files.AllFiles (Cache.Stored inputs))
    (hinputs : Digest.Apart inputs) (hv : Evaluator.new s target = .ok v)
    (hfits : Along (fun v s c => c.Fits inputs v s) v s calls)
    (hrun : runAll v s calls = some (v', s'))
    (hslash : ∀ q ∈ v'.session.frame.env.directory.vars, '/' ∉ q.1.toList) :
    let compiled := v'.session.frame.env.directory
    let executed := s'.engine.env.directory
    v'.session.ns = v'.ns ∧ compiled.namespaces = executed.namespaces ∧
      compiled.aliases = executed.aliases ∧ compiled.refers = executed.refers ∧
      executed.vars = definitions ((handedAll v s calls).flatMap (·.forms)) ∧
      compiled.vars = executed.vars ∪ s.preamble.vars := by
  obtain ⟨hstart, hempty⟩ := inStep_new hs hfiles hv
  obtain ⟨hstep, hvars⟩ := hstart.runAll hinputs hfits hslash hrun
  have hdirectory := hstep.aligned.directory
  intro compiled executed
  refine ⟨hstep.aligned.current, ?_, ?_, ?_, ?_, ?_⟩
  · exact (congrArg Directory.namespaces hdirectory).trans
      (Set.union_eq_self_of_subset_right hstep.aligned.core)
  · exact (congrArg Directory.aliases hdirectory :)
  · exact (congrArg Directory.refers hdirectory :)
  · rw [hempty, Set.empty_union] at hvars
    exact hvars
  · exact congrArg Directory.vars hdirectory

end Evaluator

/-! ## A definition is evaluated

Whether a cache holds the artifact of a unit makes no difference to an evaluation, so it can be followed
in a Lisp without one. -/

/-- A session compiles the same and becomes the same whatever is in the caches. -/
theorem Session.compile_agree {inputs : Set (List UInt8)} {c c' : Compiler}
    (hinputs : Digest.Apart inputs) (hagree : Compiler.Agree inputs c c') {x : Session} {module src : String}
    (hhanded : ∀ u ∈ x.handed c (.compile module src), c.hashed u ⊆ inputs) :
    (x.compile c module src).1 = (x.compile c' module src).1 ∧
      Result.Rel (fun m m' => m.artifact.Same m'.artifact ∧ m.module = m'.module)
        (x.compile c module src).2.2 (x.compile c' module src).2.2 := by
  unfold Session.handed at hhanded
  unfold Session.compile
  cases hread : Form.readAll src with
  | error failure => exact ⟨rfl, rfl⟩
  | ok forms =>
    simp only [hread] at hhanded
    dsimp only
    generalize Session.extend _ _ forms = extended at hhanded ⊢
    obtain ⟨frame, failure | u⟩ := extended
    · exact ⟨rfl, rfl⟩
    · have hsame := (hagree.compile_same hinputs (hhanded u List.mem_cons_self)).2
      dsimp only
      generalize c.compile u = left at hsame ⊢
      generalize c'.compile u = right at hsame ⊢
      obtain ⟨compiler, failure | art⟩ := left
      · obtain ⟨compiler', failure' | art'⟩ := right
        · exact ⟨rfl, hsame⟩
        · exact hsame.elim
      · obtain ⟨compiler', failure' | art'⟩ := right
        · exact hsame.elim
        · exact ⟨rfl, hsame, rfl⟩

namespace Evaluator

variable {inputs : Set (List UInt8)} {v : Evaluator} {s s' : Lisp} {src : String}

/-- An evaluation gives the same whatever is in the caches. -/
theorem eval_agree (v : Evaluator) (src : String) (hinputs : Digest.Apart inputs)
    (hagree : Compiler.Agree inputs s.compiler s'.compiler) (hengine : s.engine = s'.engine)
    (hhanded : ∀ u ∈ (Call.eval src).handed v s, s.compiler.hashed u ⊆ inputs) :
    (v.eval s src).1 = (v.eval s' src).1 ∧ (v.eval s src).2.2 = (v.eval s' src).2.2 := by
  obtain ⟨hsession, hcompiled⟩ := Session.compile_agree hinputs hagree hhanded
  unfold eval
  unfold moduleName at hsession hcompiled
  dsimp only
  generalize Session.compile _ s.compiler _ src = left at hsession hcompiled ⊢
  generalize Session.compile _ s'.compiler _ src = right at hsession hcompiled ⊢
  obtain ⟨session, compiler, failure | m⟩ := left
  · obtain ⟨session', compiler', failure' | m'⟩ := right
    · cases (show failure = failure' from hcompiled)
      exact ⟨by rw [show session = session' from hsession], rfl⟩
    · exact hcompiled.elim
  · obtain ⟨session', compiler', failure' | m'⟩ := right
    · exact hcompiled.elim
    · obtain rfl : session = session' := hsession
      obtain ⟨hsame, hmodule⟩ : m.artifact.Same m'.artifact ∧ m.module = m'.module := hcompiled
      dsimp only
      rw [hengine, hsame.load_eq, hmodule]
      exact ⟨rfl, rfl⟩

theorem loadsOf_singleton (e : Engine) (ns : String) (m : Compiled) : loadsOf e ns [m] = [(e, m)] := by
  unfold loadsOf
  split <;> rfl

/-- So an evaluation loads what is small if it does without what is in the caches. -/
theorem loads_small (hinputs : Digest.Apart inputs)
    (hagree : Compiler.Agree inputs s.compiler s'.compiler) (hengine : s.engine = s'.engine)
    (hhanded : ∀ u ∈ (Call.eval src).handed v s, s.compiler.hashed u ⊆ inputs)
    (h : ∀ l ∈ (Call.eval src).loads v s', l.1.TakesSmall l.2) :
    ∀ l ∈ (Call.eval src).loads v s, l.1.TakesSmall l.2 := by
  have hcompiled := (Session.compile_agree hinputs hagree hhanded).2
  unfold Call.loads Call.request Session.handle at h ⊢
  dsimp only at h ⊢
  generalize Session.compile _ s.compiler _ src = left at hcompiled ⊢
  generalize Session.compile _ s'.compiler _ src = right at hcompiled h
  obtain ⟨session, compiler, failure | m⟩ := left
  · exact List.forall_mem_nil _
  · obtain ⟨session', compiler', failure' | m'⟩ := right
    · exact hcompiled.elim
    · obtain ⟨hsame, hmodule⟩ : m.artifact.Same m'.artifact ∧ m.module = m'.module := hcompiled
      simp only [loadsOf_singleton, List.forall_mem_singleton] at h ⊢
      refine ⟨hsame.bytes ▸ h.1, ?_⟩
      rw [hengine, hsame.begin_eq, hmodule]
      exact hsame.rewritesSmall _ _ h.2

/-- A Lisp with a preamble of its own, and the same without a cache. -/
def smallConfig : Config := { cacheDir := "c", libraries := [], preamble := "p" }

def smallPreamble : Preamble := ⟨"(defn one [] 1)"⟩

def smallFiles : FileTree := { entries := [(["p"], .file smallPreamble.source.toUTF8.toList)] }

def smallLisp : Lisp :=
  { config := smallConfig, preamble := smallPreamble
    compiler := ({} : Compiler).addBackend (.host smallPreamble 4096)
    engine := { catalog := some Catalog.standard } }

theorem new_smallConfig :
    ∃ cache, Lisp.new smallConfig smallFiles ⟨0⟩ =
      .ok { smallLisp with compiler := { smallLisp.compiler with cache := some cache } } := by
  have hroot : ({ dir := "c", files := smallFiles, clock := ⟨0⟩ } : Cache).root = ["c", "v1"] := by
    show Path.join ["c", "v1"] = _
    cbv
  have hvalid : smallConfig.validate = .ok smallConfig := rfl
  obtain ⟨files, hfiles, hread⟩ : ∃ files, smallFiles.makeDirs? ["c", "v1"] = some files ∧
      (files.read ["p"]).toOption = some smallPreamble.source.toUTF8.toList := by
    have hmade : (smallFiles.makeDirs? ["c", "v1"]).bind (fun files => (files.read ["p"]).toOption) =
        some smallPreamble.source.toUTF8.toList := rfl
    exact Option.bind_eq_some_iff.mp hmade
  have hopened : Cache.openIn smallConfig.cacheDir smallFiles ⟨0⟩ = .ok { dir := "c", files } := by
    have hmade : smallFiles.makeDirs? ({ dir := "c", files := smallFiles, clock := ⟨0⟩ } : Cache).root =
        some files := (congrArg smallFiles.makeDirs? hroot).trans hfiles
    unfold Cache.openIn
    dsimp only
    split
    · rename_i made heq
      cases heq.symm.trans hmade
      rfl
    · rename_i heq
      cases heq.symm.trans hmade
  have hpath : Path.join [smallConfig.preamble] = ["p"] := by
    show Path.join ["p"] = _
    cbv
  have hpreamble : Lisp.preambleOf smallConfig files = .ok smallPreamble := by
    have htext : Text.ofBytes smallPreamble.source.toUTF8.toList = smallPreamble.source := by
      decide +kernel
    unfold Lisp.preambleOf
    rw [if_neg (by decide), hpath]
    cases hr : files.read ["p"] with
    | error fault =>
      rw [hr] at hread
      cases hread
    | ok bytes =>
      rw [hr] at hread
      cases hread
      exact congrArg (fun source => Except.ok (Preamble.mk source)) htext
  obtain ⟨fns, hfns⟩ : ∃ fns, smallPreamble.load = .ok fns := by
    have hok : smallPreamble.load.isOk = true := by decide +kernel
    cases hload : smallPreamble.load with
    | error failure =>
      rw [hload] at hok
      cases hok
    | ok fns => exact ⟨fns, rfl⟩
  refine ⟨{ dir := "c", files }, ?_⟩
  have hbackends : ∀ cache : Cache,
      Lisp.addBackends smallPreamble smallConfig.maxDepth { cache := some cache } smallConfig.targets =
        .ok { smallLisp.compiler with cache := some cache } := by
    intro cache
    have hspec : ({ name := "host", arch := "native" } : NamedTarget).spec = .host := by
      simp [NamedTarget.spec, Target.normalize, Target.host, Target.hostArch, sortTexts, dropRepeats]
    have hlocal : Target.host.isLocal = true := by rw [Target.isLocal, Target.normalize_host]; rfl
    show Lisp.addBackends smallPreamble 4096 _ [{ name := "host", arch := "native" }] = _
    have hnone : ({ cache := some cache } : Compiler).backend? .host = none := rfl
    rw [Lisp.addBackends, hspec, hnone, Backend.ofTarget, hlocal]
    exact congrArg Except.ok (if_pos (by rw [Compiler.backend?_addBackend_host]; rfl))
  simp only [Lisp.new, hvalid, hopened, hpreamble, hfns, hbackends, bind, Except.bind, pure,
    Except.pure, Except.mapError]
  rfl

/-- A user of it. -/
def smallEvaluator : Evaluator := (Evaluator.new smallLisp .host).toOption.getD default

theorem new_smallEvaluator : Evaluator.new smallLisp .host = .ok smallEvaluator := by
  have hok : (Evaluator.new smallLisp .host).isOk = true := by decide +kernel
  unfold smallEvaluator
  cases h : Evaluator.new smallLisp .host with
  | error failure =>
    rw [h] at hok
    cases hok
  | ok v => rfl

/-- What it is asked for. -/
def smallCall : Call := .eval "(def x 1)"

/-- What is hashed for the call. -/
def smallInputs : List (List UInt8) :=
  (smallCall.handed smallEvaluator smallLisp).flatMap fun u =>
    [u.outline.encode, (u.hash ++ "\x00" ++ (Backend.host smallPreamble 4096).fingerprint).toUTF8.toList,
      smallPreamble.source.toUTF8.toList]

/-- That is what its compiler hashes for a unit. -/
theorem hashed_smallLisp {u : CompUnit} (hu : u.target = .host) {xs : List UInt8}
    (hxs : xs ∈ smallLisp.compiler.hashed u) :
    xs ∈ [u.outline.encode,
      (u.hash ++ "\x00" ++ (Backend.host smallPreamble 4096).fingerprint).toUTF8.toList,
      smallPreamble.source.toUTF8.toList] := by
  have hsome : smallLisp.compiler.backend? u.target.normalize = some (.host smallPreamble 4096) := by
    rw [hu, Target.normalize_host]
    exact Compiler.backend?_addBackend_host _ _ _
  rw [Compiler.hashed, hsome] at hxs
  simpa [Backend.hashed, show (Backend.host smallPreamble 4096).preamble = smallPreamble from rfl] using hxs

/-- The evaluation without a cache succeeds, and what it loads is small. -/
theorem eval_smallLisp : (∃ v' s' value,
      smallEvaluator.eval smallLisp "(def x 1)" = (v', s', .ok value) ∧
        ∀ q ∈ v'.session.frame.env.directory.vars, '/' ∉ q.1.toList) ∧
    ∀ l ∈ smallCall.loads smallEvaluator smallLisp, l.1.TakesSmall l.2 := by
  obtain ⟨hok, hnames, hsmall⟩ : (smallEvaluator.eval smallLisp "(def x 1)").2.2.isOk = true ∧
      (smallEvaluator.eval smallLisp "(def x 1)").1.session.frame.env.namespaces.keys.all
        (fun ns => !ns.toList.contains '/') = true ∧
      ∀ l ∈ smallCall.loads smallEvaluator smallLisp, l.1.TakesSmall l.2 := by
    decide +kernel
  refine ⟨?_, hsmall⟩
  rcases heval : smallEvaluator.eval smallLisp "(def x 1)" with ⟨v', s', failure | value⟩
  · rw [heval] at hok
    cases hok
  · rw [heval] at hnames
    refine ⟨v', s', value, rfl, fun q hq => ?_⟩
    obtain ⟨n, hn⟩ := Option.isSome_iff_exists.mp (Env.fst_mem_namespaces hq)
    have hkey : q.1 ∈ v'.session.frame.env.namespaces.keys :=
      List.mem_map_of_mem (f := (·.1)) (Table.mem_of_get? hn)
    simpa using List.all_eq_true.mp hnames q.1 hkey

/-- A Lisp with a cache evaluates a definition. -/
theorem aligned_after_calls_def :
    ∃ (s s' : Lisp) (v v' : Evaluator), Lisp.new smallConfig smallFiles ⟨0⟩ = .ok s ∧
      Evaluator.new s .host = .ok v ∧ runAll v s [smallCall] = some (v', s') ∧
      v'.session.frame.env.directory.vars = s'.engine.env.directory.vars ∪ s.preamble.vars := by
  obtain ⟨cache, hs⟩ := new_smallConfig
  let s : Lisp := { smallLisp with compiler := { smallLisp.compiler with cache := some cache } }
  obtain ⟨htargets, hnodup⟩ : (smallCall.handed smallEvaluator smallLisp).all (·.target = .host) = true ∧
      (smallInputs.dedup.map Digest.sum64).Nodup := by
    decide +kernel
  have hinputs : Digest.Apart {xs | xs ∈ smallInputs.dedup} := Digest.apart_of_nodup hnodup
  have hhashed : ∀ u ∈ smallCall.handed smallEvaluator s,
      s.compiler.hashed u ⊆ {xs | xs ∈ smallInputs.dedup} := by
    intro u hu xs hxs
    have htarget : u.target = .host := by simpa using List.all_eq_true.mp htargets u hu
    exact List.mem_dedup.mpr (List.mem_flatMap.mpr ⟨u, hu, hashed_smallLisp htarget hxs⟩)
  have hfiles : smallFiles.AllFiles (Cache.Stored {xs | xs ∈ smallInputs.dedup}) := by
    intro above name bytes hmem key hname
    have hlast : name = "p" := by
      have hpath : above ++ [name] = ["p"] := congrArg Prod.fst (List.mem_singleton.mp hmem)
      simpa using congrArg List.getLast? hpath
    have hlength := congrArg String.length (hlast.symm.trans hname)
    rw [String.length_append] at hlength
    have hext : Cache.artifactExt.length = 8 := rfl
    have hone : "p".length = 1 := rfl
    omega
  obtain ⟨registry, _, around, hcache, hmade, hkept, -⟩ := Lisp.new_eq_ok hs
  have hhonest : s.compiler.Honest {xs | xs ∈ smallInputs.dedup} := by
    rintro _ hsome
    obtain rfl := Option.some.inj (hkept.symm.trans hsome)
    exact Cache.openIn_allFiles hfiles hcache
  have hagree : Compiler.Agree {xs | xs ∈ smallInputs.dedup} s.compiler smallLisp.compiler :=
    ⟨rfl, fun key b hb => (hmade key b hb).1, hhonest, by rintro _ ⟨⟩⟩
  obtain ⟨⟨v₁, s₁, value, heval, hslash⟩, hsmall'⟩ := eval_smallLisp
  obtain ⟨hsame, hresult⟩ := eval_agree smallEvaluator "(def x 1)" hinputs hagree rfl hhashed
  rw [heval] at hsame hresult
  obtain ⟨s', hrun⟩ : ∃ s', smallEvaluator.eval s "(def x 1)" = (v₁, s', .ok value) :=
    ⟨(smallEvaluator.eval s "(def x 1)").2.1, Prod.ext hsame (Prod.ext (by rfl) hresult)⟩
  have hall : runAll smallEvaluator s [smallCall] = some (v₁, s') := by
    simp only [runAll, smallCall, Call.run, hrun, Except.map]
  have hsmall : ∀ l ∈ smallCall.loads smallEvaluator s, l.1.TakesSmall l.2 :=
    loads_small hinputs hagree rfl hhashed hsmall'
  have hfits : Along (fun v s c => c.Fits {xs | xs ∈ smallInputs.dedup} v s) smallEvaluator s
      [smallCall] := ⟨⟨hhashed, hsmall⟩, trivial⟩
  have haligned := aligned_after_calls hs hfiles hinputs (new_smallEvaluator : Evaluator.new s .host = _)
    hfits hall hslash
  exact ⟨s, s', smallEvaluator, v₁, hs, new_smallEvaluator, hall, haligned.2.2.2.2.2⟩

end Evaluator

end WasmLisp
