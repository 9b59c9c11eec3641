import Mathlib
import WasmLisp.Proofs.Analysis
import WasmLisp.Proofs.Env

/-!
# What analysis does to frames

* `Frame.Congruence`: relations of frames that declarations and effects keep, and under which
  symbols stand for equal vars. Frames that are alike are so related (`Frame.congruence_alike`), and
  every invariant of declarations and effects is such a relation (`Frame.congruence_of_invariant`);
* `Analysis.form_agrees`: in related frames forms give equal nodes and leave related frames, by one
  induction for all such relations;
* `EnvForm.replay_congr`: so it is for environment forms.
-/

namespace WasmLisp

namespace Frame

variable {f f' : Frame}

/-- Declares a var in the current namespace. -/
def declare (f : Frame) (name : String) (kind : VarKind) (arity : Int) : Frame :=
  { f with env := (f.env.intern f.ns name kind arity).1 }

/-- Frames in which the same happens: symbols of the current namespace stand for equal vars,
namespaces have vars of the same names, effects are refused for the same reasons, and what is
declared and carried out leads to frames that are related again. -/
structure Congruence (R : Frame → Frame → Prop) : Prop where
  ns : ∀ {f f'}, R f f' → f.ns = f'.ns
  resolved : ∀ {f f'}, R f f' → ∀ text, f.env.resolved? f.ns text = f'.env.resolved? f'.ns text
  varNames : ∀ {f f'}, R f f' → ∀ ns,
    (f.env.find? ns).map (·.vars.keys) = (f'.env.find? ns).map (·.vars.keys)
  declare : ∀ {f f'}, R f f' → ∀ name kind arity,
    R (f.declare name kind arity) (f'.declare name kind arity)
  applyOne : ∀ {f f'}, R f f' → ∀ e,
    (f.applyOne e).2 = (f'.applyOne e).2 ∧ R (f.applyOne e).1 (f'.applyOne e).1

/-- What declarations and effects keep true is a relation of frames to themselves. -/
theorem congruence_of_invariant {I : Frame → Prop}
    (hdeclare : ∀ f, I f → ∀ name kind arity, I (f.declare name kind arity))
    (happly : ∀ f, I f → ∀ e, I (f.applyOne e).1) : Congruence fun f f' => f' = f ∧ I f where
  ns := by
    rintro f _ ⟨rfl, -⟩
    rfl
  resolved := by
    rintro f _ ⟨rfl, -⟩ text
    rfl
  varNames := by
    rintro f _ ⟨rfl, -⟩ ns
    rfl
  declare := by
    rintro f _ ⟨rfl, hf⟩ name kind arity
    exact ⟨rfl, hdeclare _ hf name kind arity⟩
  applyOne := by
    rintro f _ ⟨rfl, hf⟩ e
    exact ⟨rfl, rfl, happly _ hf e⟩

/-! ## Sound frames -/

/-- Every name stands for a var of its own, and the current namespace is there. -/
structure Sound (f : Frame) : Prop where
  tidy : f.env.Tidy
  here : (f.env.find? f.ns).isSome

end Frame

namespace Env

variable {e : Env} {ns : String}

/-- Namespaces stay where they are. -/
theorem find?_isSome_update (h : (e.find? ns).isSome) (ns' : String) (f : Namespace → Namespace) :
    ((e.update ns' f).find? ns).isSome := by
  rw [find?_update]
  split
  · rfl
  · exact h

theorem find?_isSome_ensure (h : (e.find? ns).isSome) (ns' : String) :
    ((e.ensure ns').find? ns).isSome := by
  rw [find?_ensure]
  exact find?_isSome_update h ns' id

theorem find?_isSome_ensure_self (e : Env) (ns : String) : ((e.ensure ns).find? ns).isSome := by
  rw [find?_ensure, find?_update, if_pos rfl]
  rfl

theorem find?_isSome_intern (h : (e.find? ns).isSome) (ns' name : String) (kind : VarKind)
    (arity : Int) : ((e.intern ns' name kind arity).1.find? ns).isSome := by
  obtain ⟨id, -, heq⟩ | ⟨-, heq⟩ := intern_cases e ns' name kind arity
  · rw [heq]
    exact h
  · rw [heq]
    exact find?_isSome_update h ns' fun n =>
      { n with vars := n.vars.insert name e.cells.size }

theorem find?_isSome_addAlias (h : (e.find? ns).isSome) (ns' nickname target : String) :
    ((e.addAlias ns' nickname target).1.find? ns).isSome := by
  unfold addAlias
  split
  · split <;> exact h
  · exact find?_isSome_update h ns' _

end Env

namespace Frame

variable {f f' : Frame}

/-- What an effect can do, to whatever frame. -/
theorem applyOne_cases (e : Effect) :
    (∀ f : Frame, f.applyOne e = (enter f.env e.ns, none)) ∨
    (∀ f : Frame, f.applyOne e = ({ f with env := f.env.ensure e.ns }, none)) ∨
    (∀ f : Frame, f.applyOne e =
      let r := ((f.env.ensure e.target).ensure e.ns).addAlias e.ns e.name e.target
      ({ f with env := r.1 }, r.2)) ∨
    (∀ f : Frame, f.applyOne e = ({ f with env := f.env.addRefer e.ns e.name e.target }, none)) ∨
    ∀ f : Frame, f.applyOne e = (f, some (.unknownEffect e.kind.code)) := by
  by_cases hswitch : e.kind = .switchNs
  · exact .inl fun f => if_pos hswitch
  by_cases hrequire : e.kind = .require
  · exact .inr (.inl fun f => (if_neg hswitch).trans (if_pos hrequire))
  by_cases hnickname : e.kind = .nickname
  · refine .inr (.inr (.inl fun f => ?_))
    simp only [Frame.applyOne, if_neg hswitch, if_neg hrequire, if_pos hnickname]
  by_cases hrefer : e.kind = .refer
  · refine .inr (.inr (.inr (.inl fun f => ?_)))
    simp only [Frame.applyOne, if_neg hswitch, if_neg hrequire, if_neg hnickname, if_pos hrefer]
  · refine .inr (.inr (.inr (.inr fun f => ?_)))
    simp only [Frame.applyOne, if_neg hswitch, if_neg hrequire, if_neg hnickname, if_neg hrefer]

theorem Sound.declare (h : f.Sound) (name : String) (kind : VarKind) (arity : Int) :
    (f.declare name kind arity).Sound :=
  ⟨h.tidy.intern f.ns name kind arity, Env.find?_isSome_intern h.here f.ns name kind arity⟩

theorem sound_enter {e : Env} (h : e.Tidy) (ns : String) : (enter e ns).Sound :=
  ⟨h.ensure ns, Env.find?_isSome_ensure_self e ns⟩

theorem Sound.applyOne (h : f.Sound) (e : Effect) : (f.applyOne e).1.Sound := by
  rcases applyOne_cases e with heq | heq | heq | heq | heq
  all_goals rw [heq]
  · exact sound_enter h.tidy e.ns
  · exact ⟨h.tidy.ensure e.ns, Env.find?_isSome_ensure h.here e.ns⟩
  · refine ⟨((h.tidy.ensure e.target).ensure e.ns).addAlias e.ns e.name e.target, ?_⟩
    have hhere := Env.find?_isSome_ensure (Env.find?_isSome_ensure h.here e.target) e.ns
    exact Env.find?_isSome_addAlias hhere e.ns e.name e.target
  · exact ⟨h.tidy.addRefer e.ns e.name e.target, Env.find?_isSome_update h.here e.ns _⟩
  · exact h

/-- Effects leave all cells as they are. -/
theorem cells_applyOne (f : Frame) (e : Effect) : (f.applyOne e).1.env.cells = f.env.cells := by
  rcases applyOne_cases e with heq | heq | heq | heq | heq
  all_goals simp [heq, enter]

/-- To be sound and to have given up no cell of an environment is an invariant. -/
theorem congruence_grown (e₀ : Env) :
    Congruence fun f f' => f' = f ∧ f.Sound ∧ e₀.Grown f.env := by
  apply congruence_of_invariant
  · rintro f ⟨hsound, hgrown⟩ name kind arity
    exact ⟨hsound.declare name kind arity, hgrown.intern f.ns name kind arity⟩
  · rintro f ⟨hsound, hgrown⟩ e
    exact ⟨hsound.applyOne e, hgrown.of_cells (cells_applyOne f e)⟩

/-! ## Frames that are alike -/

/-- Sound frames in the same namespace, in which names stand for equal vars. -/
structure Alike (f f' : Frame) : Prop where
  ns : f.ns = f'.ns
  env : f.env.Alike f'.env
  left : f.Sound
  right : f'.Sound

theorem Alike.declare (h : f.Alike f') (name : String) (kind : VarKind) (arity : Int) :
    (f.declare name kind arity).Alike (f'.declare name kind arity) := by
  refine ⟨h.ns, ?_, h.left.declare name kind arity, h.right.declare name kind arity⟩
  unfold Frame.declare
  rw [h.ns]
  exact h.env.intern h.left.tidy h.right.tidy f'.ns name kind arity

theorem Alike.applyOne (h : f.Alike f') (e : Effect) :
    (f.applyOne e).2 = (f'.applyOne e).2 ∧ (f.applyOne e).1.Alike (f'.applyOne e).1 := by
  have hleft := h.left.applyOne e
  have hright := h.right.applyOne e
  rcases applyOne_cases e with heq | heq | heq | heq | heq
  all_goals rw [heq] at hleft hright ⊢
  all_goals rw [heq]
  · exact ⟨rfl, rfl, h.env.ensure e.ns, hleft, hright⟩
  · exact ⟨rfl, h.ns, h.env.ensure e.ns, hleft, hright⟩
  · obtain ⟨hfault, halike⟩ := ((h.env.ensure e.target).ensure e.ns).addAlias e.ns e.name e.target
    exact ⟨hfault, h.ns, halike, hleft, hright⟩
  · exact ⟨rfl, h.ns, h.env.addRefer e.ns e.name e.target, hleft, hright⟩
  · exact ⟨rfl, h⟩

/-- The second frame is in the same namespace, and names stand for the same vars. -/
structure Intact (f f' : Frame) : Prop where
  ns : f'.ns = f.ns
  env : f.env.Intact f'.env

theorem Intact.alike (h : f.Intact f') (hf : f.Sound) : f'.Alike f := by
  refine ⟨h.ns, h.env.alike, ⟨h.env.tidy hf.tidy, ?_⟩, hf⟩
  have hfind : f'.env.find? f'.ns = f.env.find? f.ns := by
    rw [h.ns, Env.find?, Env.find?, h.env.namespaces]
  rw [hfind]
  exact hf.here

theorem congruence_alike : Congruence Alike where
  ns h := h.ns
  resolved h text := by
    rw [h.ns]
    exact h.env.resolved? h.left.tidy h.right.tidy _ text
  varNames h := h.env.varNames
  declare h := h.declare
  applyOne h := h.applyOne

end Frame

/-! ## Analysis in related frames -/

namespace Analysis

variable {α β : Type} {R : Frame → Frame → Prop} {ns : String}

/-- In related frames the step gives the same and leaves related frames. -/
def Agrees (R : Frame → Frame → Prop) (ns : String) (x : Run α) : Prop :=
  ∀ e e' : Env, R ⟨e, ns⟩ ⟨e', ns⟩ →
    (x.run.run e).1 = (x.run.run e').1 ∧ R ⟨(x.run.run e).2, ns⟩ ⟨(x.run.run e').2, ns⟩

theorem Agrees.pure (a : α) : Agrees R ns (Pure.pure a : Run α) := fun _ _ h => ⟨rfl, h⟩

theorem Agrees.refuse (line : Nat) (reason : Reason) :
    Agrees R ns (Analysis.refuse line reason : Run α) := fun _ _ h => ⟨rfl, h⟩

/-- Nothing comes after a fault. -/
theorem Agrees.refused (line : Nat) (reason : Reason) {f : α → Run β} :
    Agrees R ns (Analysis.refuse line reason >>= f) := fun _ _ h => ⟨rfl, h⟩

theorem Agrees.bind {x : Run α} {f : α → Run β} (hx : Agrees R ns x)
    (hf : ∀ a, Agrees R ns (f a)) : Agrees R ns (x >>= f) := by
  intro e e' h
  obtain ⟨hfst, hsnd⟩ := hx e e' h
  rw [run_bind, run_bind]
  cases hr : x.run.run e with
  | mk r env =>
    cases hr' : x.run.run e' with
    | mk r' env' =>
      rw [hr, hr'] at hfst hsnd
      dsimp only at hfst hsnd
      subst hfst
      cases r with
      | error fault => exact ⟨rfl, hsnd⟩
      | ok a => exact hf a env env' hsnd

theorem run_resolve (ns : String) (s : Symbol) (line : Nat) (e : Env) :
    (resolve ns s line).run.run e = match e.resolved? ns s.text with
      | some v => (.ok v, e)
      | none => (.error ⟨line, .unresolved s.text ns⟩, e) := by
  have hrun : (resolve ns s line).run.run e = (match e.resolved? ns s.text with
      | some v => (Pure.pure v : Run Var)
      | none => Analysis.refuse line (.unresolved s.text ns)).run.run e := rfl
  rw [hrun]
  cases e.resolved? ns s.text <;> rfl

theorem resolve_agrees (hR : Frame.Congruence R) (s : Symbol) (line : Nat) :
    Agrees R ns (resolve ns s line) := by
  intro e e' h
  have hsame : e.resolved? ns s.text = e'.resolved? ns s.text := hR.resolved h s.text
  rw [run_resolve, run_resolve, hsame]
  cases e'.resolved? ns s.text <;> exact ⟨rfl, h⟩

theorem declare_agrees (hR : Frame.Congruence R) (name : String) (kind : VarKind) (arity : Nat) :
    Agrees R ns (declare ns name kind arity) :=
  fun _ _ h => ⟨rfl, hR.declare h name kind arity⟩

theorem symbol_agrees (hR : Frame.Congruence R) (scope : Scope) (s : Symbol) (line : Nat) :
    Agrees R ns (symbol ns scope s line) := by
  unfold symbol
  split
  · exact .pure _
  split
  · exact .pure _
  split
  · exact .pure _
  split
  · exact .pure _
  refine (resolve_agrees hR s line).bind fun v => ?_
  split
  · exact .refuse _ _
  · exact .pure _

theorem call_agrees (hR : Frame.Congruence R) (scope : Scope) (head : Symbol) (headLine line : Nat)
    (args : List Node) :
    Agrees R ns (call ns scope head headLine line args) := by
  unfold call
  split
  · exact .pure _
  split
  · exact .refuse _ _
  refine (resolve_agrees hR head headLine).bind fun v => ?_
  split
  · exact .refuse _ _
  split
  · exact .refuse _ _
  · exact .pure _

theorem params_agrees (line : Nat) (seen : List String) (items : List Form) :
    Agrees R ns (params line seen items) := by
  induction items generalizing seen with
  | nil => exact .pure _
  | cons item items ih =>
    cases item with
    | sym s l =>
      unfold params
      split
      · exact .refuse _ _
      split
      · exact .refuse _ _
      · exact (ih _).bind fun _ => .pure _
    | _ => exact .refuse _ _

theorem defName_agrees (line : Nat) (head : String) (args : List Form) :
    Agrees R ns (defName line head args) := by
  unfold defName
  split
  · exact .refuse _ _
  · split
    · exact .pure _
    · exact .refuse _ _
  · exact .refuse _ _

theorem defGlobal_agrees (line : Nat) (top : Bool) (args : List Form) :
    Agrees R ns (defGlobal line top args) := by
  unfold defGlobal
  dsimp only
  split
  · exact .refused _ _
  refine (defName_agrees line "defglobal" args).bind fun name => ?_
  split
  · exact .pure _
  · exact .pure _
  · exact .refuse _ _
  · exact .refuse _ _

mutual

/-- A form gives the same in related frames, and leaves frames that are related. -/
theorem form_agrees (hR : Frame.Congruence R) : ∀ (f : Form) (scope : Scope) (top : Bool),
    Agrees R ns (form ns scope top f)
  | .int v _, scope, top => by
    rw [form]
    exact .pure _
  | .sym s line, scope, top => by
    rw [form]
    exact symbol_agrees hR scope s line
  | .keyword name line, scope, top => by
    rw [form]
    exact .refuse _ _
  | .vector items line, scope, top => by
    rw [form]
    exact .refuse _ _
  | .list [] line, scope, top => by
    rw [form]
    exact .pure _
  | .list (.sym head headLine :: args) line, scope, top => by
    unfold form
    split
    · split
      · -- `def`
        dsimp only
        split
        · exact .refused _ _
        refine (defName_agrees line "def" _).bind fun name => ?_
        split
        · rename_i value
          refine (form_agrees hR value scope false).bind fun init => ?_
          exact (declare_agrees hR name .value 0).bind fun _ => .pure _
        · exact .refuse _ _
      · -- `defn`
        dsimp only
        split
        · exact .refused _ _
        refine (defName_agrees line "defn" _).bind fun name => ?_
        split
        · rename_i items vecLine forms
          refine (params_agrees vecLine [] items).bind fun ps => ?_
          refine (declare_agrees hR name .fn ps.length).bind fun _ => ?_
          exact (forms_agrees hR forms _ false).bind fun _ => .pure _
        · exact .refuse _ _
        · exact .refuse _ _
      · exact defGlobal_agrees line top _
      · exact .refuse _ _
      · -- `let` with a vector of bindings
        rename_i items vecLine forms _
        dsimp only
        split
        · exact .refused _ _
        refine (bindings_agrees hR items scope vecLine).bind fun r => ?_
        exact (forms_agrees hR forms r.2 false).bind fun _ => .pure _
      · exact .refuse _ _
      · -- `if`
        dsimp only
        split
        · exact .refused _ _
        refine (forms_agrees hR _ scope false).bind fun nodes => ?_
        split
        · exact .pure _
        · exact .pure _
        · exact .refuse _ _
      · -- `do`
        exact (forms_agrees hR _ scope top).bind fun _ => .pure _
      · -- `set!` of a symbol
        rename_i value _
        dsimp only
        split
        · exact .refused _ _
        exact (form_agrees hR value scope false).bind fun _ => .pure _
      · exact .refuse _ _
      · exact .refuse _ _
      · exact .refuse _ _
      · -- a primitive or a call
        dsimp only
        split
        · exact .refused _ _
        split
        · split
          · exact .refused _ _
          exact (forms_agrees hR _ scope false).bind fun _ => .pure _
        · exact (forms_agrees hR _ scope false).bind fun nodes =>
            call_agrees hR scope head headLine line nodes
    · exact (forms_agrees hR args scope false).bind fun nodes =>
        call_agrees hR scope head headLine line nodes
  | .list (.int v l :: args) line, scope, top => by
    rw [form]
    · exact .refuse _ _
    · simp
  | .list (.keyword v l :: args) line, scope, top => by
    rw [form]
    · exact .refuse _ _
    · simp
  | .list (.list v l :: args) line, scope, top => by
    rw [form]
    · exact .refuse _ _
    · simp
  | .list (.vector v l :: args) line, scope, top => by
    rw [form]
    · exact .refuse _ _
    · simp
termination_by f => sizeOf f

theorem forms_agrees (hR : Frame.Congruence R) : ∀ (fs : List Form) (scope : Scope) (top : Bool),
    Agrees R ns (forms' ns scope top fs)
  | [], scope, top => by
    rw [forms']
    exact .pure _
  | f :: fs, scope, top => by
    rw [forms']
    refine (form_agrees hR f scope top).bind fun n => ?_
    exact (forms_agrees hR fs scope top).bind fun _ => .pure _
termination_by fs => sizeOf fs

theorem bindings_agrees (hR : Frame.Congruence R) : ∀ (fs : List Form) (scope : Scope) (line : Nat),
    Agrees R ns (bindings ns scope line fs)
  | .sym s l :: value :: rest, scope, line => by
    rw [bindings]
    dsimp only
    split
    · exact .refused _ _
    refine (form_agrees hR value scope false).bind fun v => ?_
    exact (bindings_agrees hR rest (scope.push s.name) line).bind fun _ => .pure _
  | [], scope, line => by
    rw [bindings]
    exact .pure _
  | [f], scope, line => by
    rw [bindings]
    · exact .refuse _ _
    all_goals simp
  | .int _ _ :: _ :: _, scope, line | .keyword _ _ :: _ :: _, scope, line
  | .list _ _ :: _ :: _, scope, line | .vector _ _ :: _ :: _, scope, line => by
    rw [bindings]
    · exact .refuse _ _
    all_goals simp
termination_by fs => sizeOf fs

end

end Analysis

/-- A top-level form gives the same in related frames, and leaves frames that are related. -/
theorem analyze_congr {R : Frame → Frame → Prop} (hR : Frame.Congruence R) {f f' : Frame}
    (h : R f f') (form : Form) :
    (form.analyze f.env f.ns).2 = (form.analyze f'.env f'.ns).2 ∧
      R ⟨(form.analyze f.env f.ns).1, f.ns⟩ ⟨(form.analyze f'.env f'.ns).1, f'.ns⟩ := by
  have hns := hR.ns h
  obtain ⟨e, ns⟩ := f
  obtain ⟨e', ns'⟩ := f'
  dsimp only at hns
  subst hns
  obtain ⟨hresult, hframes⟩ := Analysis.form_agrees hR form {} true e e' h
  refine ⟨?_, hframes⟩
  exact congrArg (fun r => Except.mapError (fun e => Failure.semantic e.message) r) hresult

/-! ## Environment forms in related frames -/

namespace EnvForm

/-- The environment tells forms only which vars its namespaces have. -/
theorem referAll_congr {e e' : Env}
    (h : ∀ ns, (e.find? ns).map (·.vars.keys) = (e'.find? ns).map (·.vars.keys)) :
    referAll e = referAll e' := by
  funext current target skip
  have hns := h target
  unfold referAll
  cases hf : e.find? target with
  | none =>
    have hf' : e'.find? target = none := by simpa [hf, eq_comm] using hns
    simp [hf']
  | some n =>
    rw [hf] at hns
    obtain ⟨n', hf', hkeys⟩ := Option.map_eq_some_iff.mp hns.symm
    simp [hf', hkeys]

section

variable {e e' : Env} (h : referAll e = referAll e')
include h

theorem referNames_congr : referNames e = referNames e' := by
  funext current target f
  simp only [referNames, h]

theorem refer_congr : refer e = refer e' := by
  funext current target opts
  unfold refer
  simp only [referNames_congr h, h]

theorem options_congr (current lib : String) (opts : List Form) :
    options e current lib opts = options e' current lib opts := by
  fun_induction options e current lib opts with
  | case1 line value rest ih => simp only [options, ih]
  | case2 line value rest ih => simp only [options, ih, referNames_congr h]
  | case3 => simp_all [options]
  | case4 => simp_all [options]
  | case5 => rfl

theorem library_congr : library e = library e' := by
  funext current f
  unfold library
  simp only [options_congr h]

theorem effectsOf_congr : effectsOf e = effectsOf e' := by
  have hlibraries : libraries e = libraries e' := by
    funext current specs
    simp only [libraries, library_congr h]
  have hclause : clause e = clause e' := by
    funext current f
    unfold clause
    simp only [hlibraries, refer_congr h]
  funext current head args
  unfold effectsOf
  simp only [hclause, hlibraries, refer_congr h]

end

end EnvForm

variable {R : Frame → Frame → Prop} (hR : Frame.Congruence R)
include hR

theorem EnvForm.effects_congr {f f' : Frame} (h : R f f') (form : Form) :
    effects f form = effects f' form := by
  unfold effects
  rw [effectsOf_congr (referAll_congr (hR.varNames h)), hR.ns h]

/-- Effects are carried out alike up to the same one. -/
theorem Frame.apply_congr {f f' : Frame} (h : R f f') (es : List Effect) :
    (f.apply es).2 = (f'.apply es).2 ∧ R (f.apply es).1 (f'.apply es).1 := by
  induction es generalizing f f' with
  | nil => exact ⟨rfl, h⟩
  | cons e es ih =>
    obtain ⟨hfault, hframes⟩ := hR.applyOne h e
    cases hr : f.applyOne e with
    | mk g fault =>
      cases hr' : f'.applyOne e with
      | mk g' fault' =>
        rw [hr, hr'] at hfault hframes
        dsimp only at hfault hframes
        subst hfault
        cases fault with
        | none =>
          simp only [Frame.apply, hr, hr']
          exact ih hframes
        | some fault =>
          simp only [Frame.apply, hr, hr']
          exact ⟨trivial, hframes⟩

theorem EnvForm.replay_congr {f f' : Frame} (h : R f f') (form : Form) :
    (replay f form).2 = (replay f' form).2 ∧ R (replay f form).1 (replay f' form).1 := by
  unfold replay
  rw [effects_congr hR h]
  cases effects f' form with
  | error e => exact ⟨rfl, h⟩
  | ok es =>
    obtain ⟨hfault, hframes⟩ := Frame.apply_congr hR h es
    cases hr : f.apply es with
    | mk g fault =>
      cases hr' : f'.apply es with
      | mk g' fault' =>
        rw [hr, hr'] at hfault hframes
        dsimp only at hfault hframes
        subst hfault
        cases fault with
        | none =>
          simp only [hr, hr']
          exact ⟨trivial, hframes⟩
        | some fault =>
          simp only [hr, hr']
          exact ⟨trivial, hframes⟩

end WasmLisp
