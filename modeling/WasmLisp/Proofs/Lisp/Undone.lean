import Mathlib
import WasmLisp.Proofs.Lisp.Loading

/-!
# What stays declared after a load that fails

An evaluation declares vars and makes aliases while it is compiled. That is taken back if the source is not
compiled; if the module is compiled and cannot be loaded, the session stays as the compiled source left it.

* `Env.shape?`: kind and arity of a var; `Declaration.latest?`: those that declarations give it in the end;
* `Session.extend_shape`: the forms of a unit declare what its nodes define, and do nothing else to vars;
* `Evaluator.failed_load_stays_declared`: what a session has after an evaluation whose load fails, and when
  that is what it had before.
-/

namespace WasmLisp

open Evaluator (Call moduleName modulePrefix)
open Node (declarations definitions)

/-! ## Kinds and arities -/

/-- The kind and the arity that a var gets by declarations one after the other. -/
def Declaration.latest? (ds : List Declaration) (ns name : String) : Option (VarKind × Int) :=
  ((ds.filter (·.var = (ns, name))).getLast?).map fun d => (d.kind, d.arity)

theorem Declaration.latest?_append (ds ds' : List Declaration) (ns name : String) :
    latest? (ds ++ ds') ns name = (latest? ds' ns name).or (latest? ds ns name) := by
  simp only [latest?, List.filter_append, List.getLast?_append, Option.map_or]

theorem Declaration.latest?_isSome {ds : List Declaration} {d : Declaration} (h : d ∈ ds) :
    (latest? ds d.ns d.name).isSome := by
  have hmem : d ∈ ds.filter (·.var = (d.ns, d.name)) :=
    List.mem_filter.mpr ⟨h, decide_eq_true rfl⟩
  rw [latest?, Option.isSome_map, List.getLast?_isSome]
  exact List.ne_nil_of_mem hmem

theorem Declaration.exists_of_latest? {ds : List Declaration} {ns name : String} {shape : VarKind × Int}
    (h : latest? ds ns name = some shape) : ∃ d ∈ ds, ns = d.ns ∧ name = d.name := by
  obtain ⟨d, hd, -⟩ := Option.map_eq_some_iff.mp h
  obtain ⟨hmem, hvar⟩ := List.mem_filter.mp (List.mem_of_getLast? hd)
  obtain ⟨hns, hname⟩ := Prod.mk.inj (of_decide_eq_true hvar)
  exact ⟨d, hmem, hns.symm, hname.symm⟩

namespace Env

variable {e : Env}

/-- Kind and arity of the var that a name stands for. -/
def shape? (e : Env) (ns name : String) : Option (VarKind × Int) :=
  (e.named? ns name).map fun v => (v.kind, v.arity)

theorem Tidy.mem_vars_iff (h : e.Tidy) {ns name : String} :
    (ns, name) ∈ e.directory.vars ↔ (e.shape? ns name).isSome := by
  rw [shape?, Option.isSome_map, h.named?_isSome]
  rfl

theorem Tidy.shape?_intern (h : e.Tidy) (ns name : String) (kind : VarKind) (arity : Int)
    (ns' name' : String) :
    (e.intern ns name kind arity).1.shape? ns' name' =
      if ns' = ns ∧ name' = name then some (kind, arity) else e.shape? ns' name' := by
  rw [shape?, h.named?_intern]
  split <;> rfl

theorem Tidy.shape?_declared (h : e.Tidy) (ds : List Declaration) (ns name : String) :
    (e.declared ds).shape? ns name = (Declaration.latest? ds ns name).or (e.shape? ns name) := by
  induction ds generalizing e with
  | nil => rfl
  | cons d ds ih =>
    have hsplit : Declaration.latest? (d :: ds) ns name =
        (Declaration.latest? ds ns name).or (Declaration.latest? [d] ns name) :=
      Declaration.latest?_append [d] ds ns name
    have hstep : e.declared (d :: ds) = (e.intern d.ns d.name d.kind d.arity).1.declared ds := rfl
    rw [hstep, ih (h.intern d.ns d.name d.kind d.arity), h.shape?_intern, hsplit, Option.or_assoc]
    congr 1
    unfold Declaration.latest? Declaration.var
    by_cases hsame : ns = d.ns ∧ name = d.name
    · obtain ⟨rfl, rfl⟩ := hsame
      simp
    · have hne : ¬(d.ns = ns ∧ d.name = name) := fun heq => hsame ⟨heq.1.symm, heq.2.symm⟩
      simp [hsame, hne]

/-- Both have the same namespaces with their aliases and refers, and the same vars with their kinds and
arities. -/
structure SameDeclared (e e' : Env) : Prop where
  directory : e'.directory = e.directory
  shapes : ∀ ns name, e'.shape? ns name = e.shape? ns name

/-- What effects and declarations lead to is what there was before if and only if they bring nothing new. -/
theorem sameDeclared_iff {e' : Env} (he : e.Tidy) {es : List Effect} {ds : List Declaration}
    (hdirectory : e'.directory =
      (e.directory.effects es).declare {q | ∃ d ∈ ds, d.var = q})
    (hshapes : ∀ ns name, e'.shape? ns name =
      (Declaration.latest? ds ns name).or (e.shape? ns name)) :
    e.SameDeclared e' ↔ e.directory.effects es = e.directory ∧
      ∀ d ∈ ds, e.shape? d.ns d.name = Declaration.latest? ds d.ns d.name := by
  constructor
  · rintro ⟨hsame, hshape⟩
    rw [hdirectory] at hsame
    refine ⟨Directory.ext ?_ ?_ ?_ (Directory.vars_effects _ _), fun d hd => ?_⟩
    · have hsubset : (e.directory.effects es).namespaces ⊆ e.directory.namespaces := by
        rw [← congrArg Directory.namespaces hsame]
        exact Set.subset_union_left
      exact hsubset.antisymm (Directory.subset_effects _ _)
    · exact (congrArg Directory.aliases hsame :)
    · exact (congrArg Directory.refers hsame :)
    · obtain ⟨shape, hlatest⟩ := Option.isSome_iff_exists.mp (Declaration.latest?_isSome hd)
      rw [← hshape, hshapes, hlatest, Option.some_or]
  · rintro ⟨heffects, hold⟩
    refine ⟨?_, fun ns name => ?_⟩
    · rw [hdirectory, heffects]
      refine declare_of_subset ?_
      rintro _ ⟨d, hd, rfl⟩
      refine he.mem_vars_iff.mpr ?_
      rw [hold d hd]
      exact Declaration.latest?_isSome hd
    · rw [hshapes]
      cases hlatest : Declaration.latest? ds ns name with
      | none => rfl
      | some shape =>
        obtain ⟨d, hd, rfl, rfl⟩ := Declaration.exists_of_latest? hlatest
        rw [hold d hd, hlatest, Option.some_or]

end Env

/-- Effects leave all vars as they are. -/
theorem Frame.shape?_apply {f f' : Frame} {es : List Effect} (h : f.apply es = (f', none))
    (ns name : String) : f'.env.shape? ns name = f.env.shape? ns name := by
  have hone : ∀ (f : Frame) e, (f.applyOne e).1.env.shape? ns name = f.env.shape? ns name := by
    intro f e
    have hensure : ∀ (env : Env) x, (env.ensure x).named? ns name = env.named? ns name := fun env x =>
      Env.named?_congr (Env.cells_ensure env x) (Env.lookup?_ensure env x ns name)
    unfold Frame.applyOne Env.shape?
    split
    · exact congrArg _ (hensure _ _)
    split
    · exact congrArg _ (hensure _ _)
    split
    · refine congrArg _ ?_
      dsimp only
      rw [Env.named?_congr (Env.cells_addAlias ..) (Env.lookup?_addAlias ..), hensure, hensure]
    split
    · exact congrArg _ (Env.named?_congr (Env.cells_addRefer ..) (Env.lookup?_addRefer ..))
    · rfl
  induction es generalizing f with
  | nil =>
    cases h
    rfl
  | cons e es ih =>
    rcases hstep : f.applyOne e with ⟨f₁, _ | fault⟩
    · simp only [Frame.apply, hstep] at h
      have hsame := hone f e
      rw [hstep] at hsame
      exact (ih h).trans hsame
    · simp only [Frame.apply, hstep] at h
      cases h

namespace Session

variable {f f' : Frame} {form : Form} {es : List Effect} {node : Option Node} {u u' : CompUnit}

theorem takeForm_shape (h : takeForm f form = (f', .ok (es, node))) (hf : f.Sound) (ns name : String) :
    f'.env.shape? ns name =
      (Declaration.latest? (declarations node.toList) ns name).or (f.env.shape? ns name) := by
  unfold takeForm at h
  split at h
  · cases hr : EnvForm.replay f form with
    | mk f₁ r =>
      rw [hr] at h
      obtain ⟨rfl, hok⟩ := Prod.mk.inj h
      cases r with
      | error e => cases hok
      | ok effects =>
        cases hok
        exact Frame.shape?_apply (EnvForm.apply_of_replay hr) ns name
  · cases hr : form.analyze f.env f.ns with
    | mk env r =>
      rw [hr] at h
      obtain ⟨rfl, hok⟩ := Prod.mk.inj h
      cases r with
      | error e => cases hok
      | ok n =>
        cases hok
        obtain ⟨rfl, -⟩ := Form.analyze_declared hr
        exact hf.tidy.shape?_declared _ ns name

/-- The forms of a unit declare what its nodes define. -/
theorem extend_shape {forms : List Form} (h : extend f u forms = (f', .ok u')) (hf : f.Sound) :
    ∃ nodes, u'.forms = u.forms ++ nodes ∧ ∀ ns name, f'.env.shape? ns name =
      (Declaration.latest? (declarations nodes) ns name).or (f.env.shape? ns name) := by
  induction forms generalizing f u with
  | nil =>
    cases h
    exact ⟨[], (List.append_nil _).symm, fun _ _ => rfl⟩
  | cons form forms ih =>
    rcases ht : takeForm f form with ⟨f₁, failure | ⟨es, node⟩⟩
    · simp only [extend, ht] at h
      cases h
    · simp only [extend, ht] at h
      have hsound := (takeForm_grown hf (.refl _) form).1
      rw [ht] at hsound
      obtain ⟨nodes, hforms, hshape⟩ := ih h hsound
      refine ⟨node.toList ++ nodes, by rw [hforms, List.append_assoc], fun ns name => ?_⟩
      rw [hshape, takeForm_shape ht hf, Node.declarations_append, Declaration.latest?_append,
        Option.or_assoc]

end Session

/-! ## Evaluations -/

namespace Evaluator

/-- A load that fails takes back no declaration. If a source is compiled and its module cannot be loaded,
the session stays as the source left it: it is in the namespace that the effects lead to, the effects are
carried out, and every var has the kind and the arity of the last declaration in the unit, or the ones that
it had. That is what it was before if and only if the unit brings nothing new. -/
theorem failed_load_stays_declared {v : Evaluator} (hv : v.session.Reachable) (s : Lisp) {src : String}
    {session : Session} {compiler : Compiler} {m : Compiled} {failure : Failure}
    (hcompiled : (v.session.switchTo v.ns).compile s.compiler (moduleName modulePrefix (v.evals + 1)) src =
      (session, compiler, .ok m))
    (hfailed : (s.engine.load v.ns (some m.artifact) m.module).2.2 = .error failure) :
    ∃ u, (Call.eval src).handed v s = [u] ∧ (v.eval s src).2.2 = .error failure ∧
      let before := (v.session.switchTo v.ns).frame
      let now := (v.eval s src).1.session.frame
      now.ns = Frame.nsAfter before.ns u.effects ∧
      now.env.directory = (before.env.directory.effects u.effects).declare (definitions u.forms) ∧
      (∀ ns name, now.env.shape? ns name =
        (Declaration.latest? (declarations u.forms) ns name).or (before.env.shape? ns name)) ∧
      (before.env.SameDeclared now.env ↔
        before.env.directory.effects u.effects = before.env.directory ∧
        ∀ d ∈ declarations u.forms, before.env.shape? d.ns d.name =
          Declaration.latest? (declarations u.forms) d.ns d.name) := by
  obtain ⟨forms, frame, u, art, hread, hextend, -, -, rfl⟩ := Session.compile_eq_ok hcompiled
  have heval : (v.eval s src).2.2 = .error failure ∧ (v.eval s src).1.session.frame = frame := by
    have hname := hcompiled
    unfold moduleName at hname
    unfold Evaluator.eval
    simp only [hname, hfailed, Except.map, and_self]
  have hsound := Session.switchTo_sound hv.sound v.ns
  obtain ⟨hdirectory, hns, horderly⟩ := Session.unit_directory hextend
  obtain ⟨nodes, hforms, hshape⟩ := Session.extend_shape hextend hsound
  rw [List.nil_append] at hforms
  obtain rfl := hforms
  refine ⟨u, ?_, heval.1, ?_⟩
  · unfold Call.handed Session.handed Call.request
    simp only [hread, hextend, Except.toOption, Option.toList_some]
  · dsimp only
    rw [heval.2]
    refine ⟨hns, hdirectory, hshape, Env.sameDeclared_iff hsound.tidy ?_ hshape⟩
    rw [hdirectory, horderly.definitions]

/-- A function is defined, and then the module fails. -/
def failingSource : String := "(defn f [] 1) (quot 1 0)"

/-- What it is compiled to. -/
def failingModule : Session × Compiler × Result Compiled :=
  (smallEvaluator.session.switchTo smallEvaluator.ns).compile smallLisp.compiler
    (moduleName modulePrefix (smallEvaluator.evals + 1)) failingSource

/-- The module cannot be loaded. The session declares the function then, and the engine has no such var. -/
theorem failingModule_fails :
    (failingModule.2.2.toOption.any fun m =>
      !(smallLisp.engine.load smallEvaluator.ns (some m.artifact) m.module).2.2.isOk) = true ∧
    smallEvaluator.session.frame.env.shape? "user" "f" = none ∧
    (smallEvaluator.eval smallLisp failingSource).1.session.frame.env.shape? "user" "f" = some (.fn, 0) ∧
    (smallEvaluator.eval smallLisp failingSource).2.1.engine.env.shape? "user" "f" = none := by
  decide +kernel

theorem exists_failingModule : ∃ session compiler m failure,
    failingModule = (session, compiler, .ok m) ∧
      (smallLisp.engine.load smallEvaluator.ns (some m.artifact) m.module).2.2 = .error failure := by
  have hfails := failingModule_fails.1
  generalize failingModule = compiled at hfails ⊢
  obtain ⟨session, compiler, failure | m⟩ := compiled
  · exact absurd hfails Bool.false_ne_true
  · refine ⟨session, compiler, m, ?_⟩
    simp only [Except.toOption, Option.any_some] at hfails
    generalize (smallLisp.engine.load smallEvaluator.ns (some m.artifact) m.module).2.2 = r at hfails ⊢
    cases r with
    | ok entry => exact absurd hfails Bool.false_ne_true
    | error failure => exact ⟨failure, rfl, rfl⟩

theorem failed_load_stays_declared_f :
    smallEvaluator.session.Reachable ∧ ∃ session compiler m failure u,
      failingModule = (session, compiler, .ok m) ∧
      (smallLisp.engine.load smallEvaluator.ns (some m.artifact) m.module).2.2 = .error failure ∧
      (Call.eval failingSource).handed smallEvaluator smallLisp = [u] ∧
      ∀ ns name, (smallEvaluator.eval smallLisp failingSource).1.session.frame.env.shape? ns name =
        (Declaration.latest? (declarations u.forms) ns name).or
          ((smallEvaluator.session.switchTo smallEvaluator.ns).frame.env.shape? ns name) := by
  obtain ⟨started, hstarted, hnew⟩ := new_eq_ok new_smallEvaluator
  have hreachable : smallEvaluator.session.Reachable := by
    rw [hnew]
    exact .new hstarted
  obtain ⟨session, compiler, m, failure, hcompiled, hfailed⟩ := exists_failingModule
  obtain ⟨u, hu, -, -, -, hshape, -⟩ :=
    failed_load_stays_declared hreachable smallLisp hcompiled hfailed
  exact ⟨hreachable, session, compiler, m, failure, u, hcompiled, hfailed, hu, hshape⟩

/-- A source is compiled and cannot be loaded, and the session has a var afterwards that it did not have
before and that the engine does not have. -/
theorem declared_although_load_failed :
    (∃ session compiler m failure, failingModule = (session, compiler, .ok m) ∧
      (smallLisp.engine.load smallEvaluator.ns (some m.artifact) m.module).2.2 = .error failure) ∧
    ¬smallEvaluator.session.frame.env.SameDeclared
      (smallEvaluator.eval smallLisp failingSource).1.session.frame.env ∧
    (smallEvaluator.eval smallLisp failingSource).2.1.engine.env.shape? "user" "f" = none := by
  obtain ⟨-, hbefore, hnow, hengine⟩ := failingModule_fails
  refine ⟨exists_failingModule, fun hsame => ?_, hengine⟩
  have hshape := hsame.shapes "user" "f"
  rw [hbefore, hnow] at hshape
  cases hshape

end Evaluator

end WasmLisp
