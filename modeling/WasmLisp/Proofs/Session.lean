import Mathlib
import WasmLisp.Session
import WasmLisp.Proofs.Compiler
import WasmLisp.Proofs.Frame

/-!
# Requests of a session

* `Session.Request`, `Session.handle`: what can be asked of a session, and what it answers;
* `Session.Reachable.sound`: after all requests names stand for vars of their own;
* `Session.handle_alike`: sessions that are alike answer alike and stay alike, whatever the cells of
  their vars and the numbers of their modules;
* `Session.failed_request_leaves_no_trace`: a request that fails leaves a session that is alike.
-/

namespace WasmLisp

namespace Session

/-! ## Requests -/

/-- What can be asked of a session. -/
inductive Request where
  | unit (module src : String)
  | compile (module src : String)
  | require (modulePrefix src : String)
  | switchTo (ns : String)
  deriving DecidableEq, Repr

/-- What a session answers. -/
inductive Response where
  | unit (r : Result CompUnit)
  | compiled (r : Result Compiled)
  | required (r : Result Required)
  | switched

/-- Answers a request. -/
def handle (s : Session) (c : Compiler) : Request → Session × Compiler × Response
  | .unit module src => ((s.unit module src).1, c, .unit (s.unit module src).2)
  | .compile module src =>
    let (s, c, r) := s.compile c module src
    (s, c, .compiled r)
  | .require modulePrefix src =>
    let (s, c, r) := s.require c modulePrefix src
    (s, c, .required r)
  | .switchTo ns => (s.switchTo ns, c, .switched)

/-- The answers to requests one after the other, each with the namespace that is current then. -/
def responses (s : Session) (c : Compiler) : List Request → List (Response × String)
  | [] => []
  | r :: rest =>
    ((s.handle c r).2.2, (s.handle c r).1.ns) ::
      responses (s.handle c r).1 (s.handle c r).2.1 rest

/-- Whether a request failed. -/
def Response.failed : Response → Bool
  | .unit r => !r.isOk
  | .compiled r => !r.isOk
  | .required r => !r.isOk
  | .switched => false

/-- The sessions that there can be: new ones, and those after requests, with whatever compilers. -/
inductive Reachable : Session → Prop
  | new {preamble : Option Preamble} {target : Target} {s : Session}
      (h : Session.new preamble target = .ok s) : Reachable s
  | handle {s : Session} (h : Reachable s) (c : Compiler) (r : Request) :
      Reachable (s.handle c r).1

/-! ## Forms in related frames -/

section

variable {R : Frame → Frame → Prop} (hR : Frame.Congruence R) {f f' : Frame}
include hR

theorem takeForm_congr (h : R f f') (form : Form) :
    (takeForm f form).2 = (takeForm f' form).2 ∧ R (takeForm f form).1 (takeForm f' form).1 := by
  unfold takeForm
  split
  · obtain ⟨hresult, hframes⟩ := EnvForm.replay_congr hR h form
    refine ⟨?_, hframes⟩
    exact congrArg (Except.map fun es => (es, none)) hresult
  · obtain ⟨hresult, hframes⟩ := analyze_congr hR h form
    refine ⟨?_, hframes⟩
    exact congrArg (Except.map fun n => ([], some n)) hresult

theorem extend_congr (h : R f f') (u : CompUnit) (forms : List Form) :
    (extend f u forms).2 = (extend f' u forms).2 ∧
      R (extend f u forms).1 (extend f' u forms).1 := by
  induction forms generalizing f f' u with
  | nil => exact ⟨rfl, h⟩
  | cons form forms ih =>
    obtain ⟨hresult, hframes⟩ := takeForm_congr hR h form
    cases ht : takeForm f form with
    | mk g r =>
      cases ht' : takeForm f' form with
      | mk g' r' =>
        rw [ht, ht'] at hresult hframes
        dsimp only at hresult hframes
        subst hresult
        cases r with
        | error e =>
          simp only [extend, ht, ht']
          exact ⟨trivial, hframes⟩
        | ok taken =>
          obtain ⟨es, node⟩ := taken
          simp only [extend, ht, ht']
          exact ih hframes _

end

/-- Forms keep frames sound and give up no cells. -/
theorem takeForm_grown {e₀ : Env} {f : Frame} (hf : f.Sound) (h : e₀.Grown f.env) (form : Form) :
    (takeForm f form).1.Sound ∧ e₀.Grown (takeForm f form).1.env :=
  (takeForm_congr (Frame.congruence_grown e₀) ⟨rfl, hf, h⟩ form).2.2

theorem extend_grown {e₀ : Env} {f : Frame} (hf : f.Sound) (h : e₀.Grown f.env) (u : CompUnit)
    (forms : List Form) :
    (extend f u forms).1.Sound ∧ e₀.Grown (extend f u forms).1.env :=
  (extend_congr (Frame.congruence_grown e₀) ⟨rfl, hf, h⟩ u forms).2.2

/-! ## Going back -/

/-- Whatever was declared and carried out in between is taken back. -/
theorem rollBack_intact {before after : Frame} (hb : before.Sound)
    (h : before.env.Grown after.env) : before.Intact (rollBack before after) := by
  have hintact := h.restore hb.tidy
  refine ⟨rfl, ?_⟩
  have hhere : (after.env.restore before.env.snapshot).namespaces.contains before.ns = true := by
    rw [hintact.namespaces]
    exact hb.here
  have henv : (rollBack before after).env = after.env.restore before.env.snapshot :=
    if_pos hhere
  rw [henv]
  exact hintact

/-- All that later requests can see of a session is as it was. -/
structure Untouched (s s' : Session) : Prop where
  frame : s.frame.Intact s'.frame
  tracker : s'.tracker = s.tracker
  target : s'.target = s.target

theorem Untouched.refl (s : Session) : s.Untouched s :=
  ⟨⟨rfl, rfl, fun _ _ _ _ => rfl⟩, rfl, rfl⟩

variable {s s' : Session} {c c' : Compiler}

theorem settle_sound {α : Type} {f : Frame} (hs : s.frame.Sound) (hf : f.Sound)
    (h : s.frame.env.Grown f.env) (r : Result α) : (s.settle f r).frame.Sound := by
  cases r with
  | ok a => exact hf
  | error e => exact ((rollBack_intact hs h).alike hs).left

theorem settle_untouched {α : Type} {f : Frame} (hs : s.frame.Sound)
    (h : s.frame.env.Grown f.env) {r : Result α} (hr : r.isOk = false) :
    s.Untouched (s.settle f r) := by
  cases r with
  | ok a => cases hr
  | error e => exact ⟨rollBack_intact hs h, rfl, rfl⟩

/-! ## Requiring form by form -/

/-- The unit that a form is compiled as. -/
def part (s : Session) (ns name : String) (effects : List Effect) (node : Option Node) : CompUnit :=
  { name, ns, target := s.target, effects, forms := node.toList }

/-- Whether what a form contributes is a definition that is current. -/
def isCurrent (s : Session) (node : Option Node) : Bool :=
  (definition? node).any fun (q, hash) => !s.tracker.changed q hash

namespace Progress

/-- The definitions compiled, with that of a form. -/
def freshWith (p : Progress) (node : Option Node) : Table String :=
  match definition? node with
  | some (q, hash) => p.fresh.insert q hash
  | none => p.fresh

/-- Compiles a unit as the next module. -/
def build (p : Progress) (u : CompUnit) : Progress × Option Failure :=
  match p.compiler.compile u with
  | (compiler, .error e) => ({ p with compiler }, some e)
  | (compiler, .ok artifact) =>
    let modules := p.done.modules ++ [{ artifact, module := u.name }]
    ({ p with compiler, done := { p.done with modules } }, none)

/-- Leaves out a definition. -/
def skip (p : Progress) (q : String) : Progress :=
  { p with done := { p.done with skipped := p.done.skipped ++ [q] } }

end Progress

variable {p p' : Progress} {f : Form} {es : List Effect} {node : Option Node}

theorem requireForm_error {e : Failure} (h : (takeForm p.frame f).2 = .error e) (name : String) :
    s.requireForm p name f = ({ p with frame := (takeForm p.frame f).1 }, some e) := by
  cases ht : takeForm p.frame f with
  | mk frame r =>
    rw [ht] at h
    cases h
    simp only [requireForm, ht]

theorem requireForm_skip {q hash : String} (h : (takeForm p.frame f).2 = .ok (es, node))
    (hdef : definition? node = some (q, hash)) (hq : s.tracker.changed q hash = false)
    (name : String) :
    s.requireForm p name f =
      (({ p with frame := (takeForm p.frame f).1 } : Progress).skip q, none) := by
  cases ht : takeForm p.frame f with
  | mk frame r =>
    rw [ht] at h
    cases h
    simp [requireForm, ht, hdef, hq, Progress.skip]

theorem requireForm_build (h : (takeForm p.frame f).2 = .ok (es, node))
    (hcurrent : s.isCurrent node = false) (name : String) :
    s.requireForm p name f =
      ({ p with frame := (takeForm p.frame f).1, fresh := p.freshWith node } : Progress).build
        (s.part p.frame.ns name es node) := by
  cases ht : takeForm p.frame f with
  | mk frame r =>
    rw [ht] at h
    cases h
    unfold isCurrent at hcurrent
    cases hdef : definition? node with
    | none =>
      simp only [requireForm, ht, hdef, Progress.build, Progress.freshWith, part]
      cases p.compiler.compile _ with
      | mk compiler r => cases r <;> rfl
    | some d =>
      obtain ⟨q, hash⟩ := d
      have hq : s.tracker.changed q hash = true := by simpa [hdef] using hcurrent
      simp only [requireForm, ht, hdef, hq, if_true, Progress.build, Progress.freshWith, part]
      cases p.compiler.compile _ with
      | mk compiler r => cases r <;> rfl

/-- A form is refused, left out, or compiled. -/
theorem requireForm_cases (s : Session) (p : Progress) (f : Form) :
    (∃ e, (takeForm p.frame f).2 = .error e) ∨
    (∃ es node q hash, (takeForm p.frame f).2 = .ok (es, node) ∧
      definition? node = some (q, hash) ∧ s.tracker.changed q hash = false) ∨
    ∃ es node, (takeForm p.frame f).2 = .ok (es, node) ∧ s.isCurrent node = false := by
  cases ht : (takeForm p.frame f).2 with
  | error e => exact .inl ⟨e, rfl⟩
  | ok taken =>
    obtain ⟨es, node⟩ := taken
    cases hcurrent : s.isCurrent node with
    | false => exact .inr (.inr ⟨es, node, rfl, hcurrent⟩)
    | true =>
      obtain ⟨⟨q, hash⟩, hdef, hq⟩ := (Option.any_eq_true _ _).mp hcurrent
      exact .inr (.inl ⟨es, node, q, hash, rfl, hdef, by simpa using hq⟩)

theorem build_frame (p : Progress) (u : CompUnit) : (p.build u).1.frame = p.frame := by
  unfold Progress.build
  split <;> rfl

theorem requireForm_frame (s : Session) (p : Progress) (name : String) (f : Form) :
    (s.requireForm p name f).1.frame = (takeForm p.frame f).1 := by
  obtain ⟨e, h⟩ | ⟨es, node, q, hash, h, hdef, hq⟩ | ⟨es, node, h, hcurrent⟩ :=
    requireForm_cases s p f
  · rw [requireForm_error h]
  · rw [requireForm_skip h hdef hq]
    rfl
  · rw [requireForm_build h hcurrent, build_frame]

theorem requireForms_grown {e₀ : Env} (hp : p.frame.Sound) (h : e₀.Grown p.frame.env)
    (stem : String) (i : Nat) (forms : List Form) :
    (s.requireForms stem i p forms).1.frame.Sound ∧
      e₀.Grown (s.requireForms stem i p forms).1.frame.env := by
  induction forms generalizing p i with
  | nil => exact ⟨hp, h⟩
  | cons f forms ih =>
    obtain ⟨hsound, hgrown⟩ := takeForm_grown hp h f
    have hframe := requireForm_frame s p s!"{stem}.{i}" f
    cases hr : s.requireForm p s!"{stem}.{i}" f with
    | mk p' failure =>
      rw [hr] at hframe
      rw [← hframe] at hsound hgrown
      cases failure with
      | some e =>
        simp only [requireForms, hr]
        exact ⟨hsound, hgrown⟩
      | none =>
        simp only [requireForms, hr]
        exact ih hsound hgrown (i + 1)

/-! ## What requests keep -/

theorem unit_keeps (hs : s.frame.Sound) (module src : String) :
    (s.unit module src).1.frame.Sound ∧
      ((s.unit module src).2.isOk = false → s.Untouched (s.unit module src).1) := by
  unfold unit
  cases Form.readAll src with
  | error e => exact ⟨hs, fun _ => .refl s⟩
  | ok forms =>
    obtain ⟨hsound, hgrown⟩ := extend_grown hs (.refl _)
      { name := module, ns := s.ns, target := s.target } forms
    exact ⟨settle_sound hs hsound hgrown _, settle_untouched hs hgrown⟩

theorem compile_keeps (hs : s.frame.Sound) (c : Compiler) (module src : String) :
    (s.compile c module src).1.frame.Sound ∧
      ((s.compile c module src).2.2.isOk = false → s.Untouched (s.compile c module src).1) := by
  unfold compile
  cases Form.readAll src with
  | error e => exact ⟨hs, fun _ => .refl s⟩
  | ok forms =>
    obtain ⟨hsound, hgrown⟩ := extend_grown hs (.refl _)
      { name := module, ns := s.ns, target := s.target } forms
    dsimp only
    cases he : extend s.frame { name := module, ns := s.ns, target := s.target } forms with
    | mk frame r =>
      rw [he] at hsound hgrown
      cases r with
      | error e => exact ⟨settle_sound hs hsound hgrown _, settle_untouched hs hgrown⟩
      | ok u => exact ⟨settle_sound hs hsound hgrown _, settle_untouched hs hgrown⟩

theorem require_keeps (hs : s.frame.Sound) (c : Compiler) (modulePrefix src : String) :
    (s.require c modulePrefix src).1.frame.Sound ∧
      ((s.require c modulePrefix src).2.2.isOk = false →
        s.Untouched (s.require c modulePrefix src).1) := by
  unfold require
  split
  · exact ⟨hs, fun _ => .refl s⟩
  cases Form.readAll src with
  | error e => exact ⟨hs, fun _ => .refl s⟩
  | ok forms =>
    dsimp only
    obtain ⟨hsound, hgrown⟩ := requireForms_grown (s := { s with requires := s.requires + 1 })
      (p := { frame := s.frame, compiler := c }) hs (.refl _)
      s!"{modulePrefix}${s.requires + 1}" 1 forms
    split
    · rename_i p e heq
      rw [heq] at hsound hgrown
      have hintact := rollBack_intact hs hgrown
      exact ⟨(hintact.alike hs).left, fun _ => ⟨hintact, rfl, rfl⟩⟩
    · rename_i p heq
      rw [heq] at hsound
      exact ⟨hsound, fun h => nomatch h⟩

theorem switchTo_sound (hs : s.frame.Sound) (ns : String) : (s.switchTo ns).frame.Sound := by
  unfold switchTo
  split
  · exact hs
  · exact Frame.sound_enter hs.tidy ns

/-- Requests keep sessions sound, and those that fail leave them untouched. -/
theorem handle_keeps (hs : s.frame.Sound) (c : Compiler) (r : Request) :
    (s.handle c r).1.frame.Sound ∧
      ((s.handle c r).2.2.failed = true → s.Untouched (s.handle c r).1) := by
  cases r with
  | unit module src => simpa [handle, Response.failed] using unit_keeps hs module src
  | compile module src => simpa [handle, Response.failed] using compile_keeps hs c module src
  | require modulePrefix src =>
    simpa [handle, Response.failed] using require_keeps hs c modulePrefix src
  | switchTo ns => exact ⟨switchTo_sound hs ns, fun h => nomatch h⟩

theorem declareAll_tidy (fns : List Defn) {e : Env} (h : e.Tidy) :
    (Preamble.declareAll fns e).Tidy := by
  unfold Preamble.declareAll
  induction fns generalizing e with
  | nil => exact h
  | cons d fns ih => exact ih (h.intern d.ns d.name .fn d.params.length)

/-- A new session is in the default namespace of a tidy environment and knows nothing. -/
theorem new_eq_ok {preamble : Option Preamble} {target : Target}
    (h : Session.new preamble target = .ok s) :
    ∃ env : Env, env.Tidy ∧
      s = { frame := .enter env Env.defaultNs, target := target.normalize } := by
  unfold Session.new at h
  cases preamble with
  | none =>
    cases h
    exact ⟨_, Env.tidy_initial, rfl⟩
  | some p =>
    obtain ⟨env, henv, h⟩ := Except.bind_eq_ok h
    obtain ⟨fns, -, henv⟩ := Except.bind_eq_ok henv
    cases henv
    cases h
    exact ⟨_, declareAll_tidy fns Env.tidy_initial, rfl⟩

theorem new_sound {preamble : Option Preamble} {target : Target}
    (h : Session.new preamble target = .ok s) : s.frame.Sound := by
  obtain ⟨env, htidy, rfl⟩ := new_eq_ok h
  exact Frame.sound_enter htidy Env.defaultNs

/-- After all requests names stand for vars of their own, and the current namespace is there. -/
theorem Reachable.sound (h : s.Reachable) : s.frame.Sound := by
  induction h with
  | new h => exact new_sound h
  | handle _ c r ih => exact (handle_keeps ih c r).1

/-! ## What is handed to the compiler -/

/-- The unit that a form is compiled as, if it is compiled. -/
def handedForm (s : Session) (p : Progress) (name : String) (f : Form) : List CompUnit :=
  match (takeForm p.frame f).2 with
  | .error _ => []
  | .ok (es, node) => if s.isCurrent node then [] else [s.part p.frame.ns name es node]

/-- The units that forms are compiled as, up to the first that fails. -/
def handedForms (s : Session) (stem : String) (i : Nat) (p : Progress) : List Form → List CompUnit
  | [] => []
  | f :: rest =>
    s.handedForm p s!"{stem}.{i}" f ++
      match s.requireForm p s!"{stem}.{i}" f with
      | (_, some _) => []
      | (p, none) => s.handedForms stem (i + 1) p rest

/-- The units that a request hands to the compiler. -/
def handed (s : Session) (c : Compiler) : Request → List CompUnit
  | .compile module src =>
    match Form.readAll src with
    | .error _ => []
    | .ok forms =>
      (extend s.frame { name := module, ns := s.ns, target := s.target } forms).2.toOption.toList
  | .require modulePrefix src =>
    if modulePrefix = "" then []
    else match Form.readAll src with
      | .error _ => []
      | .ok forms =>
        let s := { s with requires := s.requires + 1 }
        s.handedForms s!"{modulePrefix}${s.requires}" 1 { frame := s.frame, compiler := c } forms
  | _ => []

/-- The units that requests hand to the compiler, one after the other. -/
def handedAll (s : Session) (c : Compiler) : List Request → List CompUnit
  | [] => []
  | r :: rest => s.handed c r ++ handedAll (s.handle c r).1 (s.handle c r).2.1 rest

/-! ## Sessions that are alike -/

/-- Sessions that are the same but for the cells of their vars and the number of the last require. -/
structure Alike (s s' : Session) : Prop where
  frame : s.frame.Alike s'.frame
  tracker : s.tracker = s'.tracker
  target : s.target = s'.target

theorem Untouched.alike (h : s.Untouched s') (hs : s.frame.Sound) : s'.Alike s :=
  ⟨h.frame.alike hs, h.tracker, h.target⟩

/-- The name of a module by the number of its require and its own. -/
def moduleName (modulePrefix : String) (n i : Nat) : String :=
  let stem := s!"{modulePrefix}${n}"
  s!"{stem}.{i}"

/-- Names of modules that differ in the number of the require only. -/
def Renumbered (name name' : String) : Prop :=
  ∃ modulePrefix n n' i, name = moduleName modulePrefix n i ∧ name' = moduleName modulePrefix n' i

/-- Modules that are the same but for the number in their names and for where their artifacts come
from. -/
structure SameModule (m m' : Compiled) : Prop where
  artifact : m.artifact.Same m'.artifact
  module : Renumbered m.module m'.module

/-- Failures that are the same but for the number in the name of a module. -/
def SameFailure (e e' : Failure) : Prop :=
  e = e' ∨ ∃ name name', Renumbered name name' ∧ Compiler.Renamed name name' e e'

/-- The same modules are compiled and the same definitions left out. -/
structure SameRequired (r r' : Required) : Prop where
  modules : List.Forall₂ SameModule r.modules r'.modules
  skipped : r.skipped = r'.skipped

/-- Answers that are the same, but for the numbers in the names of required modules and for where
artifacts come from. -/
def Response.Alike : Response → Response → Prop
  | .unit r, .unit r' => r = r'
  | .compiled r, .compiled r' =>
    Result.Rel (fun m m' => m.artifact.Same m'.artifact ∧ m.module = m'.module) r r'
  | .required r, .required r' => Result.RelUpTo SameFailure SameRequired r r'
  | .switched, .switched => True
  | _, _ => False

theorem Alike.ns (h : s.Alike s') : s.ns = s'.ns := h.frame.ns

/-- What alike sessions make of work that went alike. -/
theorem Alike.settle {α β : Type} (h : s.Alike s') {f f' : Frame} (hf : f.Alike f')
    (hgrown : s.frame.env.Grown f.env) (hgrown' : s'.frame.env.Grown f'.env) {r : Result α}
    {r' : Result β} (hr : r.isOk = r'.isOk) : (s.settle f r).Alike (s'.settle f' r') := by
  cases r with
  | ok a =>
    cases r' with
    | error e' => cases hr
    | ok a' => exact ⟨hf, h.tracker, h.target⟩
  | error e =>
    cases r' with
    | ok a' => cases hr
    | error e' =>
      have hback := (rollBack_intact h.frame.left hgrown).alike h.frame.left
      have hback' := (rollBack_intact h.frame.right hgrown').alike h.frame.right
      refine ⟨⟨h.frame.ns, ?_, hback.left, hback'.left⟩, h.tracker, h.target⟩
      exact (hback.env.trans h.frame.env).trans hback'.env.symm

/-- Alike sessions make the same unit of forms, and the frames they leave are alike. -/
theorem extend_alike (h : s.Alike s') (u : CompUnit) (forms : List Form) :
    (extend s.frame u forms).2 = (extend s'.frame u forms).2 ∧
      ∀ {α β : Type} {r : Result α} {r' : Result β}, r.isOk = r'.isOk →
        (s.settle (extend s.frame u forms).1 r).Alike (s'.settle (extend s'.frame u forms).1 r') := by
  obtain ⟨hresult, hframes⟩ := extend_congr Frame.congruence_alike h.frame u forms
  have hgrown := (extend_grown h.frame.left (.refl _) u forms).2
  have hgrown' := (extend_grown h.frame.right (.refl _) u forms).2
  exact ⟨hresult, h.settle hframes hgrown hgrown'⟩

theorem unit_alike (h : s.Alike s') (module src : String) :
    (s.unit module src).2 = (s'.unit module src).2 ∧
      (s.unit module src).1.Alike (s'.unit module src).1 := by
  unfold unit
  rw [h.ns, h.target]
  cases Form.readAll src with
  | error e => exact ⟨rfl, h⟩
  | ok forms =>
    obtain ⟨hresult, hsettle⟩ := extend_alike h
      { name := module, ns := s'.ns, target := s'.target } forms
    exact ⟨hresult, hsettle (by rw [hresult])⟩

variable {inputs : Set (List UInt8)}

theorem compile_alike (hinputs : Digest.Apart inputs) (h : s.Alike s')
    (hc : Compiler.Agree inputs c c') {module src : String}
    (hhanded : ∀ u ∈ s.handed c (.compile module src), c.hashed u ⊆ inputs) :
    (s.compile c module src).1.Alike (s'.compile c' module src).1 ∧
      Compiler.Agree inputs (s.compile c module src).2.1 (s'.compile c' module src).2.1 ∧
      (Response.compiled (s.compile c module src).2.2).Alike
        (.compiled (s'.compile c' module src).2.2) := by
  unfold handed at hhanded
  unfold compile
  rw [h.ns, h.target] at *
  cases hread : Form.readAll src with
  | error e => exact ⟨h, hc, rfl⟩
  | ok forms =>
    simp only [hread] at hhanded
    obtain ⟨hresult, hsettle⟩ := extend_alike h
      { name := module, ns := s'.ns, target := s'.target } forms
    dsimp only
    generalize extend s.frame { name := module, ns := s'.ns, target := s'.target } forms = left
      at hresult hsettle hhanded ⊢
    generalize extend s'.frame { name := module, ns := s'.ns, target := s'.target } forms = right
      at hresult hsettle ⊢
    obtain ⟨frame, r⟩ := left
    obtain ⟨frame', r'⟩ := right
    dsimp only at hresult
    subst hresult
    cases r with
    | error e =>
      have hfailed : (s.settle frame (.error e : Result Compiled)).Alike
          (s'.settle frame' (.error e : Result Compiled)) := hsettle rfl
      exact ⟨hfailed, hc, rfl⟩
    | ok u =>
      have hu : c.hashed u ⊆ inputs := hhanded u (by simp [Except.toOption])
      obtain ⟨hagree, hsame⟩ := hc.compile_same hinputs hu
      have hmapped : Result.Rel (fun m m' => m.artifact.Same m'.artifact ∧ m.module = m'.module)
          ((c.compile u).2.map fun artifact => ({ artifact, module } : Compiled))
          ((c'.compile u).2.map fun artifact => ({ artifact, module } : Compiled)) :=
        hsame.map fun _ _ hartifact => ⟨hartifact, rfl⟩
      exact ⟨hsettle hmapped.isOk_eq, hagree, hmapped⟩

/-! ## Requiring in sessions that are alike -/

/-- Progress that is the same but for what may differ in the answers. -/
structure Progress.Alike (inputs : Set (List UInt8)) (p p' : Progress) : Prop where
  frame : p.frame.Alike p'.frame
  compiler : Compiler.Agree inputs p.compiler p'.compiler
  done : SameRequired p.done p'.done
  fresh : p.fresh = p'.fresh

/-- Both forms failed with the same failure, or none did. -/
def SameStop : Option Failure → Option Failure → Prop
  | none, none => True
  | some e, some e' => SameFailure e e'
  | _, _ => False

theorem Progress.Alike.build (hinputs : Digest.Apart inputs) (h : Progress.Alike inputs p p')
    {u : CompUnit} (hu : p.compiler.hashed u ⊆ inputs) {name : String}
    (hname : Renumbered u.name name) :
    Progress.Alike inputs (p.build u).1 (p'.build { u with name }).1 ∧
      SameStop (p.build u).2 (p'.build { u with name }).2 := by
  obtain ⟨hagree, hsame⟩ := h.compiler.compile hinputs hu name
  unfold Progress.build
  generalize p.compiler.compile u = left at hagree hsame ⊢
  generalize p'.compiler.compile { u with name } = right at hagree hsame ⊢
  obtain ⟨compiler, r⟩ := left
  obtain ⟨compiler', r'⟩ := right
  cases r with
  | error e =>
    cases r' with
    | ok a' => exact hsame.elim
    | error e' => exact ⟨⟨h.frame, hagree, h.done, h.fresh⟩, .inr ⟨u.name, name, hname, hsame⟩⟩
  | ok a =>
    cases r' with
    | error e' => exact hsame.elim
    | ok a' =>
      refine ⟨⟨h.frame, hagree, ⟨?_, h.done.skipped⟩, h.fresh⟩, trivial⟩
      have hlast : SameModule { artifact := a, module := u.name } { artifact := a', module := name } :=
        ⟨hsame, hname⟩
      exact List.rel_append h.done.modules (.cons hlast .nil)

theorem requireForm_alike (hinputs : Digest.Apart inputs) (htracker : s.tracker = s'.tracker)
    (htarget : s.target = s'.target) (h : Progress.Alike inputs p p') {name name' : String}
    (hname : Renumbered name name') {f : Form}
    (hhanded : ∀ u ∈ s.handedForm p name f, p.compiler.hashed u ⊆ inputs) :
    Progress.Alike inputs (s.requireForm p name f).1 (s'.requireForm p' name' f).1 ∧
      SameStop (s.requireForm p name f).2 (s'.requireForm p' name' f).2 := by
  obtain ⟨htake, hframe⟩ := takeForm_congr Frame.congruence_alike h.frame f
  obtain ⟨e, hleft⟩ | ⟨es, node, q, hash, hleft, hdef, hq⟩ | ⟨es, node, hleft, hcurrent⟩ :=
    requireForm_cases s p f
  all_goals have hright := htake.symm.trans hleft
  · rw [requireForm_error hleft, requireForm_error hright]
    exact ⟨⟨hframe, h.compiler, h.done, h.fresh⟩, .inl rfl⟩
  · have hq' : s'.tracker.changed q hash = false := htracker ▸ hq
    rw [requireForm_skip hleft hdef hq, requireForm_skip hright hdef hq']
    refine ⟨⟨hframe, h.compiler, ⟨h.done.modules, ?_⟩, h.fresh⟩, trivial⟩
    exact congrArg (· ++ [q]) h.done.skipped
  · have hcurrent' : s'.isCurrent node = false := by
      rw [← hcurrent, isCurrent, isCurrent, htracker]
    rw [requireForm_build hleft hcurrent, requireForm_build hright hcurrent']
    have hpart : s'.part p'.frame.ns name' es node =
        { s.part p.frame.ns name es node with name := name' } := by
      simp only [part, htarget, h.frame.ns]
    have hfresh : p.freshWith node = p'.freshWith node := by
      simp only [Progress.freshWith, h.fresh]
    have hstart : Progress.Alike inputs
        { p with frame := (takeForm p.frame f).1, fresh := p.freshWith node }
        { p' with frame := (takeForm p'.frame f).1, fresh := p'.freshWith node } :=
      ⟨hframe, h.compiler, h.done, hfresh⟩
    have hu : p.compiler.hashed (s.part p.frame.ns name es node) ⊆ inputs := by
      apply hhanded
      simp [handedForm, hleft, hcurrent]
    rw [hpart]
    exact hstart.build hinputs hu hname

/-- A form leaves the backends of the compiler as they are. -/
theorem requireForm_backends (s : Session) (p : Progress) (name : String) (f : Form) :
    (s.requireForm p name f).1.compiler.backends = p.compiler.backends := by
  obtain ⟨e, h⟩ | ⟨es, node, q, hash, h, hdef, hq⟩ | ⟨es, node, h, hcurrent⟩ :=
    requireForm_cases s p f
  · rw [requireForm_error h]
  · rw [requireForm_skip h hdef hq]
    rfl
  · rw [requireForm_build h hcurrent]
    have hkept := Compiler.compile_backends p.compiler (s.part p.frame.ns name es node)
    unfold Progress.build
    generalize Compiler.compile _ _ = compiled at hkept ⊢
    obtain ⟨compiler, r⟩ := compiled
    cases r <;> exact hkept

theorem requireForms_backends (s : Session) (stem : String) (i : Nat) (p : Progress)
    (forms : List Form) :
    (s.requireForms stem i p forms).1.compiler.backends = p.compiler.backends := by
  induction forms generalizing p i with
  | nil => rfl
  | cons f forms ih =>
    have hkept := requireForm_backends s p s!"{stem}.{i}" f
    unfold requireForms
    split
    · rename_i heq
      rw [heq] at hkept
      exact hkept
    · rename_i heq
      rw [heq] at hkept
      rw [ih]
      exact hkept

theorem requireForms_alike (hinputs : Digest.Apart inputs) (htracker : s.tracker = s'.tracker)
    (htarget : s.target = s'.target) (modulePrefix : String) (n m i : Nat)
    (h : Progress.Alike inputs p p') {forms : List Form}
    (hhanded : ∀ u ∈ s.handedForms s!"{modulePrefix}${n}" i p forms,
      p.compiler.hashed u ⊆ inputs) :
    Progress.Alike inputs (s.requireForms s!"{modulePrefix}${n}" i p forms).1
        (s'.requireForms s!"{modulePrefix}${m}" i p' forms).1 ∧
      SameStop (s.requireForms s!"{modulePrefix}${n}" i p forms).2
        (s'.requireForms s!"{modulePrefix}${m}" i p' forms).2 := by
  induction forms generalizing p p' i with
  | nil => exact ⟨h, trivial⟩
  | cons f forms ih =>
    have hname : Renumbered (moduleName modulePrefix n i) (moduleName modulePrefix m i) :=
      ⟨modulePrefix, n, m, i, rfl, rfl⟩
    obtain ⟨hnext, hstop⟩ := requireForm_alike hinputs htracker htarget h hname (f := f)
      fun u hu => hhanded u (List.mem_append_left _ hu)
    have hbackends := requireForm_backends s p (moduleName modulePrefix n i) f
    unfold handedForms at hhanded
    unfold requireForms
    unfold moduleName at hnext hstop hbackends
    dsimp only at hnext hstop hbackends
    generalize s.requireForm p _ f = left at hnext hstop hbackends hhanded ⊢
    generalize s'.requireForm p' _ f = right at hnext hstop ⊢
    obtain ⟨q, failure⟩ := left
    obtain ⟨q', failure'⟩ := right
    cases failure with
    | some e =>
      cases failure' with
      | none => exact hstop.elim
      | some e' => exact ⟨hnext, hstop⟩
    | none =>
      cases failure' with
      | some e' => exact hstop.elim
      | none =>
        apply ih (i + 1) hnext
        intro u hu
        rw [Compiler.hashed_congr hbackends]
        exact hhanded u (List.mem_append_right _ hu)

theorem require_alike (hinputs : Digest.Apart inputs) (h : s.Alike s')
    (hc : Compiler.Agree inputs c c') {modulePrefix src : String}
    (hhanded : ∀ u ∈ s.handed c (.require modulePrefix src), c.hashed u ⊆ inputs) :
    (s.require c modulePrefix src).1.Alike (s'.require c' modulePrefix src).1 ∧
      Compiler.Agree inputs (s.require c modulePrefix src).2.1
        (s'.require c' modulePrefix src).2.1 ∧
      (Response.required (s.require c modulePrefix src).2.2).Alike
        (.required (s'.require c' modulePrefix src).2.2) := by
  unfold handed at hhanded
  unfold require
  by_cases hempty : modulePrefix = ""
  · simp only [if_pos hempty]
    exact ⟨h, hc, .inl rfl⟩
  simp only [if_neg hempty] at hhanded ⊢
  cases hread : Form.readAll src with
  | error e => exact ⟨h, hc, .inl rfl⟩
  | ok forms =>
    simp only [hread] at hhanded
    dsimp only
    generalize s'.requires + 1 = m
    have hstart : Progress.Alike inputs { frame := s.frame, compiler := c }
        { frame := s'.frame, compiler := c' } := ⟨h.frame, hc, ⟨.nil, rfl⟩, rfl⟩
    have hnumbered : Alike { s with requires := s.requires + 1 }
        { s' with requires := m } := ⟨h.frame, h.tracker, h.target⟩
    obtain ⟨hp, hstop⟩ := requireForms_alike hinputs hnumbered.tracker hnumbered.target
      modulePrefix (s.requires + 1) m 1 hstart hhanded
    have hgrown := (requireForms_grown (s := { s with requires := s.requires + 1 })
      (p := { frame := s.frame, compiler := c }) h.frame.left (.refl _)
      s!"{modulePrefix}${s.requires + 1}" 1 forms).2
    have hgrown' := (requireForms_grown (s := { s' with requires := m })
      (p := { frame := s'.frame, compiler := c' }) h.frame.right (.refl _)
      s!"{modulePrefix}${m}" 1 forms).2
    generalize requireForms { s with requires := s.requires + 1 } _ 1 _ forms = left
      at hp hstop hgrown ⊢
    generalize requireForms { s' with requires := m } _ 1 _ forms = right
      at hp hstop hgrown' ⊢
    obtain ⟨p, failure⟩ := left
    obtain ⟨p', failure'⟩ := right
    cases failure with
    | some e =>
      cases failure' with
      | none => exact hstop.elim
      | some e' =>
        have hok : (.error e : Result Required).isOk = (.error e' : Result Required).isOk := rfl
        exact ⟨hnumbered.settle hp.frame hgrown hgrown' hok, hp.compiler, hstop⟩
    | none =>
      cases failure' with
      | some e' => exact hstop.elim
      | none =>
        refine ⟨⟨hp.frame, ?_, h.target⟩, hp.compiler, hp.done⟩
        dsimp only
        rw [hp.fresh, h.tracker]

theorem switchTo_alike (h : s.Alike s') (ns : String) : (s.switchTo ns).Alike (s'.switchTo ns) := by
  unfold switchTo
  rw [h.ns]
  split
  · exact h
  · refine ⟨⟨rfl, h.frame.env.ensure ns, ?_, ?_⟩, h.tracker, h.target⟩
    · exact Frame.sound_enter h.frame.left.tidy ns
    · exact Frame.sound_enter h.frame.right.tidy ns

/-! ## All requests -/

/-- Sessions that are alike answer alike, and stay alike. -/
theorem handle_alike (hinputs : Digest.Apart inputs) (h : s.Alike s')
    (hc : Compiler.Agree inputs c c') {r : Request}
    (hhanded : ∀ u ∈ s.handed c r, c.hashed u ⊆ inputs) :
    (s.handle c r).1.Alike (s'.handle c' r).1 ∧
      Compiler.Agree inputs (s.handle c r).2.1 (s'.handle c' r).2.1 ∧
      (s.handle c r).2.2.Alike (s'.handle c' r).2.2 := by
  cases r with
  | unit module src =>
    obtain ⟨hresult, halike⟩ := unit_alike h module src
    exact ⟨halike, hc, hresult⟩
  | compile module src => exact compile_alike hinputs h hc hhanded
  | require modulePrefix src => exact require_alike hinputs h hc hhanded
  | switchTo ns => exact ⟨switchTo_alike h ns, hc, trivial⟩

/-- Requests leave the backends of the compiler as they are. -/
theorem handle_backends (s : Session) (c : Compiler) (r : Request) :
    (s.handle c r).2.1.backends = c.backends := by
  cases r with
  | unit module src => rfl
  | switchTo ns => rfl
  | compile module src =>
    simp only [handle, compile]
    cases Form.readAll src with
    | error e => rfl
    | ok forms =>
      dsimp only
      split
      · rfl
      · exact Compiler.compile_backends c _
  | require modulePrefix src =>
    simp only [handle, require]
    split
    · rfl
    cases Form.readAll src with
    | error e => rfl
    | ok forms =>
      dsimp only
      have hkept := requireForms_backends { s with requires := s.requires + 1 }
        s!"{modulePrefix}${s.requires + 1}" 1 { frame := s.frame, compiler := c } forms
      split
      · rename_i heq
        rw [heq] at hkept
        exact hkept
      · rename_i heq
        rw [heq] at hkept
        exact hkept

theorem responses_alike (hinputs : Digest.Apart inputs) (h : s.Alike s')
    (hc : Compiler.Agree inputs c c') {requests : List Request}
    (hhanded : ∀ u ∈ s.handedAll c requests, c.hashed u ⊆ inputs) :
    List.Forall₂ (fun a a' => a.1.Alike a'.1 ∧ a.2 = a'.2) (s.responses c requests)
      (s'.responses c' requests) := by
  induction requests generalizing s s' c c' with
  | nil => exact .nil
  | cons r requests ih =>
    obtain ⟨hnext, hagree, hresponse⟩ := handle_alike hinputs h hc (r := r)
      fun u hu => hhanded u (List.mem_append_left _ hu)
    refine .cons ⟨hresponse, hnext.ns⟩ (ih hnext hagree fun u hu => ?_)
    rw [Compiler.hashed_congr (handle_backends s c r)]
    exact hhanded u (List.mem_append_right _ hu)

/-- A request that fails leaves no trace: the namespaces, the vars that their names stand for, with
kinds and arities, the aliases and refers, the current namespace and the definitions that are current
are what they were; so all later requests are answered as if it had not been made, if no two of the
byte strings that are hashed have the same digest. -/
theorem failed_request_leaves_no_trace (hs : s.Reachable) {r : Request}
    (hfail : (s.handle c r).2.2.failed = true) :
    s.Untouched (s.handle c r).1 ∧
      ∀ (inputs : Set (List UInt8)) (later : List Request), Digest.Apart inputs → c.Proper →
        c.Honest inputs → (∀ u ∈ s.handedAll c (r :: later), c.hashed u ⊆ inputs) →
        List.Forall₂ (fun a a' => a.1.Alike a'.1 ∧ a.2 = a'.2)
          ((s.handle c r).1.responses (s.handle c r).2.1 later) (s.responses c later) := by
  have huntouched := (handle_keeps hs.sound c r).2 hfail
  refine ⟨huntouched, fun inputs later hinputs hproper hhonest hhanded => ?_⟩
  have hbackends := handle_backends s c r
  -- what the failed request left in the cache is honest
  have hself : s.Alike s := (Untouched.refl s).alike hs.sound
  have hkept := (handle_alike hinputs hself ⟨rfl, hproper, hhonest, hhonest⟩ (r := r)
    fun u hu => hhanded u (List.mem_append_left _ hu)).2.1
  have hagree : Compiler.Agree inputs (s.handle c r).2.1 c :=
    ⟨hbackends.symm, hkept.proper, hkept.left, hhonest⟩
  refine responses_alike hinputs (huntouched.alike hs.sound) hagree fun u hu => ?_
  rw [Compiler.hashed_congr hbackends]
  exact hhanded u (List.mem_append_right _ hu)

/-- A new session for the running machine, and a compiler for it. -/
def start : Session := { frame := .enter .initial Env.defaultNs, target := Target.host.normalize }

def hostCompiler : Compiler := ({} : Compiler).addBackend CacheEvent.hostBackend

/-- A session that has a var. -/
def withVar : Session := (start.handle hostCompiler (.compile "a" "(def x 1)")).1

/-- Its third form fails, after the first has made the var a function and the second has left the
namespace. -/
def failing : Request := .require "m" "(defn x [a] a) (in-ns 'b) (x 1)"

/-- Requests after that. -/
def following : List Request := [.compile "n" "x", .require "m" "(def y 2)"]

/-- The units that the session compiles for these requests. -/
def compiledUnits : List CompUnit := withVar.handedAll hostCompiler (failing :: following)

/-- What is hashed to compile a unit. -/
def hashedTexts (u : CompUnit) : List (List UInt8) :=
  [u.outline.encode, (u.hash ++ "\x00" ++ CacheEvent.hostBackend.fingerprint).toUTF8.toList,
    CacheEvent.hostBackend.preamble.source.toUTF8.toList]

/-- The last of these requests is answered as if the failed one had not been made. -/
theorem failed_request_leaves_no_trace_require :
    withVar.Reachable ∧ (withVar.handle hostCompiler failing).2.2.failed = true ∧
      withVar.Untouched (withVar.handle hostCompiler failing).1 ∧
      List.Forall₂ (fun a a' => a.1.Alike a'.1 ∧ a.2 = a'.2)
        ((withVar.handle hostCompiler failing).1.responses
          (withVar.handle hostCompiler failing).2.1 following)
        (withVar.responses hostCompiler following) := by
  have hnew : Session.new none .host = .ok start := rfl
  have hreachable : withVar.Reachable := .handle (.new hnew) _ _
  have hfailed : (withVar.handle hostCompiler failing).2.2.failed = true := by decide +kernel
  obtain ⟨huntouched, hlater⟩ := failed_request_leaves_no_trace hreachable hfailed
  refine ⟨hreachable, hfailed, huntouched, ?_⟩
  obtain ⟨hall, hnodup⟩ : compiledUnits.all (·.target = .host) = true ∧
      ((compiledUnits.flatMap hashedTexts).dedup.map Digest.sum64).Nodup := by
    decide +kernel
  have hinputs : Digest.Apart {xs | xs ∈ (compiledUnits.flatMap hashedTexts).dedup} :=
    Digest.apart_of_nodup hnodup
  have hproper : hostCompiler.Proper := by
    apply Compiler.proper_addBackend_host
    intro key b hb
    cases hb
  have hhonest : hostCompiler.Honest {xs | xs ∈ (compiledUnits.flatMap hashedTexts).dedup} := by
    intro cache hcache
    cases hcache
  refine hlater _ following hinputs hproper hhonest fun u hu xs hxs => ?_
  have htarget : u.target = .host := by simpa using List.all_eq_true.mp hall u hu
  have hbackend : hostCompiler.backend? u.target.normalize = some CacheEvent.hostBackend := by
    rw [htarget, Target.normalize_host]
    exact Compiler.backend?_addBackend_host _ _ _
  rw [Compiler.hashed, hbackend] at hxs
  refine List.mem_dedup.mpr (List.mem_flatMap.mpr ⟨u, hu, ?_⟩)
  simpa [Backend.hashed, hashedTexts] using hxs

end Session

end WasmLisp
