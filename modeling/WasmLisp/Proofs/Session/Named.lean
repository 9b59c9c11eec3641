import Mathlib
import WasmLisp.Proofs.Session

/-!
# Names of modules in a session

A compiler without a cache does not look at the name of a unit, except to say which one has no backend.
So sessions that compile the same sources under other module names stay the same, and give the same
artifacts or fail alike.

* `Artifact.Generated`: an artifact that was built, not read from a cache;
* `Session.compile_rename`, `Session.require_rename`: requests under other module names.
-/

namespace WasmLisp

open Result (RelUpTo)

/-- The artifact holds a generated module and comes with its manifest. -/
def Artifact.Generated (art : Artifact) : Prop :=
  ∃ (u : CompUnit) (fns : List Defn) (maxDepth : Int) (g : Codegen.Generated) (target : Target),
    Codegen.generate u fns maxDepth = .ok g ∧
      art = { manifest := some g.manifest, hash := g.manifest.hash, entrySymbol := g.manifest.entry
              bytes := g.module.encode, target }

/-! ## Compilers without a cache -/

namespace Compiler

variable {c : Compiler} (hc : c.cache = none)
include hc

theorem produce_uncached (b : Backend) (u : CompUnit) (target : Target) :
    c.produce b u target = c.build b u := by
  have hcache := (build_cache c b u).trans hc
  unfold produce lookup
  rw [hc]
  dsimp only
  generalize c.build b u = built at hcache ⊢
  obtain ⟨c', e | art⟩ := built
  · rfl
  · have hcache : c'.cache = none := hcache
    simp only [store, hcache]

theorem compile_cache (u : CompUnit) : (c.compile u).1.cache = none := by
  unfold compile
  dsimp only
  split
  · exact hc
  · rw [produce_uncached hc]
    exact (build_cache c _ u).trans hc

theorem compile_generated {u : CompUnit} {art : Artifact} (h : (c.compile u).2 = .ok art) :
    art.Generated := by
  unfold compile at h
  dsimp only at h
  split at h
  · cases h
  · rename_i b _
    rw [produce_uncached hc] at h
    have hbuild : b.build u = .ok art := (build_snd c b u).symm.trans h
    obtain ⟨fns, g, -, hg, -, -, rfl⟩ := Backend.build_eq_ok.mp hbuild
    exact ⟨_, fns, _, g, b.target, hg, rfl⟩

/-- The name of a unit is only told in the failure of a compiler that has no backend for it. -/
theorem compile_rename (u : CompUnit) (name : String) :
    (c.compile { u with name }).1 = (c.compile u).1 ∧
      RelUpTo Failure.SameSort Eq (c.compile u).2 (c.compile { u with name }).2 := by
  unfold compile
  dsimp only
  cases c.backend? u.target.normalize with
  | none => exact ⟨rfl, rfl⟩
  | some b =>
    have hbuild : c.build b { u with name } = c.build b u := rfl
    simp only [produce_uncached hc, hbuild, true_and]
    exact .refl fun _ => rfl

end Compiler

/-! ## Sessions -/

/-- The module under the name that its own is changed to. -/
def Compiled.rename (f : String → String) (m : Compiled) : Compiled := { m with module := f m.module }

/-- The modules under the names that their own are changed to. -/
def Required.rename (f : String → String) (q : Required) : Required :=
  { q with modules := q.modules.map (Compiled.rename f) }

namespace Session

variable {s : Session} {c : Compiler} {f : String → String} {src : String}

/-- The answers are the same, apart from the names of modules, or the requests failed alike; the
sessions and the compilers are the same afterwards. -/
def SameAnswer {α : Type} (R : α → α → Prop) (x y : Session × Compiler × Result α) : Prop :=
  y.1 = x.1 ∧ y.2.1 = x.2.1 ∧ RelUpTo Failure.SameSort R x.2.2 y.2.2

theorem extend_rename (frame : Frame) (u : CompUnit) (name : String) (forms : List Form) :
    extend frame { u with name } forms =
      ((extend frame u forms).1, (extend frame u forms).2.map fun u => { u with name }) := by
  induction forms generalizing frame u with
  | nil => rfl
  | cons form forms ih =>
    unfold extend
    rcases takeForm frame form with ⟨frame', e | ⟨es, node⟩⟩
    · rfl
    · exact ih frame' { u with effects := u.effects ++ es, forms := u.forms ++ node.toList }

/-- Sources that are compiled as a unit under another name. -/
theorem compile_rename (hc : c.cache = none) (f : String → String) (module src : String) :
    SameAnswer (fun m m' => m' = m.rename f) (s.compile c module src)
      (s.compile c (f module) src) := by
  unfold Session.compile
  cases Form.readAll src with
  | error e => exact ⟨rfl, rfl, rfl⟩
  | ok forms =>
    have hextend := extend_rename s.frame { name := module, ns := s.ns, target := s.target } (f module)
      forms
    dsimp only at hextend ⊢
    rw [hextend]
    rcases extend s.frame { name := module, ns := s.ns, target := s.target } forms with
      ⟨frame, e | u⟩
    · exact ⟨rfl, rfl, rfl⟩
    · obtain ⟨hcompiler, hresult⟩ := Compiler.compile_rename hc u (f module)
      dsimp only [Except.map]
      generalize c.compile u = left at hcompiler hresult ⊢
      generalize c.compile { u with name := f module } = right at hcompiler hresult ⊢
      obtain ⟨c₁, e | art⟩ := left <;> obtain ⟨c₂, e' | art'⟩ := right
      · exact ⟨rfl, hcompiler, hresult⟩
      · exact hresult.elim
      · exact hresult.elim
      · obtain rfl : art = art' := hresult
        exact ⟨rfl, hcompiler, rfl⟩

/-- A compiled source is a generated module of the name that was asked for. -/
theorem compile_generated (hc : c.cache = none) (module src : String) :
    (s.compile c module src).2.1.cache = none ∧
      ∀ m, (s.compile c module src).2.2 = .ok m → m.artifact.Generated ∧ m.module = module := by
  unfold Session.compile
  split
  · exact ⟨hc, nofun⟩
  · split
    · exact ⟨hc, nofun⟩
    · rename_i u _
      refine ⟨Compiler.compile_cache hc u, fun m hm => ?_⟩
      cases hart : (c.compile u).2 with
      | error e =>
        dsimp only at hm
        rw [hart] at hm
        cases hm
      | ok art =>
        dsimp only at hm
        rw [hart] at hm
        cases hm
        exact ⟨Compiler.compile_generated hc hart, rfl⟩

/-! ### Requiring form by form -/

/-- The progress with its modules under the names that their own are changed to. -/
def Progress.rename (f : String → String) (p : Progress) : Progress :=
  { p with done := p.done.rename f }

/-- Both forms failed alike, or none did. -/
def SameEnd (x y : Progress × Option Failure) (f : String → String) : Prop :=
  y.1 = x.1.rename f ∧ Option.Rel Failure.SameSort x.2 y.2

theorem Progress.build_rename {p : Progress} (hp : p.compiler.cache = none) (f : String → String)
    (u : CompUnit) :
    SameEnd (p.build u) ((p.rename f).build { u with name := f u.name }) f := by
  obtain ⟨hcompiler, hresult⟩ := Compiler.compile_rename hp u (f u.name)
  have hsame : (p.rename f).compiler = p.compiler := rfl
  unfold Progress.build
  rw [hsame]
  generalize p.compiler.compile u = left at hcompiler hresult ⊢
  generalize p.compiler.compile { u with name := f u.name } = right at hcompiler hresult ⊢
  obtain ⟨c₁, e | art⟩ := left <;> obtain ⟨c₂, e' | art'⟩ := right
  · obtain rfl : c₂ = c₁ := hcompiler
    exact ⟨rfl, .some hresult⟩
  · exact hresult.elim
  · exact hresult.elim
  · obtain rfl : c₂ = c₁ := hcompiler
    obtain rfl : art = art' := hresult
    refine ⟨?_, .none⟩
    simp [Progress.rename, Required.rename, Compiled.rename]

theorem requireForm_rename {p : Progress} (hp : p.compiler.cache = none) (name : String)
    (form : Form) :
    SameEnd (s.requireForm p name form) (s.requireForm (p.rename f) (f name) form) f := by
  obtain ⟨e, h⟩ | ⟨es, node, q, hash, h, hdef, hq⟩ | ⟨es, node, h, hcurrent⟩ :=
    requireForm_cases s p form
  · rw [requireForm_error h, requireForm_error (p := p.rename f) h]
    exact ⟨rfl, .some rfl⟩
  · rw [requireForm_skip h hdef hq, requireForm_skip (p := p.rename f) h hdef hq]
    exact ⟨rfl, .none⟩
  · rw [requireForm_build h hcurrent, requireForm_build (p := p.rename f) h hcurrent]
    exact Progress.build_rename (p := { p with
      frame := (takeForm p.frame form).1, fresh := p.freshWith node }) hp f
      (s.part p.frame.ns name es node)

/-- What a form adds to the progress: at most a generated module of its name. -/
theorem requireForm_generated {p : Progress} (hp : p.compiler.cache = none) (name : String)
    (form : Form) :
    (s.requireForm p name form).1.compiler.cache = none ∧
      ∀ m ∈ (s.requireForm p name form).1.done.modules,
        m ∈ p.done.modules ∨ (m.artifact.Generated ∧ m.module = name) := by
  obtain ⟨e, h⟩ | ⟨es, node, q, hash, h, hdef, hq⟩ | ⟨es, node, h, hcurrent⟩ :=
    requireForm_cases s p form
  · rw [requireForm_error h]
    exact ⟨hp, fun m hm => .inl hm⟩
  · rw [requireForm_skip h hdef hq]
    exact ⟨hp, fun m hm => .inl hm⟩
  · rw [requireForm_build h hcurrent]
    have hcache := Compiler.compile_cache hp (s.part p.frame.ns name es node)
    have hmade : ∀ art, (p.compiler.compile (s.part p.frame.ns name es node)).2 = .ok art →
        art.Generated := fun _ => Compiler.compile_generated hp
    unfold Progress.build
    dsimp only
    generalize p.compiler.compile (s.part p.frame.ns name es node) = compiled at hcache hmade ⊢
    obtain ⟨c', e | art⟩ := compiled
    · exact ⟨hcache, fun m hm => .inl hm⟩
    · refine ⟨hcache, fun m hm => ?_⟩
      obtain hm | rfl := List.mem_append.mp hm |>.imp_right List.mem_singleton.mp
      · exact .inl hm
      · exact .inr ⟨hmade art rfl, rfl⟩

theorem requireForms_rename {stem other : String} (hf : ∀ i : Nat, f s!"{stem}.{i}" = s!"{other}.{i}")
    (i : Nat) {p : Progress} (hp : p.compiler.cache = none) (forms : List Form) :
    SameEnd (s.requireForms stem i p forms) (s.requireForms other i (p.rename f) forms) f := by
  induction forms generalizing p i with
  | nil => exact ⟨rfl, .none⟩
  | cons form forms ih =>
    have hform := requireForm_rename (s := s) (f := f) hp s!"{stem}.{i}" form
    have hcache := (requireForm_generated (s := s) hp s!"{stem}.{i}" form).1
    unfold requireForms
    rw [hf i] at hform
    generalize s.requireForm p s!"{stem}.{i}" form = left at hform hcache ⊢
    generalize s.requireForm (p.rename f) s!"{other}.{i}" form = right at hform ⊢
    obtain ⟨p₁, stop⟩ := left
    obtain ⟨p₂, stop'⟩ := right
    obtain ⟨rfl, hstop⟩ := hform
    cases hstop with
    | some hsort => exact ⟨rfl, .some hsort⟩
    | none => exact ih (i + 1) hcache

theorem requireForms_generated (stem : String) (i : Nat) {p : Progress}
    (hp : p.compiler.cache = none) (forms : List Form) :
    (s.requireForms stem i p forms).1.compiler.cache = none ∧
      ∀ m ∈ (s.requireForms stem i p forms).1.done.modules,
        m ∈ p.done.modules ∨ (m.artifact.Generated ∧ ∃ j : Nat, m.module = s!"{stem}.{j}") := by
  induction forms generalizing p i with
  | nil => exact ⟨hp, fun m hm => .inl hm⟩
  | cons form forms ih =>
    obtain ⟨hcache, hmodules⟩ := requireForm_generated (s := s) hp s!"{stem}.{i}" form
    have hfirst : ∀ m ∈ (s.requireForm p s!"{stem}.{i}" form).1.done.modules,
        m ∈ p.done.modules ∨ (m.artifact.Generated ∧ ∃ j : Nat, m.module = s!"{stem}.{j}") :=
      fun m hm => (hmodules m hm).imp_right fun h => ⟨h.1, i, h.2⟩
    unfold requireForms
    generalize s.requireForm p s!"{stem}.{i}" form = left at hcache hfirst ⊢
    obtain ⟨p₁, stop⟩ := left
    cases stop with
    | some e => exact ⟨hcache, hfirst⟩
    | none =>
      obtain ⟨hrest, hall⟩ := ih (i + 1) hcache
      exact ⟨hrest, fun m hm => (hall m hm).elim (hfirst m) .inr⟩

/-- Sources that are required under other names. -/
theorem require_rename (hc : c.cache = none) {stem other : String} (hstem : stem ≠ "")
    (hother : other ≠ "") (hf : ∀ n i : Nat, f (moduleName stem n i) = moduleName other n i)
    (src : String) :
    SameAnswer (fun q q' => q' = q.rename f) (s.require c stem src) (s.require c other src) := by
  unfold Session.require
  rw [if_neg hstem, if_neg hother]
  cases Form.readAll src with
  | error e => exact ⟨rfl, rfl, rfl⟩
  | ok forms =>
    have hforms := requireForms_rename (s := { s with requires := s.requires + 1 })
      (hf (s.requires + 1)) 1 (p := { frame := s.frame, compiler := c }) hc forms
    dsimp only
    have hstart : Progress.rename f { frame := s.frame, compiler := c } =
        { frame := s.frame, compiler := c } := rfl
    rw [hstart] at hforms
    generalize requireForms { s with requires := s.requires + 1 } s!"{stem}${s.requires + 1}" 1
      { frame := s.frame, compiler := c } forms = left at hforms ⊢
    generalize requireForms { s with requires := s.requires + 1 } s!"{other}${s.requires + 1}" 1
      { frame := s.frame, compiler := c } forms = right at hforms ⊢
    obtain ⟨p, stop⟩ := left
    obtain ⟨p', stop'⟩ := right
    obtain ⟨rfl, hstop⟩ := hforms
    cases hstop with
    | some hsort => exact ⟨rfl, rfl, hsort⟩
    | none => exact ⟨rfl, rfl, rfl⟩

/-- Required modules are generated ones with numbers in their names. -/
theorem require_generated (hc : c.cache = none) (stem src : String) :
    (s.require c stem src).2.1.cache = none ∧
      ∀ q, (s.require c stem src).2.2 = .ok q → ∀ m ∈ q.modules,
        m.artifact.Generated ∧ ∃ n i, m.module = moduleName stem n i := by
  unfold Session.require
  split
  · exact ⟨hc, nofun⟩
  · split
    · exact ⟨hc, nofun⟩
    · rename_i forms _
      obtain ⟨hcache, hmodules⟩ := requireForms_generated (s := { s with requires := s.requires + 1 })
        s!"{stem}${s.requires + 1}" 1 (p := { frame := s.frame, compiler := c }) hc forms
      dsimp only
      generalize requireForms { s with requires := s.requires + 1 } s!"{stem}${s.requires + 1}" 1
        { frame := s.frame, compiler := c } forms = out at hcache hmodules ⊢
      obtain ⟨p, e | _⟩ := out
      · refine ⟨hcache, fun q hq m hm => ?_⟩
        cases hq
        obtain ⟨hart, i, hname⟩ := (hmodules m hm).resolve_left List.not_mem_nil
        exact ⟨hart, s.requires + 1, i, hname⟩
      · exact ⟨hcache, nofun⟩

end Session

end WasmLisp
