import Mathlib
import WasmLisp.Proofs.Codegen.Module
import WasmLisp.Proofs.Engine.Instances
import WasmLisp.Proofs.Engine.Singular

/-!
# Which provider an import is bound to

* `Engine.Chosen`: a module that an import can be bound to, by the table that it was found in;
* `Engine.resolveImport_eq_ok`: an import that is bound is bound to a module that was chosen so;
* `Engine.resolveAll_eq_ok`: what the plan for all imports of an artifact says, and
  `Engine.Plan.target_of_choices`: which module it has an import come from.
-/

namespace WasmLisp.Engine

open Artifact (envModule varModule varDefModule)

variable {e e₁ e₂ : Engine} {name : String} {info : Binary.Info} {i : Binary.Import} {p p' : Plan}

/-- A module that provides what an import of `env` wants: an instance of a registered symbol, a module
that owns the global, or the module that defines the function. -/
inductive Provided (e : Engine) (x : String) (w : Want) (m : String) : Prop where
  | registered (r : Registry.Record) (hr : e.registry.resolve? x = some r)
    (hkind : r.symbol.kind = w.kind) (harity : w.kind = .function → r.symbol.arity = w.arity)
    (hm : e.symbols.get? x = some m)
  | global (hkind : w.kind = .data) (hm : e.globals.get? x = some m)
  | defined (hkind : w.kind ≠ .data) (hm : e.funcs.get? x = some { module := m, arity := w.arity })

/-- A module that an import of the artifact of a name can be bound to. -/
inductive Chosen (e : Engine) (name : String) (info : Binary.Info) (i : Binary.Import) (m : String) :
    Prop where
  | env (hi : i.module = envModule) (w : Want) (hw : want? info i = some w)
    (hm : e.Provided i.name w m)
  | var (hi : i.module = varModule) (hm : m = name ++ "#var")
  | varDef (hi : i.module = varDefModule) (hm : m = name ++ "#var.def")

/-- What an import of `env` is bound to. -/
theorem Chosen.of_env {m : String} (h : e.Chosen name info i m) (hi : i.module = envModule) :
    ∃ w, want? info i = some w ∧ e.Provided i.name w m := by
  cases h with
  | env _ w hw hm => exact ⟨w, hw, hm⟩
  | var hi' _ => exact absurd (hi.symm.trans hi') (by decide)
  | varDef hi' _ => exact absurd (hi.symm.trans hi') (by decide)

/-- What reads a var is bound to. -/
theorem Chosen.of_var {m : String} (h : e.Chosen name info i m) (hi : i.module = varModule) :
    m = name ++ "#var" := by
  cases h with
  | env hi' _ _ _ => exact absurd (hi.symm.trans hi') (by decide)
  | var _ hm => exact hm
  | varDef hi' _ => exact absurd (hi.symm.trans hi') (by decide)

/-- What binds a var is bound to. -/
theorem Chosen.of_varDef {m : String} (h : e.Chosen name info i m) (hi : i.module = varDefModule) :
    m = name ++ "#var.def" := by
  cases h with
  | env hi' _ _ _ => exact absurd (hi.symm.trans hi') (by decide)
  | var hi' _ => exact absurd (hi.symm.trans hi') (by decide)
  | varDef _ hm => exact hm

theorem fromRegistry_eq_ok {w : Want} (h : e.fromRegistry name i w p = some (.ok p')) :
    ∃ m, p'.remap = ((i.module, i.name), m) :: p.remap ∧ p'.reads = p.reads ∧ p'.defs = p.defs ∧
      e.Provided i.name w m := by
  unfold fromRegistry at h
  cases hr : e.registry.resolve? i.name with
  | none =>
    rw [hr] at h
    cases h
  | some r =>
    rw [hr] at h
    simp only [bind, Option.bind_some, pure, Option.some.injEq] at h
    split at h
    · cases h
    rename_i hkind
    split at h
    · cases h
    rename_i harity
    split at h
    · cases h
    · rename_i m hm
      cases h
      refine ⟨m, rfl, rfl, rfl, .registered r hr (not_not.mp hkind) (fun hfn => ?_) hm⟩
      by_contra hne
      simp [hfn, hne] at harity

theorem fromModules_eq_ok {w : Want} (h : e.fromModules name i w p = some (.ok p')) :
    ∃ m, p'.remap = ((i.module, i.name), m) :: p.remap ∧ p'.reads = p.reads ∧ p'.defs = p.defs ∧
      e.Provided i.name w m := by
  unfold fromModules at h
  split at h
  · rename_i hkind
    obtain ⟨owner, howner, heq⟩ := Option.map_eq_some_iff.mp h
    cases heq
    exact ⟨owner, rfl, rfl, rfl, .global hkind howner⟩
  · rename_i hkind
    obtain ⟨provider, hprovider, heq⟩ := Option.map_eq_some_iff.mp h
    split at heq
    · cases heq
    · rename_i harity
      cases heq
      obtain ⟨m, arity⟩ := provider
      obtain rfl : arity = w.arity := not_not.mp harity
      exact ⟨m, rfl, rfl, rfl, .defined hkind hprovider⟩

theorem resolveEnv_eq_ok (h : e.resolveEnv name info i p = (e₁, .ok p')) :
    ∃ m w, want? info i = some w ∧ p'.remap = ((i.module, i.name), m) :: p.remap ∧
      p'.reads = p.reads ∧ p'.defs = p.defs ∧ e₁.Provided i.name w m := by
  unfold resolveEnv at h
  split at h
  · cases h
  rename_i w hw
  refine Exists.imp (fun m hm => ⟨w, hw, hm⟩) ?_
  split at h
  · rename_i r hr
    cases h
    obtain hregistry | ⟨-, hmodules⟩ := Option.or_eq_some_iff.mp hr
    · exact fromRegistry_eq_ok hregistry
    · exact fromModules_eq_ok hmodules
  · cases hcatalog : e.fromCatalog name i w p with
    | none =>
      rw [hcatalog] at h
      cases h
    | some found =>
      rw [hcatalog] at h
      simp only [Option.getD_some] at h
      subst h
      simp only [fromCatalog, bind, Option.bind_eq_some_iff] at hcatalog
      obtain ⟨c, -, ⟨symbol, lib⟩, -, hcatalog⟩ := hcatalog
      split at hcatalog
      · cases hcatalog
      · obtain ⟨r, hr, heq⟩ := Option.map_eq_some_iff.mp hcatalog
        cases heq
        exact fromRegistry_eq_ok hr

/-- What it means that an import is bound. -/
theorem resolveImport_eq_ok (h : e.resolveImport name info i p = (e₁, .ok p')) :
    ∃ m, p'.remap = ((i.module, i.name), m) :: p.remap ∧ e₁.Chosen name info i m ∧
      p'.reads = p.reads ++ (if i.module = varModule then [i.name] else []) ∧
      p'.defs = p.defs ++ (if i.module = varDefModule then [i.name] else []) := by
  unfold resolveImport at h
  split at h
  · rename_i henv
    obtain ⟨m, w, hw, hremap, hreads, hdefs, hm⟩ := resolveEnv_eq_ok h
    refine ⟨m, hremap, .env henv w hw hm, ?_, ?_⟩
    · rw [henv, if_neg (by decide), List.append_nil, hreads]
    · rw [henv, if_neg (by decide), List.append_nil, hdefs]
  · split at h
    · rename_i hvar
      cases h
      refine ⟨_, rfl, .var hvar rfl, by rw [if_pos hvar], ?_⟩
      rw [hvar, if_neg (by decide), List.append_nil]
      rfl
    split at h
    · rename_i hvarDef
      cases h
      refine ⟨_, rfl, .varDef hvarDef rfl, ?_, by rw [if_pos hvarDef]⟩
      rw [hvarDef, if_neg (by decide), List.append_nil]
      rfl
    · cases h

/-- A registered symbol stays what it is. -/
theorem resolve?_resolveImport {x : String} {r : Registry.Record}
    (hr : e.registry.resolve? x = some r) (i : Binary.Import) (p : Plan) :
    (e.resolveImport name info i p).1.registry.resolve? x = some r := by
  obtain heq | ⟨_, _, _, _, registry, -, -, hregister, heq⟩ :=
    resolveImport_cases e name info i p
  · rw [heq]
    exact hr
  · rw [heq, registry_materialize]
    obtain rfl | ⟨-, added, -, hrecords⟩ := Registry.register_cases hregister
    · exact hr
    · unfold Registry.resolve? at hr ⊢
      rw [hrecords, List.find?_append, hr]
      rfl

/-- The key that an import is found by in a plan. -/
def importKey (i : Binary.Import) : String × String := (i.module, i.name)

/-- The names that imports from a module have. -/
def namesFrom (module : String) (imports : List Binary.Import) : List String :=
  (imports.filter (·.module = module)).map (·.name)

/-- A provider that was chosen stays one while the providers of other imports are looked for. -/
theorem Chosen.resolveImport {m : String} {j : Binary.Import} (h : e.Chosen name info j m)
    (hsingular : e.Singular) (i : Binary.Import) (p : Plan) :
    (e.resolveImport name info i p).1.Chosen name info j m := by
  have hlater := (hsingular.resolveImport name info i p).2.1
  have htables := (searched_resolveImport e name info i p).tables
  cases h with
  | var hj hm => exact .var hj hm
  | varDef hj hm => exact .varDef hj hm
  | env hj w hw hm =>
    refine .env hj w hw ?_
    cases hm with
    | registered r hr hkind harity hm =>
      exact .registered r (resolve?_resolveImport hr i p) hkind harity (hlater.symbols _ _ hm)
    | global hkind hm => exact .global hkind (htables.globals ▸ hm)
    | defined hkind hm => exact .defined hkind (htables.funcs ▸ hm)

/-- What the plan for several imports says, given a property `P` that every module which is chosen for
an import has and keeps: each import is bound to a module that has it in the end, and what was bound
last comes first. -/
theorem resolveAll_eq_ok {motive : Engine → Prop} {P : Engine → Binary.Import → String → Prop}
    (hstep : ∀ e i p, motive e → motive (e.resolveImport name info i p).1)
    (hchosen : ∀ e i m, motive e → e.Chosen name info i m → P e i m)
    (hkeep : ∀ e i p j m, motive e → P e j m → P (e.resolveImport name info i p).1 j m)
    (hm : motive e) {imports : List Binary.Import}
    (h : e.resolveAll name info p imports = (e₁, .ok p')) :
    ∃ choices, List.Forall₂ (P e₁) imports choices ∧
      p'.remap = ((imports.map importKey).zip choices).reverse ++ p.remap ∧
      p'.reads = p.reads ++ namesFrom varModule imports ∧
      p'.defs = p.defs ++ namesFrom varDefModule imports := by
  induction imports generalizing e p with
  | nil =>
    cases h
    exact ⟨[], .nil, by simp, by simp [namesFrom], by simp [namesFrom]⟩
  | cons i imports ih =>
    unfold resolveAll at h
    cases hi : e.resolveImport name info i p with
    | mk e₂ r =>
      have hm' := hstep e i p hm
      rw [hi] at h hm'
      cases r with
      | error failure => cases h
      | ok p₂ =>
        obtain ⟨m, hremap, hfirst, hreads, hdefs⟩ := resolveImport_eq_ok hi
        obtain ⟨choices, hall, hremap', hreads', hdefs'⟩ := ih hm' h
        -- the choice for the first import outlasts the search for the others
        have hkept := resolveAll_induction (motive := fun e => motive e ∧ P e i m)
          (fun e j p he => ⟨hstep e j p he.1, hkeep e j p i m he.1 he.2⟩)
          imports p₂ ⟨hm', hchosen e₂ i m hm' hfirst⟩
        rw [show e₂.resolveAll name info p₂ imports = (e₁, .ok p') from h] at hkept
        refine ⟨m :: choices, .cons hkept.2 hall, ?_, ?_, ?_⟩
        · rw [hremap', hremap]
          simp [importKey]
        · rw [hreads', hreads, List.append_assoc]
          congr 1
          unfold namesFrom
          rw [List.filter_cons]
          split <;> simp_all
        · rw [hdefs', hdefs, List.append_assoc]
          congr 1
          unfold namesFrom
          rw [List.filter_cons]
          split <;> simp_all

/-- The module that a plan has an import come from was chosen for an import of its name. -/
theorem Plan.target_of_choices {P : Binary.Import → String → Prop} {imports : List Binary.Import}
    {choices : List String} (h : List.Forall₂ P imports choices) {p : Plan}
    (hremap : p.remap = ((imports.map importKey).zip choices).reverse) (hi : i ∈ imports) :
    ∃ j ∈ imports, importKey j = importKey i ∧ P j (p.target i.module i.name) := by
  have hpair : ∀ key m, (key, m) ∈ (imports.map importKey).zip choices →
      ∃ j ∈ imports, importKey j = key ∧ P j m := by
    intro key m hmem
    obtain ⟨k, hk⟩ := List.getElem?_of_mem hmem
    obtain ⟨hkey, hm⟩ := List.getElem?_zip_eq_some.mp hk
    rw [List.getElem?_map] at hkey
    obtain ⟨j, hj, hkey⟩ := Option.map_eq_some_iff.mp hkey
    obtain ⟨m', hm', hP⟩ := Codegen.forall₂_getElem? h hj
    cases hm'.symm.trans hm
    exact ⟨j, List.mem_of_getElem? hj, hkey, hP⟩
  cases hlookup : p.remap.lookup (i.module, i.name) with
  | none =>
    -- every import is in the plan
    rw [hremap, List.lookup_eq_none_iff] at hlookup
    obtain ⟨k, hk⟩ := List.getElem?_of_mem hi
    obtain ⟨m, hm, -⟩ := Codegen.forall₂_getElem? h hk
    have hmem : (importKey i, m) ∈ (imports.map importKey).zip choices := by
      refine List.mem_of_getElem? (i := k) ?_
      rw [List.getElem?_zip_eq_some]
      exact ⟨by rw [List.getElem?_map, hk]; rfl, hm⟩
    have hne := hlookup _ (List.mem_reverse.mpr hmem)
    simp [importKey] at hne
  | some m =>
    rw [Plan.target, hlookup, Option.getD_some]
    obtain ⟨before, after, hsplit, -⟩ := List.lookup_eq_some_iff.mp hlookup
    refine hpair _ _ ?_
    rw [← List.mem_reverse, ← hremap, hsplit]
    simp [importKey]

end WasmLisp.Engine
