import Mathlib
import WasmLisp.Proofs.Frame

/-!
# Which names there are

A directory is what is left of an environment if one leaves out what names stand for: its namespaces
with their aliases and refers, and the names under which vars are interned. Declarations and effects
change different parts of it, so it does not matter in which order they happen.

* `Env.directory`: the directory of an environment;
* `Env.directory_intern`, `Frame.directory_apply`: what declarations and effects make of it;
* `Directory.effects_declare`: they commute.
-/

namespace WasmLisp

/-- Namespaces with their aliases and refers, and the names of vars. -/
@[ext] structure Directory where
  namespaces : Set String
  aliases : String → Table String
  refers : String → Table String
  vars : Set (String × String)

/-! ## Changes -/

namespace Directory

variable {V W : Set (String × String)}

/-- Makes sure of namespaces. -/
def ensure (d : Directory) (names : Set String) : Directory :=
  { d with namespaces := d.namespaces ∪ names }

/-- Interns vars, each in its namespace. -/
def declare (d : Directory) (V : Set (String × String)) : Directory :=
  { d with namespaces := d.namespaces ∪ Prod.fst '' V, vars := d.vars ∪ V }

/-- Makes an alias in a namespace, unless there is one. -/
def withAlias (d : Directory) (ns name target : String) : Directory :=
  let known := d.aliases ns
  let named := if known.contains name then known else known.insert name target
  { d with aliases := Function.update d.aliases ns named }

/-- Refers to a name of another namespace. -/
def withRefer (d : Directory) (ns name source : String) : Directory :=
  { d with refers := Function.update d.refers ns (Table.insert name source (d.refers ns)) }

/-- Carries out an effect that is not refused. -/
def effect (d : Directory) (e : Effect) : Directory :=
  if e.kind = .switchNs ∨ e.kind = .require then d.ensure {e.ns}
  else if e.kind = .nickname then (d.ensure {e.target, e.ns}).withAlias e.ns e.name e.target
  else if e.kind = .refer then (d.ensure {e.ns}).withRefer e.ns e.name e.target
  else d

/-- Carries out effects in order. -/
def effects (d : Directory) (es : List Effect) : Directory := es.foldl effect d

theorem effects_append (d : Directory) (es es' : List Effect) :
    d.effects (es ++ es') = (d.effects es).effects es' := List.foldl_append

@[simp] theorem declare_empty (d : Directory) : d.declare ∅ = d := by
  simp [declare]

theorem declare_declare (d : Directory) (V W : Set (String × String)) :
    (d.declare V).declare W = d.declare (V ∪ W) := by
  simp only [declare, Set.image_union, Set.union_assoc]

theorem declare_comm (d : Directory) (V W : Set (String × String)) :
    (d.declare V).declare W = (d.declare W).declare V := by
  rw [declare_declare, declare_declare, Set.union_comm]

theorem ensure_declare (d : Directory) (names : Set String) (V : Set (String × String)) :
    (d.declare V).ensure names = (d.ensure names).declare V :=
  Directory.ext (Set.union_right_comm _ _ _) rfl rfl rfl

/-- It only matters which vars there are in the end. -/
theorem declare_eq_of_union {d : Directory} (hd : Prod.fst '' d.vars ⊆ d.namespaces)
    (h : V ∪ d.vars = W ∪ d.vars) : d.declare V = d.declare W := by
  have hnames : ∀ V : Set (String × String),
      d.namespaces ∪ Prod.fst '' V = d.namespaces ∪ Prod.fst '' (V ∪ d.vars) := by
    intro V
    rw [Set.image_union, ← Set.union_assoc, Set.union_right_comm,
      Set.union_eq_self_of_subset_right hd]
  refine Directory.ext ?_ rfl rfl ?_
  · exact (hnames V).trans ((congrArg (fun X => d.namespaces ∪ Prod.fst '' X) h).trans (hnames W).symm)
  · exact (Set.union_comm _ _).trans (h.trans (Set.union_comm _ _))

theorem effect_declare (d : Directory) (e : Effect) (V : Set (String × String)) :
    (d.declare V).effect e = (d.effect e).declare V := by
  unfold effect
  split
  · exact Directory.ext (Set.union_right_comm _ _ _) rfl rfl rfl
  split
  · exact Directory.ext (Set.union_right_comm _ _ _) rfl rfl rfl
  split
  · exact Directory.ext (Set.union_right_comm _ _ _) rfl rfl rfl
  · rfl

/-- Declarations and effects commute. -/
theorem effects_declare (d : Directory) (es : List Effect) (V : Set (String × String)) :
    (d.declare V).effects es = (d.effects es).declare V := by
  induction es generalizing d with
  | nil => rfl
  | cons e es ih =>
    simp only [effects, List.foldl_cons] at ih ⊢
    rw [effect_declare]
    exact ih (d.effect e)

theorem vars_effects (d : Directory) (es : List Effect) : (d.effects es).vars = d.vars := by
  have hone : ∀ (d : Directory) e, (d.effect e).vars = d.vars := by
    intro d e
    unfold effect
    split
    · rfl
    split
    · rfl
    split <;> rfl
  induction es generalizing d with
  | nil => rfl
  | cons e es ih => exact (ih (d.effect e)).trans (hone d e)

/-- Namespaces stay. -/
theorem subset_effects (d : Directory) (es : List Effect) :
    d.namespaces ⊆ (d.effects es).namespaces := by
  have hone : ∀ (d : Directory) e, d.namespaces ⊆ (d.effect e).namespaces := by
    intro d e
    unfold effect
    split
    · exact Set.subset_union_left
    split
    · exact Set.subset_union_left
    split
    · exact Set.subset_union_left
    · exact subset_rfl
  induction es generalizing d with
  | nil => exact subset_rfl
  | cons e es ih => exact (hone d e).trans (ih (d.effect e))

end Directory

namespace Env

variable {e : Env}

/-- The directory of an environment. -/
def directory (e : Env) : Directory where
  namespaces := {ns | (e.find? ns).isSome}
  aliases ns := ((e.find? ns).getD {}).aliases
  refers ns := ((e.find? ns).getD {}).refers
  vars := {q | (e.lookup? q.1 q.2).isSome}

/-- The namespace of a var is there. -/
theorem fst_mem_namespaces {q : String × String} (h : q ∈ e.directory.vars) :
    q.1 ∈ e.directory.namespaces := by
  obtain ⟨id, hid⟩ := Option.isSome_iff_exists.mp h
  simp only [lookup?, bind, Option.bind_eq_some_iff] at hid
  obtain ⟨n, hn, -⟩ := hid
  exact Option.isSome_iff_exists.mpr ⟨n, hn⟩

/-- What is declared anew was declared. -/
theorem declare_of_subset {V : Set (String × String)} (h : V ⊆ e.directory.vars) :
    e.directory.declare V = e.directory := by
  have hnames : Prod.fst '' V ⊆ e.directory.namespaces := by
    rintro _ ⟨q, hq, rfl⟩
    exact fst_mem_namespaces (h hq)
  exact Directory.ext (Set.union_eq_self_of_subset_right hnames) rfl rfl
    (Set.union_eq_self_of_subset_right h)

/-- The directory after a change of a namespace. -/
theorem directory_update (e : Env) (ns : String) (f : Namespace → Namespace) :
    (e.update ns f).directory =
      { namespaces := e.directory.namespaces ∪ {ns}
        aliases := Function.update e.directory.aliases ns (f ((e.find? ns).getD {})).aliases
        refers := Function.update e.directory.refers ns (f ((e.find? ns).getD {})).refers
        vars := {q | if q.1 = ns then ((f ((e.find? ns).getD {})).vars.get? q.2).isSome
                     else (e.lookup? q.1 q.2).isSome} } := by
  refine Directory.ext ?_ ?_ ?_ ?_
  · ext ns'
    simp only [directory, find?_update, Set.mem_ofPred_eq, Set.mem_union, Set.mem_singleton_iff]
    split <;> simp_all
  · funext ns'
    simp only [directory, find?_update, Function.update_apply]
    split <;> rfl
  · funext ns'
    simp only [directory, find?_update, Function.update_apply]
    split <;> rfl
  · ext q
    simp only [directory, lookup?_update, Set.mem_ofPred_eq]
    split <;> rfl

/-- The directory after a change that leaves vars alone. -/
theorem directory_update_of_vars {f : Namespace → Namespace} (hf : ∀ n, (f n).vars = n.vars)
    (e : Env) (ns : String) :
    (e.update ns f).directory =
      { namespaces := e.directory.namespaces ∪ {ns}
        aliases := Function.update e.directory.aliases ns (f ((e.find? ns).getD {})).aliases
        refers := Function.update e.directory.refers ns (f ((e.find? ns).getD {})).refers
        vars := e.directory.vars } := by
  rw [directory_update]
  congr 1
  ext q
  have hsame := lookup?_update_of_vars hf e ns q.1 q.2
  rw [lookup?_update] at hsame
  change _ ↔ (e.lookup? q.1 q.2).isSome = true
  rw [← hsame, Set.mem_ofPred_eq]
  split <;> exact .rfl

theorem directory_ensure (e : Env) (ns : String) :
    (e.ensure ns).directory = e.directory.ensure {ns} := by
  have hfind : ∀ ns', (e.ensure ns).find? ns' = (e.update ns id).find? ns' := find?_ensure e ns
  have hsame : (e.ensure ns).directory = (e.update ns id).directory := by
    simp only [directory, lookup?, hfind]
  rw [hsame, directory_update_of_vars (f := id) fun _ => rfl]
  refine Directory.ext rfl ?_ ?_ rfl
  · exact Function.update_eq_self ns e.directory.aliases
  · exact Function.update_eq_self ns e.directory.refers

/-- Cells are no part of the directory. -/
theorem directory_modifyCell (e : Env) (id : Nat) (f : Var → Var) :
    (e.modifyCell id f).directory = e.directory := rfl

/-- Interning declares a var. -/
theorem directory_intern (e : Env) (ns name : String) (kind : VarKind) (arity : Int) :
    (e.intern ns name kind arity).1.directory = e.directory.declare {(ns, name)} := by
  unfold intern
  split
  · rename_i id hid
    rw [directory_modifyCell, declare_of_subset]
    exact Set.singleton_subset_iff.mpr (Option.isSome_iff_exists.mpr ⟨id, hid⟩)
  · rename_i hnone
    have hcells : ∀ (e : Env) cells, ({ e with cells } : Env).directory = e.directory := fun _ _ => rfl
    dsimp only
    rw [hcells, directory_update]
    refine Directory.ext ?_ ?_ ?_ ?_
    · simp [Directory.declare]
    · exact Function.update_eq_self ns e.directory.aliases
    · exact Function.update_eq_self ns e.directory.refers
    · ext ⟨ns', name'⟩
      simp only [Directory.declare, directory, Set.mem_ofPred_eq, Set.mem_union, Set.mem_singleton_iff,
        Prod.mk.injEq, Table.get?_insert]
      by_cases hns : ns' = ns
      · subst hns
        by_cases hname : name' = name
        · simp [hname]
        · simp only [if_true, hname, and_false, or_false, lookup?]
          cases e.find? ns' with
          | none => exact .rfl
          | some n => exact .rfl
      · simp [hns]

theorem directory_addRefer (e : Env) (ns name source : String) :
    (e.addRefer ns name source).directory = (e.directory.ensure {ns}).withRefer ns name source := by
  rw [addRefer, directory_update_of_vars]
  swap
  · exact fun _ => rfl
  refine Directory.ext rfl ?_ rfl rfl
  exact Function.update_eq_self ns e.directory.aliases

/-- An alias that is not refused. -/
theorem directory_addAlias {ns name target : String} (h : (e.addAlias ns name target).2 = none)
    (hns : ns ∈ e.directory.namespaces) :
    (e.addAlias ns name target).1.directory = e.directory.withAlias ns name target := by
  obtain ⟨n, hn⟩ := Option.isSome_iff_exists.mp hns
  have haliases : e.directory.aliases ns = n.aliases := by simp [directory, hn]
  unfold addAlias at h ⊢
  unfold Directory.withAlias
  rw [hn] at h ⊢
  rw [haliases]
  simp only [Option.bind_some] at h ⊢
  split at h
  · rename_i existing hexisting
    split at h
    · rename_i heq
      simp only [hexisting, heq, if_true, Table.contains, Option.isSome_some]
      refine Directory.ext rfl ?_ rfl rfl
      exact (haliases ▸ Function.update_eq_self ns e.directory.aliases).symm
    · cases h
  · rename_i hnone
    simp only [hnone, Table.contains, Option.isSome_none, Bool.false_eq_true, if_false]
    rw [directory_update_of_vars, hn]
    swap
    · exact fun _ => rfl
    refine Directory.ext ?_ rfl ?_ rfl
    · exact Set.union_eq_self_of_subset_right (Set.singleton_subset_iff.mpr hns)
    · have hrefers : e.directory.refers ns = n.refers := by simp [directory, hn]
      exact hrefers ▸ Function.update_eq_self ns e.directory.refers

end Env

/-! ## Frames -/

namespace Frame

/-- The namespace that is current after effects. -/
def nsAfter (ns : String) (es : List Effect) : String :=
  es.foldl (fun ns e => if e.kind = .switchNs then e.ns else ns) ns

theorem nsAfter_append (ns : String) (es es' : List Effect) :
    nsAfter ns (es ++ es') = nsAfter (nsAfter ns es) es' := List.foldl_append

theorem directory_applyOne {f f' : Frame} {e : Effect} (h : f.applyOne e = (f', none)) :
    f'.env.directory = f.env.directory.effect e ∧ f'.ns = nsAfter f.ns [e] := by
  unfold applyOne at h
  unfold Directory.effect nsAfter
  simp only [List.foldl_cons, List.foldl_nil]
  split at h
  · rename_i hkind
    cases h
    rw [if_pos (.inl hkind), if_pos hkind]
    exact ⟨Env.directory_ensure f.env e.ns, rfl⟩
  rename_i hswitch
  rw [if_neg hswitch]
  split at h
  · rename_i hkind
    cases h
    rw [if_pos (.inr hkind)]
    exact ⟨Env.directory_ensure f.env e.ns, rfl⟩
  rename_i hrequire
  rw [if_neg (not_or.mpr ⟨hswitch, hrequire⟩)]
  split at h
  · rename_i hkind
    rw [if_pos hkind]
    dsimp only at h
    obtain ⟨rfl, hfault⟩ := Prod.mk.inj h
    refine ⟨?_, rfl⟩
    rw [Env.directory_addAlias hfault]
    · rw [Env.directory_ensure, Env.directory_ensure]
      refine Directory.ext ?_ rfl rfl rfl
      simp only [Directory.withAlias, Directory.ensure, Set.union_assoc, Set.singleton_union]
    · exact Env.find?_isSome_ensure_self _ e.ns
  rename_i hnickname
  rw [if_neg hnickname]
  split at h
  · rename_i hkind
    cases h
    rw [if_pos hkind]
    exact ⟨Env.directory_addRefer f.env e.ns e.name e.target, rfl⟩
  · cases h

/-- Effects that are carried out. -/
theorem directory_apply {f f' : Frame} {es : List Effect} (h : f.apply es = (f', none)) :
    f'.env.directory = f.env.directory.effects es ∧ f'.ns = nsAfter f.ns es := by
  induction es generalizing f with
  | nil =>
    cases h
    exact ⟨rfl, rfl⟩
  | cons e es ih =>
    unfold apply at h
    split at h
    · rename_i f₁ hone
      obtain ⟨hdirectory, hns⟩ := directory_applyOne hone
      obtain ⟨hrest, hrestNs⟩ := ih h
      rw [hdirectory] at hrest
      rw [hns] at hrestNs
      exact ⟨hrest, hrestNs⟩
    · cases h

end Frame

end WasmLisp
