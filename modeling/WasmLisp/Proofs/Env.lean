import Mathlib
import WasmLisp.Env

/-!
# What names stand for

* `Env.Tidy`: every name of a namespace stands for a var of that name, so no two share a cell;
* `Env.Alike`: names stand for equal vars in two environments, whatever the cells and however many
  of them are out of use;
* `Env.Grown`: what declarations and effects leave of an environment;
* `Env.Grown.restore`: to take back declarations then gives back what every name stood for.
-/

namespace WasmLisp

/-- The keys after an insertion depend on the keys before it only. -/
theorem Table.keys_insert_congr {α β : Type} {t : Table α} {t' : Table β} (h : t.keys = t'.keys)
    (k : String) (v : α) (v' : β) : (t.insert k v).keys = (t'.insert k v').keys := by
  induction t generalizing t' with
  | nil =>
    cases t' with
    | nil => rfl
    | cons e rest => cases h
  | cons e t ih =>
    cases t' with
    | nil => cases h
    | cons e' t' =>
      obtain ⟨hkey, hrest⟩ := List.cons.inj h
      simp only [insert, hkey]
      split
      · exact congrArg (k :: ·) hrest
      · split
        · exact congrArg (k :: e'.1 :: ·) hrest
        · exact congrArg (e'.1 :: ·) (ih hrest)

theorem Table.mem_of_get? {α : Type} {t : Table α} {k : String} {v : α} (h : t.get? k = some v) :
    (k, v) ∈ t := by
  induction t with
  | nil => cases h
  | cons e t ih =>
    obtain ⟨k', v'⟩ := e
    unfold get? at h ih
    rw [List.lookup_cons] at h
    split at h
    · rename_i heq
      cases h
      exact List.mem_cons.mpr (.inl (by rw [beq_iff_eq.mp heq]))
    · exact List.mem_cons_of_mem _ (ih h)

namespace Env

variable {e e' : Env} {ns name text : String}

/-- The var that a name of a namespace stands for. -/
def named? (e : Env) (ns name : String) : Option Var := (e.lookup? ns name).bind e.cell?

/-- The var that a symbol stands for as a namespace sees it. -/
def resolved? (e : Env) (current text : String) : Option Var :=
  (e.resolve? current text).bind e.cell?

/-- The names of the vars of a namespace, its aliases and its refers. -/
def outline (e : Env) (ns : String) : Option (List String × Table String × Table String) :=
  (e.find? ns).map fun n => (n.vars.keys, n.aliases, n.refers)

/-! ## Single changes -/

theorem find?_update (e : Env) (ns ns' : String) (f : Namespace → Namespace) :
    (e.update ns f).find? ns' =
      if ns' = ns then some (f ((e.find? ns).getD {})) else e.find? ns' :=
  Table.get?_insert _ _ _ _

/-- To make sure of a namespace is to change nothing in it. -/
theorem find?_ensure (e : Env) (ns ns' : String) :
    (e.ensure ns).find? ns' = (e.update ns id).find? ns' := by
  rw [find?_update, ensure]
  split
  · rename_i hc
    obtain ⟨n, hn⟩ := Option.isSome_iff_exists.mp hc
    split
    · rename_i heq
      subst heq
      have hf : e.find? ns' = some n := hn
      simp [hf]
    · rfl
  · rename_i hc
    have hn : e.find? ns = none := by simpa [Table.contains, find?] using hc
    rw [hn]
    exact Table.get?_insert _ _ _ _

theorem lookup?_of_find? {n : Namespace} (h : e.find? ns = some n) (name : String) :
    e.lookup? ns name = n.vars.get? name := by
  simp [lookup?, h]

theorem lookup?_update (e : Env) (ns ns' name : String) (f : Namespace → Namespace) :
    (e.update ns f).lookup? ns' name =
      if ns' = ns then (f ((e.find? ns).getD {})).vars.get? name else e.lookup? ns' name := by
  simp only [lookup?, find?_update]
  split <;> rfl

/-- A change that leaves the vars of its namespace alone leaves those of all namespaces alone. -/
theorem lookup?_update_of_vars {f : Namespace → Namespace} (hf : ∀ n, (f n).vars = n.vars)
    (e : Env) (ns ns' name : String) : (e.update ns f).lookup? ns' name = e.lookup? ns' name := by
  rw [lookup?_update]
  split
  · rename_i heq
    subst heq
    rw [hf, lookup?]
    cases e.find? ns' <;> rfl
  · rfl

theorem lookup?_ensure (e : Env) (ns ns' name : String) :
    (e.ensure ns).lookup? ns' name = e.lookup? ns' name := by
  rw [lookup?, find?_ensure]
  exact lookup?_update_of_vars (fun _ => rfl) e ns ns' name

@[simp] theorem cells_ensure (e : Env) (ns : String) : (e.ensure ns).cells = e.cells := by
  unfold ensure
  split <;> rfl

@[simp] theorem cells_update (e : Env) (ns : String) (f : Namespace → Namespace) :
    (e.update ns f).cells = e.cells := rfl

@[simp] theorem cells_addAlias (e : Env) (ns nickname target : String) :
    (e.addAlias ns nickname target).1.cells = e.cells := by
  unfold addAlias
  split
  · split <;> rfl
  · rfl

theorem lookup?_addAlias (e : Env) (ns nickname target ns' name : String) :
    (e.addAlias ns nickname target).1.lookup? ns' name = e.lookup? ns' name := by
  unfold addAlias
  split
  · split <;> rfl
  · apply lookup?_update_of_vars
    intro n
    rfl

@[simp] theorem cells_addRefer (e : Env) (ns name source : String) :
    (e.addRefer ns name source).cells = e.cells := rfl

theorem lookup?_addRefer (e : Env) (ns name source ns' name' : String) :
    (e.addRefer ns name source).lookup? ns' name' = e.lookup? ns' name' := by
  apply lookup?_update_of_vars
  intro n
  rfl

theorem cell?_modifyCell (e : Env) (id id' : Nat) (f : Var → Var) :
    (e.modifyCell id f).cell? id' = if id = id' then (e.cell? id').map f else e.cell? id' := by
  simp only [cell?, modifyCell, Array.getElem?_modify]

/-! ## Tidy environments -/

/-- Every name of a namespace stands for a var that is of this namespace and name. -/
def Tidy (e : Env) : Prop :=
  ∀ ns name id, e.lookup? ns name = some id →
    ∃ v, e.cell? id = some v ∧ v.ns = ns ∧ v.name = name

theorem Tidy.injective (h : e.Tidy) {ns' name' : String} {id : Nat}
    (hid : e.lookup? ns name = some id) (hid' : e.lookup? ns' name' = some id) :
    ns' = ns ∧ name' = name := by
  obtain ⟨v, hv, rfl, rfl⟩ := h _ _ _ hid
  obtain ⟨v', hv', rfl, rfl⟩ := h _ _ _ hid'
  cases hv.symm.trans hv'
  exact ⟨rfl, rfl⟩

/-- Where cells and vars are the same, so is what names stand for. -/
theorem named?_congr (hcells : e'.cells = e.cells)
    (hlookup : e'.lookup? ns name = e.lookup? ns name) : e'.named? ns name = e.named? ns name := by
  have hcell : e'.cell? = e.cell? := by
    funext id
    simp only [cell?, hcells]
  rw [named?, hlookup, hcell, named?]

theorem Tidy.of_lookup? (h : e.Tidy) (hcells : e'.cells = e.cells)
    (hlookup : ∀ ns name, e'.lookup? ns name = e.lookup? ns name) : e'.Tidy := by
  intro ns name id hid
  rw [hlookup] at hid
  simpa only [cell?, hcells] using h ns name id hid

theorem Tidy.named?_isSome (h : e.Tidy) : (e.named? ns name).isSome = (e.lookup? ns name).isSome := by
  cases hid : e.lookup? ns name with
  | none => simp [named?, hid]
  | some id =>
    obtain ⟨v, hv, -⟩ := h ns name id hid
    simp [named?, hid, hv]

/-- Adds a var to a namespace, in a cell of its own. -/
def addVar (e : Env) (v : Var) : Env :=
  { (e.update v.ns fun n => { n with vars := n.vars.insert v.name e.cells.size }) with
    cells := e.cells.push v }

/-- A declaration redeclares the var that is there, or adds one. -/
theorem intern_cases (e : Env) (ns name : String) (kind : VarKind) (arity : Int) :
    (∃ id, e.lookup? ns name = some id ∧
      (e.intern ns name kind arity).1 = e.modifyCell id fun v => { v with kind, arity }) ∨
    (e.lookup? ns name = none ∧
      (e.intern ns name kind arity).1 = e.addVar { ns, name, kind, arity }) := by
  unfold intern
  split
  · rename_i id hid
    exact .inl ⟨id, hid, rfl⟩
  · rename_i hnone
    exact .inr ⟨hnone, rfl⟩

theorem lookup?_addVar (e : Env) (v : Var) (ns name : String) :
    (e.addVar v).lookup? ns name =
      if ns = v.ns ∧ name = v.name then some e.cells.size else e.lookup? ns name := by
  have hupdate := lookup?_update e v.ns ns name fun n =>
    { n with vars := n.vars.insert v.name e.cells.size }
  refine Eq.trans hupdate ?_
  by_cases hns : ns = v.ns
  · subst hns
    simp only [if_true, true_and, Table.get?_insert]
    split
    · rfl
    · rw [lookup?]
      cases e.find? v.ns <;> rfl
  · simp [hns]

theorem cell?_addVar (e : Env) (v : Var) (id : Nat) :
    (e.addVar v).cell? id = if id = e.cells.size then some v else e.cell? id := by
  simp only [cell?, addVar, Array.getElem?_push]

/-- The var of a name is not the one that is added. -/
theorem Tidy.lookup?_ne_size (h : e.Tidy) {id : Nat} (hid : e.lookup? ns name = some id) :
    id ≠ e.cells.size := by
  obtain ⟨v, hv, -⟩ := h ns name id hid
  rintro rfl
  simp [cell?] at hv

/-- A declared name stands for the var that it stood for, redeclared, or for a new one. -/
theorem Tidy.named?_intern (h : e.Tidy) (kind : VarKind) (arity : Int) (ns' name' : String) :
    (e.intern ns name kind arity).1.named? ns' name' =
      if ns' = ns ∧ name' = name then
        some { (e.named? ns name).getD { ns, name, kind, arity } with kind, arity }
      else e.named? ns' name' := by
  obtain ⟨id, hid, heq⟩ | ⟨hnone, heq⟩ := intern_cases e ns name kind arity
  · rw [heq]
    obtain ⟨v, hv, -⟩ := h ns name id hid
    have hlookup : (e.modifyCell id fun v => { v with kind, arity }).lookup? ns' name' =
        e.lookup? ns' name' := rfl
    rw [named?, hlookup]
    split
    · rename_i hsame
      obtain ⟨rfl, rfl⟩ := hsame
      simp [named?, hid, cell?_modifyCell, hv]
    · rename_i hother
      cases hid' : e.lookup? ns' name' with
      | none => simp [named?, hid']
      | some id' =>
        have hne : id ≠ id' := by
          rintro rfl
          exact hother (h.injective hid hid')
        simp [named?, hid', cell?_modifyCell, hne]
  · rw [heq, named?, lookup?_addVar]
    split
    · simp [named?, hnone, cell?_addVar]
    · cases hid' : e.lookup? ns' name' with
      | none => simp [named?, hid']
      | some id' => simp [named?, hid', cell?_addVar, h.lookup?_ne_size hid']

theorem Tidy.intern (h : e.Tidy) (ns name : String) (kind : VarKind) (arity : Int) :
    (e.intern ns name kind arity).1.Tidy := by
  intro ns' name' id' hid'
  obtain ⟨id, hid, heq⟩ | ⟨hnone, heq⟩ := intern_cases e ns name kind arity
  · rw [heq] at hid' ⊢
    obtain ⟨v, hv, hns, hname⟩ := h ns' name' id' hid'
    rw [cell?_modifyCell, hv]
    split
    · exact ⟨_, rfl, hns, hname⟩
    · exact ⟨v, rfl, hns, hname⟩
  · rw [heq, lookup?_addVar] at hid'
    rw [heq, cell?_addVar]
    split at hid'
    · rename_i hsame
      cases hid'
      rw [if_pos rfl]
      exact ⟨_, rfl, hsame.1.symm, hsame.2.symm⟩
    · rw [if_neg (h.lookup?_ne_size hid')]
      exact h ns' name' id' hid'

theorem Tidy.ensure (h : e.Tidy) (ns : String) : (e.ensure ns).Tidy :=
  h.of_lookup? (cells_ensure e ns) (lookup?_ensure e ns)

theorem tidy_initial : initial.Tidy := by
  have hempty : ({} : Env).Tidy := fun _ _ _ hid => nomatch hid
  exact (hempty.ensure coreNs).ensure defaultNs

theorem Tidy.addAlias (h : e.Tidy) (ns nickname target : String) :
    (e.addAlias ns nickname target).1.Tidy :=
  h.of_lookup? (cells_addAlias e ns nickname target) (lookup?_addAlias e ns nickname target)

theorem Tidy.addRefer (h : e.Tidy) (ns name source : String) : (e.addRefer ns name source).Tidy :=
  h.of_lookup? (cells_addRefer e ns name source) (lookup?_addRefer e ns name source)

/-! ## Environments that are alike -/

/-- Names stand for equal vars, whatever the cells. -/
structure Alike (e e' : Env) : Prop where
  outline : ∀ ns, e.outline ns = e'.outline ns
  named : ∀ ns name, e.named? ns name = e'.named? ns name

theorem Alike.symm (h : e.Alike e') : e'.Alike e :=
  ⟨fun ns => (h.outline ns).symm, fun ns name => (h.named ns name).symm⟩

theorem Alike.trans {e'' : Env} (h : e.Alike e') (h' : e'.Alike e'') : e.Alike e'' :=
  ⟨fun ns => (h.outline ns).trans (h'.outline ns),
    fun ns name => (h.named ns name).trans (h'.named ns name)⟩

/-- Changes of a namespace that treat its outline alike keep outlines the same. -/
theorem outline_update_congr (h : ∀ ns, e.outline ns = e'.outline ns) {f g : Namespace → Namespace}
    (hfg : ∀ n n' : Namespace, n.vars.keys = n'.vars.keys → n.aliases = n'.aliases →
      n.refers = n'.refers → (f n).vars.keys = (g n').vars.keys ∧ (f n).aliases = (g n').aliases ∧
        (f n).refers = (g n').refers)
    (ns ns' : String) : (e.update ns f).outline ns' = (e'.update ns g).outline ns' := by
  have hns := h ns'
  simp only [Env.outline, find?_update] at hns ⊢
  split
  · rename_i heq
    subst heq
    cases hf : e.find? ns' with
    | none =>
      have hf' : e'.find? ns' = none := by simpa [hf, eq_comm] using hns
      simpa [hf'] using hfg {} {} rfl rfl rfl
    | some n =>
      rw [hf] at hns
      obtain ⟨n', hf', hout⟩ := Option.map_eq_some_iff.mp hns.symm
      simp only [Prod.mk.injEq] at hout
      simpa [hf'] using hfg n n' hout.1.symm hout.2.1.symm hout.2.2.symm
  · exact hns

theorem outline_addVar_congr (h : ∀ ns, e.outline ns = e'.outline ns) (v : Var) (ns : String) :
    (e.addVar v).outline ns = (e'.addVar v).outline ns :=
  outline_update_congr (f := fun n => { n with vars := n.vars.insert v.name e.cells.size })
    (g := fun n => { n with vars := n.vars.insert v.name e'.cells.size }) h
    (fun _ _ hvars haliases hrefers =>
      ⟨Table.keys_insert_congr hvars _ _ _, haliases, hrefers⟩) v.ns ns

theorem outline_ensure (e : Env) (ns ns' : String) :
    (e.ensure ns).outline ns' = (e.update ns id).outline ns' := by
  rw [Env.outline, find?_ensure]
  rfl

/-- A name stands for some cell in both environments or in none. -/
theorem Alike.lookup?_isSome (h : e.Alike e') (ht : e.Tidy) (ht' : e'.Tidy) (ns name : String) :
    (e.lookup? ns name).isSome = (e'.lookup? ns name).isSome := by
  rw [← ht.named?_isSome, ← ht'.named?_isSome, h.named]

theorem Alike.intern (h : e.Alike e') (ht : e.Tidy) (ht' : e'.Tidy) (ns name : String)
    (kind : VarKind) (arity : Int) :
    (e.intern ns name kind arity).1.Alike (e'.intern ns name kind arity).1 := by
  refine ⟨?_, ?_⟩
  · have hsome := h.lookup?_isSome ht ht' ns name
    obtain ⟨id, hid, heq⟩ | ⟨hnone, heq⟩ := intern_cases e ns name kind arity
    all_goals obtain ⟨id', hid', heq'⟩ | ⟨hnone', heq'⟩ := intern_cases e' ns name kind arity
    · rw [heq, heq']
      exact h.outline
    · simp [hid, hnone'] at hsome
    · simp [hid', hnone] at hsome
    · rw [heq, heq']
      exact outline_addVar_congr h.outline _
  · intro ns' name'
    rw [ht.named?_intern, ht'.named?_intern, h.named ns name, h.named ns' name']

theorem Alike.ensure (h : e.Alike e') (ns : String) : (e.ensure ns).Alike (e'.ensure ns) := by
  refine ⟨fun ns' => ?_, fun ns' name => ?_⟩
  · rw [outline_ensure, outline_ensure]
    exact outline_update_congr h.outline (fun n n' hv ha hr => ⟨hv, ha, hr⟩) ns ns'
  · rw [named?_congr (cells_ensure e ns) (lookup?_ensure e ns ns' name),
      named?_congr (cells_ensure e' ns) (lookup?_ensure e' ns ns' name), h.named]

theorem Alike.find?_aliases (h : e.Alike e') (ns : String) :
    (e.find? ns).map (·.aliases) = (e'.find? ns).map (·.aliases) := by
  have := congrArg (Option.map (·.2.1)) (h.outline ns)
  simpa [Env.outline, Function.comp_def] using this

theorem Alike.addAlias (h : e.Alike e') (ns nickname target : String) :
    (e.addAlias ns nickname target).2 = (e'.addAlias ns nickname target).2 ∧
      (e.addAlias ns nickname target).1.Alike (e'.addAlias ns nickname target).1 := by
  have hold : (e.find? ns).bind (·.aliases.get? nickname) =
      (e'.find? ns).bind (·.aliases.get? nickname) := by
    have := congrArg (Option.bind · (Table.get? · nickname)) (h.find?_aliases ns)
    simpa [Option.bind_map] using this
  have hnamed : ∀ ns' name, (e.addAlias ns nickname target).1.named? ns' name =
      (e'.addAlias ns nickname target).1.named? ns' name := by
    intro ns' name
    rw [named?_congr (cells_addAlias ..) (lookup?_addAlias ..),
      named?_congr (cells_addAlias ..) (lookup?_addAlias ..), h.named]
  refine ⟨?_, fun ns' => ?_, hnamed⟩
  · simp only [Env.addAlias, hold]
    split
    · split <;> rfl
    · rfl
  · simp only [Env.addAlias, hold]
    split
    · split <;> exact h.outline ns'
    · apply outline_update_congr h.outline
      intro n n' hvars haliases hrefers
      exact ⟨hvars, congrArg (Table.insert nickname target) haliases, hrefers⟩

theorem Alike.addRefer (h : e.Alike e') (ns name source : String) :
    (e.addRefer ns name source).Alike (e'.addRefer ns name source) := by
  refine ⟨fun ns' => ?_, fun ns' name' => ?_⟩
  · apply outline_update_congr h.outline
    intro n n' hvars haliases hrefers
    exact ⟨hvars, haliases, congrArg (Table.insert name source) hrefers⟩
  · rw [named?_congr (cells_addRefer ..) (lookup?_addRefer ..),
      named?_congr (cells_addRefer ..) (lookup?_addRefer ..), h.named]

/-- The names of the vars of a namespace are the same. -/
theorem Alike.varNames (h : e.Alike e') (ns : String) :
    (e.find? ns).map (·.vars.keys) = (e'.find? ns).map (·.vars.keys) := by
  have := congrArg (Option.map (·.1)) (h.outline ns)
  simpa [Env.outline, Function.comp_def] using this

/-- The first of two names that stands for a cell stands for a var. -/
theorem Tidy.or_bind_cell? (h : e.Tidy) (other : Option Nat) :
    ((e.lookup? ns name).or other).bind e.cell? = (e.named? ns name).or (other.bind e.cell?) := by
  cases hid : e.lookup? ns name with
  | none => simp [named?, hid]
  | some id =>
    obtain ⟨v, hv, -⟩ := h ns name id hid
    simp [named?, hid, hv]

/-- A bare name is looked up by what names stand for. -/
theorem Tidy.resolveBare?_bind_cell? (h : e.Tidy) {n : Namespace} (hn : e.find? ns = some n)
    (name : String) : (e.resolveBare? ns n name).bind e.cell? =
      (e.named? ns name).or (((n.refers.get? name).bind (e.named? · name)).or
        (if ns = coreNs then none else e.named? coreNs name)) := by
  rw [resolveBare?, ← lookup?_of_find? hn, h.or_bind_cell?]
  cases n.refers.get? name with
  | none =>
    simp only [Option.bind_eq_bind, Option.bind_none, Option.none_or]
    split <;> rfl
  | some source =>
    simp only [Option.bind_eq_bind, Option.bind_some, h.or_bind_cell?]
    congr 2
    split <;> rfl

/-- A symbol stands for equal vars. -/
theorem Alike.resolved? (h : e.Alike e') (ht : e.Tidy) (ht' : e'.Tidy) (ns text : String) :
    e.resolved? ns text = e'.resolved? ns text := by
  have hns := h.outline ns
  simp only [Env.outline] at hns
  cases hf : e.find? ns with
  | none =>
    have hf' : e'.find? ns = none := by simpa [hf, eq_comm] using hns
    simp [Env.resolved?, resolve?, hf, hf']
  | some n =>
    rw [hf] at hns
    obtain ⟨n', hf', hout⟩ := Option.map_eq_some_iff.mp hns.symm
    simp only [Prod.mk.injEq] at hout
    simp only [Env.resolved?, resolve?, hf, hf', Option.bind_eq_bind, Option.bind_some]
    split
    · rw [ht.resolveBare?_bind_cell? hf, ht'.resolveBare?_bind_cell? hf', hout.2.2]
      simp only [h.named]
    · rw [hout.2.1]
      exact h.named _ _

/-! ## Taking declarations back -/

/-- No cell was given up, and no more than the kinds and arities of vars were changed. -/
def Grown (e₀ e : Env) : Prop :=
  ∀ id v, e₀.cell? id = some v → ∃ kind arity, e.cell? id = some { v with kind, arity }

theorem Grown.refl (e : Env) : e.Grown e := fun _ v hv => ⟨v.kind, v.arity, hv⟩

theorem Grown.of_cells {e₀ : Env} (h : e₀.Grown e) (hcells : e'.cells = e.cells) :
    e₀.Grown e' := by
  intro id v hv
  simpa only [cell?, hcells] using h id v hv

theorem Grown.intern {e₀ : Env} (h : e₀.Grown e) (ns name : String) (kind : VarKind)
    (arity : Int) : e₀.Grown (e.intern ns name kind arity).1 := by
  intro id v hv
  obtain ⟨kind', arity', hcell⟩ := h id v hv
  obtain ⟨id', -, heq⟩ | ⟨-, heq⟩ := intern_cases e ns name kind arity
  · rw [heq, cell?_modifyCell, hcell]
    split
    · exact ⟨kind, arity, rfl⟩
    · exact ⟨kind', arity', rfl⟩
  · rw [heq, cell?_addVar]
    split
    · rename_i hsize
      simp [cell?, hsize] at hcell
    · exact ⟨kind', arity', hcell⟩

/-- A var as a snapshot declares that of its cell. -/
def Snapshot.redeclare (s : Snapshot) (id : Nat) (v : Var) : Var :=
  match s.declared[id]? with
  | some (kind, arity) => { v with kind, arity }
  | none => v

theorem Snapshot.redeclare_redeclare (s : Snapshot) (id : Nat) (v : Var) :
    s.redeclare id (s.redeclare id v) = s.redeclare id v := by
  unfold redeclare
  split <;> rfl

/-- To take declarations back is to redeclare the cells in use, one after the other. -/
theorem restore_eq_foldl (e : Env) (s : Snapshot) :
    e.restore s = s.used.foldl (fun e id => e.modifyCell id (s.redeclare id))
      { e with namespaces := s.namespaces } := by
  refine List.foldl_ext _ _ _ fun e id _ => ?_
  unfold Snapshot.redeclare
  cases s.declared[id]? with
  | none =>
    have hid : e.cells.modify id (fun v => v) = e.cells := by
      ext i hi hi' <;> simp [Array.getElem_modify]
    simp [modifyCell, hid]
  | some d => rfl

theorem namespaces_restore (e : Env) (s : Snapshot) : (e.restore s).namespaces = s.namespaces := by
  rw [restore_eq_foldl]
  generalize s.used = ids
  have hkept : ∀ e : Env,
      (ids.foldl (fun e id => e.modifyCell id (s.redeclare id)) e).namespaces = e.namespaces := by
    induction ids with
    | nil => intro e; rfl
    | cons id ids ih => intro e; exact ih _
  exact hkept _

/-- Every cell in use is as the snapshot declares it, however often it is used. -/
theorem cell?_restore (e : Env) (s : Snapshot) (id : Nat) :
    (e.restore s).cell? id =
      if id ∈ s.used then (e.cell? id).map (s.redeclare id) else e.cell? id := by
  have hfold : ∀ (ids : List Nat) (e : Env),
      (ids.foldl (fun e id => e.modifyCell id (s.redeclare id)) e).cell? id =
        if id ∈ ids then (e.cell? id).map (s.redeclare id) else e.cell? id := by
    intro ids
    induction ids with
    | nil => intro e; simp
    | cons id' ids ih =>
      intro e
      rw [List.foldl_cons, ih, cell?_modifyCell]
      by_cases heq : id' = id
      · subst heq
        cases e.cell? id' <;> simp [Snapshot.redeclare_redeclare]
      · simp [heq, Ne.symm heq]
  rw [restore_eq_foldl, hfold]
  rfl

/-- The cell of a name is one that the snapshot uses. -/
theorem mem_used_of_lookup? {id : Nat} (h : e.lookup? ns name = some id) :
    id ∈ e.snapshot.used := by
  obtain ⟨n, hn, hid⟩ := Option.bind_eq_some_iff.mp h
  refine List.mem_flatMap.mpr ⟨(ns, n), Table.mem_of_get? hn, ?_⟩
  exact List.mem_map.mpr ⟨(name, id), Table.mem_of_get? hid, rfl⟩

/-- The same names stand for the same cells with the same vars in them. -/
structure Intact (e₀ e : Env) : Prop where
  namespaces : e.namespaces = e₀.namespaces
  cells : ∀ ns name id, e₀.lookup? ns name = some id → e.cell? id = e₀.cell? id

/-- What every name stood for is given back. -/
theorem Grown.restore {e₀ : Env} (h : e₀.Grown e) (ht : e₀.Tidy) :
    e₀.Intact (e.restore e₀.snapshot) := by
  refine ⟨namespaces_restore e e₀.snapshot, fun ns name id hid => ?_⟩
  obtain ⟨v, hv, -⟩ := ht ns name id hid
  obtain ⟨kind, arity, hcell⟩ := h id v hv
  rw [cell?_restore, if_pos (mem_used_of_lookup? hid), hcell, hv]
  have hdeclared : e₀.snapshot.declared[id]? = some (v.kind, v.arity) := by
    have hv' : e₀.cells[id]? = some v := hv
    simp [snapshot, hv']
  simp [Snapshot.redeclare, hdeclared]

theorem Intact.lookup? {e₀ : Env} (h : e₀.Intact e) (ns name : String) :
    e.lookup? ns name = e₀.lookup? ns name := by
  simp only [Env.lookup?, find?, h.namespaces]

theorem Intact.tidy {e₀ : Env} (h : e₀.Intact e) (ht : e₀.Tidy) : e.Tidy := by
  intro ns name id hid
  rw [h.lookup?] at hid
  rw [h.cells ns name id hid]
  exact ht ns name id hid

theorem Intact.alike {e₀ : Env} (h : e₀.Intact e) : e.Alike e₀ := by
  refine ⟨fun ns => ?_, fun ns name => ?_⟩
  · simp only [Env.outline, find?, h.namespaces]
  · rw [named?, named?, h.lookup?]
    cases hid : e₀.lookup? ns name with
    | none => rfl
    | some id => exact h.cells ns name id hid

end Env

end WasmLisp
