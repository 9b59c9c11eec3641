import Mathlib
import WasmLisp.Proofs.Session

/-!
# Which definitions are left out as current

A session knows the digests of definitions that it was required to compile. What it does not know of
are definitions that were compiled in another way: as part of a unit, inside of a `do`, or by an
earlier form of the same request.

* `Session.History`: the sessions that there can be, with the definitions compiled so far;
* `Session.History.tracker_eq`: the session knows the latest definition of each name among those that
  requires made at the top;
* `Session.skipped_iff_latest_required`: a definition is left out if and only if it is that one; it
  is the latest of all if that is one of those. `Session.skipped_although_redefined` is a session
  in which it is not.
-/

namespace WasmLisp

/-! ## Tables in order -/

namespace Table

variable {α : Type}

/-- The keys are in ascending order. -/
def Ordered (t : Table α) : Prop := t.keys.Pairwise (· < ·)

theorem mem_keys_insert {t : Table α} {k x : String} {v : α} (h : x ∈ (t.insert k v).keys) :
    x = k ∨ x ∈ t.keys := by
  induction t with
  | nil => simpa [insert, keys] using h
  | cons e t ih =>
    obtain ⟨k', v'⟩ := e
    unfold insert at h
    split at h
    · simp only [keys, List.map_cons, List.mem_cons] at h ⊢
      exact h.imp_right .inr
    · split at h
      · simp only [keys, List.map_cons, List.mem_cons] at h ⊢
        exact h
      · simp only [keys, List.map_cons, List.mem_cons] at h ih ⊢
        rcases h with h | h
        · exact .inr (.inl h)
        · exact (ih h).imp_right .inr

theorem Ordered.insert {t : Table α} (h : t.Ordered) (k : String) (v : α) :
    (t.insert k v).Ordered := by
  induction t with
  | nil => simp [Ordered, Table.insert, keys]
  | cons e t ih =>
    obtain ⟨k', v'⟩ := e
    have hcons : (∀ x ∈ keys t, k' < x) ∧ Ordered t := List.pairwise_cons.mp h
    unfold Table.insert
    split
    · rename_i heq
      subst heq
      exact List.pairwise_cons.mpr hcons
    · split
      · rename_i hlt
        refine List.pairwise_cons.mpr ⟨fun x hx => ?_, h⟩
        rcases List.mem_cons.mp hx with rfl | hx
        · exact hlt
        · exact lt_trans hlt (hcons.1 x hx)
      · rename_i hne hnlt
        refine List.pairwise_cons.mpr ⟨fun x hx => ?_, ih hcons.2⟩
        rcases mem_keys_insert hx with rfl | hx
        · exact lt_of_le_of_ne (not_lt.mp hnlt) (Ne.symm hne)
        · exact hcons.1 x hx

theorem get?_cons (k x : String) (v : α) (t : Table α) :
    get? ((k, v) :: t) x = if x = k then some v else t.get? x := by
  unfold get?
  rw [List.lookup_cons]
  by_cases h : x = k
  · simp [h]
  · have hne : (x == k) = false := by simp [h]
    simp [h, hne]

theorem get?_eq_none_of_notMem {t : Table α} {k : String} (h : k ∉ t.keys) : t.get? k = none := by
  cases hget : t.get? k with
  | none => rfl
  | some v => exact absurd (List.mem_map_of_mem (f := (·.1)) (mem_of_get? hget)) h

end Table

/-- What is recorded one after the other from a table in order takes the place of what was there. -/
theorem DefTracker.get?_record_all {t : Table String} (h : t.Ordered) (tracker : DefTracker)
    (q : String) :
    (t.foldl (fun tr (e : String × String) => tr.record e.1 e.2) tracker).hashes.get? q =
      (t.get? q).or (tracker.hashes.get? q) := by
  induction t generalizing tracker with
  | nil => rfl
  | cons e t ih =>
    obtain ⟨k, v⟩ := e
    have hcons : (∀ x ∈ Table.keys t, k < x) ∧ Table.Ordered t := List.pairwise_cons.mp h
    rw [List.foldl_cons, ih hcons.2, Table.get?_cons]
    simp only [record, Table.get?_insert]
    split
    · rename_i heq
      subst heq
      have hnot : q ∉ Table.keys t := fun hq => lt_irrefl _ (hcons.1 q hq)
      rw [Table.get?_eq_none_of_notMem hnot]
      rfl
    · rfl

namespace Session

/-! ## Definitions that were compiled -/

/-- A definition that was compiled: its name, the digest of its node, and whether it is a top-level
form of a require that succeeded. -/
structure Defined where
  name : String
  hash : String
  required : Bool
  deriving DecidableEq, Repr

/-- The definition that a node is. -/
def Defined.of? (required : Bool) (n : Node) : Option Defined :=
  (definedName? n).map fun name => { name, hash := n.hash, required }

/-- The definitions in a form, which are required ones only at its top. -/
def definedIn (required : Bool) (n : Node) : List Defined :=
  (Defined.of? required n).toList ++ n.flatten.tail.filterMap (Defined.of? false)

/-- The latest definition of a name. -/
def latest (q : String) (log : List Defined) : Option Defined :=
  (log.filter (·.name == q)).getLast?

/-- The latest definition of a name among the required ones. -/
def latestRequired (q : String) (log : List Defined) : Option Defined :=
  latest q (log.filter (·.required))

theorem latest_append (q : String) (a b : List Defined) :
    latest q (a ++ b) = (latest q b).or (latest q a) := by
  simp [latest, List.getLast?_append]

theorem latestRequired_append (q : String) (a b : List Defined) :
    latestRequired q (a ++ b) = (latestRequired q b).or (latestRequired q a) := by
  simp only [latestRequired, List.filter_append, latest_append]

/-- If the latest definition is a required one, it is the latest of those. -/
theorem latestRequired_of_latest {q : String} {log : List Defined} {d : Defined}
    (h : latest q log = some d) (hd : d.required = true) : latestRequired q log = some d := by
  unfold latest at h
  obtain ⟨front, hfront⟩ := List.getLast?_eq_some_iff.mp h
  unfold latestRequired latest
  rw [List.filter_comm, hfront, List.filter_append]
  simp [hd]

theorem required_of_mem_definedIn {required : Bool} {n : Node} {d : Defined}
    (h : d ∈ definedIn required n) (hd : d.required = true) :
    required = true ∧ definedName? n = some d.name ∧ d.hash = n.hash := by
  rcases List.mem_append.mp h with h | h
  · obtain ⟨name, hname, rfl⟩ := Option.map_eq_some_iff.mp (Option.mem_toList.mp h)
    exact ⟨hd, hname, rfl⟩
  · obtain ⟨m, -, hm⟩ := List.mem_filterMap.mp h
    obtain ⟨name, -, rfl⟩ := Option.map_eq_some_iff.mp hm
    cases hd

/-- No definition of these is a required one. -/
theorem filter_required_definedIn_false (nodes : List Node) :
    (nodes.flatMap (definedIn false)).filter (·.required) = [] := by
  refine List.filter_eq_nil_iff.mpr fun d hd hrequired => ?_
  obtain ⟨n, -, hn⟩ := List.mem_flatMap.mp hd
  cases (required_of_mem_definedIn hn hrequired).1

theorem latestRequired_definedIn_false (q : String) (nodes : List Node) :
    latestRequired q (nodes.flatMap (definedIn false)) = none := by
  rw [latestRequired, filter_required_definedIn_false]
  rfl

theorem latestRequired_definedIn_true (q : String) (n : Node) :
    latestRequired q (definedIn true n) =
      if definedName? n = some q then some ⟨q, n.hash, true⟩ else none := by
  have hbelow : (n.flatten.tail.filterMap (Defined.of? false)).filter (·.required) = [] := by
    refine List.filter_eq_nil_iff.mpr fun d hd hrequired => ?_
    obtain ⟨m, -, hm⟩ := List.mem_filterMap.mp hd
    obtain ⟨name, -, rfl⟩ := Option.map_eq_some_iff.mp hm
    cases hrequired
  unfold latestRequired definedIn
  rw [List.filter_append, hbelow, List.append_nil, Defined.of?]
  cases definedName? n with
  | none => rfl
  | some name =>
    by_cases h : name = q
    · subst h
      simp [latest]
    · simp [latest, h]

/-! ## What requires compile -/

/-- The nodes of a form that is compiled. -/
def compiledForm (s : Session) (p : Progress) (name : String) (f : Form) : List Node :=
  (s.handedForm p name f).flatMap (·.forms)

/-- The nodes of the forms that are compiled, up to the first form that fails. -/
def compiledForms (s : Session) (stem : String) (i : Nat) (p : Progress) : List Form → List Node
  | [] => []
  | f :: rest =>
    match s.requireForm p s!"{stem}.{i}" f with
    | (_, some _) => []
    | (p', none) =>
      s.compiledForm p s!"{stem}.{i}" f ++ s.compiledForms stem (i + 1) p' rest

/-- The state in which a require begins, and the forms of its source. -/
def beginning (s : Session) (c : Compiler) (modulePrefix src : String) :
    Session × Progress × List Form :=
  ({ s with requires := s.requires + 1 }, { frame := s.frame, compiler := c },
    if modulePrefix = "" then [] else (Form.readAll src).toOption.getD [])

/-- The definitions that a request compiles. -/
def made (s : Session) (c : Compiler) : Request → List Defined
  | .compile module src =>
    if (s.compile c module src).2.2.isOk then
      (s.handed c (.compile module src)).flatMap fun u => u.forms.flatMap (definedIn false)
    else []
  | .require modulePrefix src =>
    let (s', p, forms) := s.beginning c modulePrefix src
    (s'.compiledForms s!"{modulePrefix}${s.requires + 1}" 1 p forms).flatMap
      (definedIn (s.require c modulePrefix src).2.2.isOk)
  | _ => []

/-- The sessions that there can be, with the definitions that were compiled so far. -/
inductive History : Session → List Defined → Prop
  | new {preamble : Option Preamble} {target : Target} {s : Session}
      (h : Session.new preamble target = .ok s) : History s []
  | handle {s : Session} {log : List Defined} (h : History s log) (c : Compiler) (r : Request) :
      History (s.handle c r).1 (log ++ s.made c r)

variable {s : Session} {c : Compiler} {p p' : Progress} {f : Form} {log : List Defined}

/-- The digest that a form's definition puts in place for its name. -/
theorem get?_freshWith (p : Progress) (node : Option Node) (q : String) :
    (p.freshWith node).get? q =
      ((latestRequired q (node.toList.flatMap (definedIn true))).map (·.hash)).or
        (p.fresh.get? q) := by
  cases node with
  | none => rfl
  | some n =>
    rw [Option.toList_some, List.flatMap_singleton, latestRequired_definedIn_true,
      Progress.freshWith]
    cases hdef : definedName? n with
    | none => simp [definition?, hdef]
    | some name =>
      simp only [definition?, hdef, Option.bind_eq_bind, Option.bind_some, Option.pure_def,
        Table.get?_insert, Option.some.injEq]
      by_cases h : name = q
      · subst h
        simp
      · simp [h, Ne.symm h]

theorem ordered_freshWith (hp : p.fresh.Ordered) (node : Option Node) :
    (p.freshWith node).Ordered := by
  unfold Progress.freshWith
  split
  · exact hp.insert _ _
  · exact hp

theorem build_fresh (p : Progress) (u : CompUnit) : (p.build u).1.fresh = p.fresh := by
  unfold Progress.build
  split <;> rfl

/-- A form that is compiled puts its definition in place, and one that is left out nothing. -/
theorem requireForm_fresh {name : String} (h : s.requireForm p name f = (p', none)) (q : String) :
    p'.fresh.get? q =
      ((latestRequired q ((s.compiledForm p name f).flatMap (definedIn true))).map (·.hash)).or
        (p.fresh.get? q) := by
  obtain ⟨e, ht⟩ | ⟨es, node, q', hash, ht, hdef, hq⟩ | ⟨es, node, ht, hcurrent⟩ :=
    requireForm_cases s p f
  · rw [requireForm_error ht] at h
    cases h
  · rw [requireForm_skip ht hdef hq] at h
    cases h
    have hcurrent : s.isCurrent node = true := by simp [isCurrent, hdef, hq]
    simp [compiledForm, handedForm, ht, hcurrent, Progress.skip, latestRequired, latest]
  · rw [requireForm_build ht hcurrent] at h
    have hfresh := build_fresh { p with frame := (takeForm p.frame f).1, fresh := p.freshWith node }
      (s.part p.frame.ns name es node)
    rw [h] at hfresh
    have hcompiled : s.compiledForm p name f = node.toList := by
      simp [compiledForm, handedForm, ht, hcurrent, part]
    rw [show p'.fresh = p.freshWith node from hfresh, get?_freshWith, hcompiled]

theorem requireForm_ordered (hp : p.fresh.Ordered) (name : String) (f : Form) :
    (s.requireForm p name f).1.fresh.Ordered := by
  obtain ⟨e, ht⟩ | ⟨es, node, q', hash, ht, hdef, hq⟩ | ⟨es, node, ht, hcurrent⟩ :=
    requireForm_cases s p f
  · rw [requireForm_error ht]
    exact hp
  · rw [requireForm_skip ht hdef hq]
    exact hp
  · rw [requireForm_build ht hcurrent, build_fresh]
    exact ordered_freshWith hp node

/-- What is to be recorded once all forms are compiled. -/
theorem requireForms_fresh {stem : String} {i : Nat} {forms : List Form} (hp : p.fresh.Ordered)
    (h : s.requireForms stem i p forms = (p', none)) :
    p'.fresh.Ordered ∧ ∀ q, p'.fresh.get? q =
      ((latestRequired q ((s.compiledForms stem i p forms).flatMap (definedIn true))).map
        (·.hash)).or (p.fresh.get? q) := by
  induction forms generalizing p i with
  | nil =>
    cases h
    exact ⟨hp, fun q => rfl⟩
  | cons f forms ih =>
    cases hr : s.requireForm p s!"{stem}.{i}" f with
    | mk p₁ failure =>
      cases failure with
      | some e =>
        simp only [requireForms, hr] at h
        cases h
      | none =>
        simp only [requireForms, hr] at h
        have hordered := requireForm_ordered (s := s) hp s!"{stem}.{i}" f
        rw [hr] at hordered
        obtain ⟨hlast, hget⟩ := ih hordered h
        refine ⟨hlast, fun q => ?_⟩
        simp only [compiledForms, hr]
        rw [hget q, requireForm_fresh hr q, List.flatMap_append, latestRequired_append]
        cases latestRequired q ((s.compiledForms stem (i + 1) p₁ forms).flatMap (definedIn true))
        · simp
        · simp

/-! ## What the session knows -/

@[simp] theorem settle_tracker {α : Type} (s : Session) (f : Frame) (r : Result α) :
    (s.settle f r).tracker = s.tracker := by
  cases r <;> rfl

theorem unit_tracker (s : Session) (module src : String) :
    (s.unit module src).1.tracker = s.tracker := by
  unfold unit
  cases Form.readAll src with
  | error e => rfl
  | ok forms => exact settle_tracker _ _ _

theorem compile_tracker (s : Session) (c : Compiler) (module src : String) :
    (s.compile c module src).1.tracker = s.tracker := by
  unfold compile
  cases Form.readAll src with
  | error e => rfl
  | ok forms =>
    dsimp only
    split
    · exact settle_tracker _ _ _
    · exact settle_tracker _ _ _

/-- Nothing that is compiled as part of a unit is a required definition. -/
theorem made_compile (s : Session) (c : Compiler) (module src q : String) :
    latestRequired q (s.made c (.compile module src)) = none := by
  simp only [made]
  split
  · rw [← List.flatMap_assoc, latestRequired_definedIn_false]
  · rfl

theorem switchTo_tracker (s : Session) (ns : String) : (s.switchTo ns).tracker = s.tracker := by
  unfold switchTo
  split <;> rfl

/-- A require that fails leaves what the session knows, and one that succeeds adds the latest
definitions of those it made at the top. -/
theorem require_tracker (s : Session) (c : Compiler) (modulePrefix src q : String) :
    (s.require c modulePrefix src).1.tracker.hashes.get? q =
      ((latestRequired q (s.made c (.require modulePrefix src))).map (·.hash)).or
        (s.tracker.hashes.get? q) := by
  unfold made beginning
  dsimp only
  by_cases hempty : modulePrefix = ""
  · simp [require, if_pos hempty, compiledForms, latestRequired, latest]
  cases hread : Form.readAll src with
  | error e => simp [require, hempty, hread, Except.toOption, compiledForms, latestRequired, latest]
  | ok forms =>
    simp only [require, if_neg hempty, hread, Except.toOption, Option.getD_some]
    cases hr : requireForms { s with requires := s.requires + 1 }
        s!"{modulePrefix}${s.requires + 1}" 1 { frame := s.frame, compiler := c } forms with
    | mk p failure =>
      cases failure with
      | some e =>
        have hfailed : (Except.error e : Result Required).isOk = false := rfl
        rw [hfailed, latestRequired_definedIn_false]
        rfl
      | none =>
        have hnone : Table.Ordered ([] : Table String) := .nil
        obtain ⟨hordered, hget⟩ := requireForms_fresh hnone hr
        have hok : (Except.ok p.done : Result Required).isOk = true := rfl
        dsimp only
        rw [hok, DefTracker.get?_record_all hordered, hget q]
        simp [Table.get?]

/-- The session knows the latest definition of each name among the required ones. -/
theorem History.tracker_eq (h : History s log) (q : String) :
    s.tracker.hashes.get? q = (latestRequired q log).map (·.hash) := by
  induction h with
  | @new preamble target s h =>
    obtain ⟨env, -, rfl⟩ := new_eq_ok h
    rfl
  | @handle s log _ c r ih =>
    rw [latestRequired_append]
    cases r with
    | unit module src =>
      have htracker : (s.handle c (.unit module src)).1.tracker = s.tracker :=
        unit_tracker s module src
      rw [htracker, ih]
      rfl
    | switchTo ns =>
      have htracker : (s.handle c (.switchTo ns)).1.tracker = s.tracker := switchTo_tracker s ns
      rw [htracker, ih]
      rfl
    | compile module src =>
      have htracker : (s.handle c (.compile module src)).1.tracker = s.tracker :=
        compile_tracker s c module src
      rw [htracker, ih, made_compile]
      rfl
    | require modulePrefix src =>
      have hget : (s.handle c (.require modulePrefix src)).1.tracker.hashes.get? q = _ :=
        require_tracker s c modulePrefix src q
      rw [hget, ih]
      cases latestRequired q (s.made c (.require modulePrefix src)) <;> rfl

/-! ## Definitions that are left out -/

/-- A form that a require comes to: the progress before it, and the nodes of the forms that the
request has compiled before it. -/
structure Stage where
  progress : Progress
  form : Form
  earlier : List Node

/-- The forms that a require comes to, up to the first that fails. -/
def stages (s : Session) (stem : String) (i : Nat) (earlier : List Node) (p : Progress) :
    List Form → List Stage
  | [] => []
  | f :: rest =>
    { progress := p, form := f, earlier } ::
      match s.requireForm p s!"{stem}.{i}" f with
      | (_, some _) => []
      | (p', none) =>
        s.stages stem (i + 1) (earlier ++ s.compiledForm p s!"{stem}.{i}" f) p' rest

/-- The forms that a require of a source comes to. -/
def requireStages (s : Session) (c : Compiler) (modulePrefix src : String) : List Stage :=
  let (s', p, forms) := s.beginning c modulePrefix src
  s'.stages s!"{modulePrefix}${s.requires + 1}" 1 [] p forms

/-- The definition that a form is, by name and digest. -/
def Stage.definition? (x : Stage) : Option (String × String) :=
  match (takeForm x.progress.frame x.form).2 with
  | .ok (_, node) => Session.definition? node
  | .error _ => none

/-- The name of a definition that is left out. -/
def Stage.skipped? (known : DefTracker) (x : Stage) : Option String :=
  x.definition?.bind fun (q, hash) => if known.changed q hash then none else some q

/-- The definitions compiled in the session before a form. -/
def Stage.before (x : Stage) (log : List Defined) : List Defined :=
  log ++ x.earlier.flatMap (definedIn false)

theorem requireForm_skipped {name : String} (h : s.requireForm p name f = (p', none))
    (earlier : List Node) :
    p'.done.skipped = p.done.skipped ++ (Stage.skipped? s.tracker ⟨p, f, earlier⟩).toList := by
  unfold Stage.skipped? Stage.definition?
  obtain ⟨e, ht⟩ | ⟨es, node, q', hash, ht, hdef, hq⟩ | ⟨es, node, ht, hcurrent⟩ :=
    requireForm_cases s p f
  · rw [requireForm_error ht] at h
    cases h
  · rw [requireForm_skip ht hdef hq] at h
    cases h
    simp [ht, hdef, hq, Progress.skip]
  · rw [requireForm_build ht hcurrent] at h
    unfold Progress.build at h
    split at h
    · cases h
    · cases h
      unfold isCurrent at hcurrent
      cases hdef : definition? node with
      | none => simp [ht, hdef]
      | some d =>
        have hchanged : s.tracker.changed d.1 d.2 = true := by simpa [hdef] using hcurrent
        simp [ht, hdef, hchanged]

/-- The names that a require reports are those of the definitions it leaves out, in order. -/
theorem requireForms_skipped {stem : String} {i : Nat} {forms : List Form} (earlier : List Node)
    (h : s.requireForms stem i p forms = (p', none)) :
    p'.done.skipped =
      p.done.skipped ++ (s.stages stem i earlier p forms).filterMap (Stage.skipped? s.tracker) := by
  induction forms generalizing p i earlier with
  | nil =>
    cases h
    simp [stages]
  | cons f forms ih =>
    cases hr : s.requireForm p s!"{stem}.{i}" f with
    | mk p₁ failure =>
      cases failure with
      | some e =>
        simp only [requireForms, hr] at h
        cases h
      | none =>
        simp only [requireForms, hr] at h
        simp only [stages, hr, List.filterMap_cons]
        rw [ih (earlier ++ s.compiledForm p s!"{stem}.{i}" f) h, requireForm_skipped hr earlier]
        cases Stage.skipped? s.tracker ⟨p, f, earlier⟩ <;> simp

theorem require_skipped {modulePrefix src : String} {done : Required}
    (h : (s.require c modulePrefix src).2.2 = .ok done) :
    done.skipped = (s.requireStages c modulePrefix src).filterMap (Stage.skipped? s.tracker) := by
  unfold require at h
  unfold requireStages beginning
  split at h
  · cases h
  rename_i hempty
  cases hread : Form.readAll src with
  | error e =>
    rw [hread] at h
    cases h
  | ok forms =>
    simp only [hread] at h
    simp only [if_neg hempty, Except.toOption, Option.getD_some]
    cases hr : requireForms { s with requires := s.requires + 1 }
        s!"{modulePrefix}${s.requires + 1}" 1 { frame := s.frame, compiler := c } forms with
    | mk p failure =>
      rw [hr] at h
      cases failure with
      | some e => cases h
      | none =>
        cases h
        have hskipped := requireForms_skipped [] hr
        simpa using hskipped

/-- A definition is left out if and only if the latest definition of its name among those that
requires made at the top is the same. So what is left out is the latest definition of all, if that
is one of those. -/
theorem skipped_iff_latest_required (h : History s log) (modulePrefix src : String) :
    (∀ done, (s.require c modulePrefix src).2.2 = .ok done →
      done.skipped = (s.requireStages c modulePrefix src).filterMap (Stage.skipped? s.tracker)) ∧
    ∀ x ∈ s.requireStages c modulePrefix src, ∀ q hash, x.definition? = some (q, hash) →
      (x.skipped? s.tracker = some q ↔
        (latestRequired q (x.before log)).map (·.hash) = some hash) ∧
      ∀ d, x.skipped? s.tracker = some q → latest q (x.before log) = some d → d.required = true →
        d.hash = hash := by
  refine ⟨fun done => require_skipped, fun x _ q hash hdef => ?_⟩
  have hknown : (latestRequired q (x.before log)).map (·.hash) = s.tracker.hashes.get? q := by
    rw [Stage.before, latestRequired_append, latestRequired_definedIn_false, h.tracker_eq]
    rfl
  have hiff : x.skipped? s.tracker = some q ↔
      (latestRequired q (x.before log)).map (·.hash) = some hash := by
    rw [hknown, Stage.skipped?, hdef]
    simp [DefTracker.changed]
  refine ⟨hiff, fun d hskipped hlatest hrequired => ?_⟩
  have hhash := hiff.mp hskipped
  rw [latestRequired_of_latest hlatest hrequired] at hhash
  exact Option.some.inj hhash

/-- A session that was required to define a var, and what it has compiled. -/
def requiredOnce : Session := (start.handle hostCompiler (.require "m" "(def x 1)")).1

def requiredLog : List Defined := start.made hostCompiler (.require "m" "(def x 1)")

theorem history_requiredOnce : History requiredOnce requiredLog := by
  have hnew : Session.new none .host = .ok start := rfl
  exact .handle (.new hnew) hostCompiler (.require "m" "(def x 1)")

/-- The definition is left out when it is required again, as it is the latest one. -/
theorem skipped_iff_latest_required_again :
    ∃ x ∈ requiredOnce.requireStages hostCompiler "m" "(def x 1)", ∃ hash,
      x.definition? = some ("user/x", hash) ∧ x.skipped? requiredOnce.tracker = some "user/x" ∧
        (latestRequired "user/x" (x.before requiredLog)).map (·.hash) = some hash := by
  have hskips : (requiredOnce.requireStages hostCompiler "m" "(def x 1)").any (fun x =>
      x.definition?.any (·.1 == "user/x") && x.skipped? requiredOnce.tracker == some "user/x") =
      true := by decide +kernel
  obtain ⟨x, hx, hskip⟩ := List.any_eq_true.mp hskips
  simp only [Bool.and_eq_true, Option.any_eq_true, beq_iff_eq] at hskip
  obtain ⟨⟨⟨q, hash⟩, hdef, rfl⟩, hskipped⟩ := hskip
  have hmain := (skipped_iff_latest_required (c := hostCompiler) history_requiredOnce "m"
    "(def x 1)").2 x hx _ hash hdef
  exact ⟨x, hx, hash, hdef, hskipped, hmain.1.mp hskipped⟩

/-- The session in which the var is then defined anew, as part of a unit. -/
def redefined : Session := (requiredOnce.handle hostCompiler (.compile "n" "(def x 2)")).1

def redefinedLog : List Defined :=
  requiredLog ++ requiredOnce.made hostCompiler (.compile "n" "(def x 2)")

/-- The first definition is left out when it is required again, although the latest one is another:
the session does not know of definitions that are compiled as part of a unit. -/
theorem skipped_although_redefined :
    History redefined redefinedLog ∧
      ∃ x ∈ redefined.requireStages hostCompiler "m" "(def x 1)", ∃ hash d,
        x.definition? = some ("user/x", hash) ∧ x.skipped? redefined.tracker = some "user/x" ∧
          latest "user/x" (x.before redefinedLog) = some d ∧ d.hash ≠ hash := by
  refine ⟨.handle history_requiredOnce hostCompiler (.compile "n" "(def x 2)"), ?_⟩
  have hskips : (redefined.requireStages hostCompiler "m" "(def x 1)").any (fun x =>
      x.definition?.any (fun d => d.1 == "user/x" &&
        (latest "user/x" (x.before redefinedLog)).any (·.hash != d.2)) &&
      x.skipped? redefined.tracker == some "user/x") = true := by decide +kernel
  obtain ⟨x, hx, hskip⟩ := List.any_eq_true.mp hskips
  simp only [Bool.and_eq_true, Option.any_eq_true, beq_iff_eq, bne_iff_ne] at hskip
  obtain ⟨⟨⟨q, hash⟩, hdef, rfl, d, hlatest, hne⟩, hskipped⟩ := hskip
  exact ⟨x, hx, hash, d, hdef, hskipped, hlatest, hne⟩

end Session

end WasmLisp
