import Mathlib
import WasmLisp.Cache
import WasmLisp.Proofs.Cache.Path
import WasmLisp.Proofs.Digest

/-!
# The partitions of a cache

Every target has a directory of its own below the root of a cache, the name of which is the key of the
target, as long as the name of its architecture is no path (`Target.plain_key`).

* `FileTree.SameOutside`: what writing and removing below a path leaves as it is, and
  `FileTree.SameOutside.reach`: what is found at other paths then;
* `Cache.partitions_apart`: whatever is stored and cleared for other targets, what is found for a
  target stays the same, and all that was written or removed is below the root;
* `Cache.entry_lost_to_slash`: an architecture with a slash leads into the directory of another
  target.
-/

namespace WasmLisp

namespace FileTree

variable {t t' t'' : FileTree}

/-! ## What stays the same -/

/-- The trees differ only at the path and below it. -/
def SameOutside (p : Path) (t t' : FileTree) : Prop := ∀ q, ¬ p <+: q → t'.entry? q = t.entry? q

theorem SameOutside.refl (p : Path) (t : FileTree) : t.SameOutside p t := fun _ _ => rfl

theorem SameOutside.trans {p : Path} (h : t.SameOutside p t') (h' : t'.SameOutside p t'') :
    t.SameOutside p t'' := fun q hq => (h' q hq).trans (h q hq)

/-- What is below a path is below those that it lies in. -/
theorem SameOutside.mono {p q : Path} (h : t.SameOutside q t') (hpq : p <+: q) :
    t.SameOutside p t' := fun r hr => h r fun hqr => hr (hpq.trans hqr)

theorem lookup_filter_of_keep {keep : Path × FileEntry → Bool} {q : Path}
    (hq : ∀ e, keep (q, e) = true) (entries : List (Path × FileEntry)) :
    (entries.filter keep).lookup q = entries.lookup q := by
  induction entries with
  | nil => rfl
  | cons x entries ih =>
    obtain ⟨p, e⟩ := x
    by_cases hp : q = p
    · subst hp
      rw [List.filter_cons_of_pos (hq e)]
      simp
    · by_cases hkeep : keep (p, e) = true
      · rw [List.filter_cons_of_pos hkeep]
        simp only [List.lookup_cons, beq_false_of_ne hp, ih]
      · rw [List.filter_cons_of_neg hkeep, ih]
        simp only [List.lookup_cons, beq_false_of_ne hp]

theorem entry?_put_of_ne {p q : Path} (h : q ≠ p) (t : FileTree) (e : FileEntry) :
    FileTree.entry? (t.put p e) q = t.entry? q := by
  unfold put entry?
  rw [List.lookup_cons, beq_false_of_ne h]
  exact lookup_filter_of_keep (fun _ => by simpa using h) _

theorem sameOutside_put {p q : Path} (h : p <+: q) (t : FileTree) (e : FileEntry) :
    t.SameOutside p (t.put q e) := by
  intro r hr
  apply entry?_put_of_ne
  rintro rfl
  exact hr h

theorem sameOutside_write? {p q : Path} (h : p <+: q) {bytes : List UInt8}
    (ht : t.write? q bytes = some t') : t.SameOutside p t' := by
  unfold write? at ht
  split at ht
  · cases ht
    exact sameOutside_put h t _
  · cases ht
    exact sameOutside_put h t _
  · cases ht

theorem sameOutside_remove? {p : Path} (ht : t.remove? p = some t') : t.SameOutside p t' := by
  unfold remove? at ht
  split at ht
  · cases ht
  · cases ht
    intro q hq
    refine lookup_filter_of_keep (fun _ => ?_) _
    rw [Bool.not_eq_true', Bool.eq_false_iff]
    exact fun hpre => hq (List.isPrefixOf_iff_prefix.mp hpre)

/-! ## Following paths -/

/-- The entries on the way are all that a walk looks at. -/
theorem walk_congr {above p : Path}
    (h : ∀ q, q ≠ [] → q <+: p → t'.entry? (above ++ q) = t.entry? (above ++ q)) :
    t'.walk above p = t.walk above p := by
  induction p generalizing above with
  | nil => rfl
  | cons name rest ih =>
    have hname := h [name] (by simp) ⟨rest, rfl⟩
    have hrest : t'.walk (above ++ [name]) rest = t.walk (above ++ [name]) rest := by
      apply ih
      intro q hq hpre
      rw [List.append_assoc]
      exact h (name :: q) (by simp) (List.cons_prefix_cons.mpr ⟨rfl, hpre⟩)
    rw [walk.eq_def, walk.eq_def]
    dsimp only
    rw [hname, hrest]

/-- A walk that ends at a directory has passed directories only. -/
theorem walk_cons_eq_dir {above : Path} {name : String} {rest : Path}
    (h : t.walk above (name :: rest) = .found .dir) :
    ¬ nameLimit < name.utf8ByteSize ∧ t.entry? (above ++ [name]) = some .dir ∧
      t.walk (above ++ [name]) rest = .found .dir := by
  rw [walk.eq_def] at h
  dsimp only at h
  split at h
  · cases h
  · rename_i hname
    refine ⟨hname, ?_⟩
    cases hentry : t.entry? (above ++ [name]) with
    | none =>
      rw [hentry] at h
      cases h
    | some e =>
      rw [hentry] at h
      cases rest with
      | nil =>
        cases h
        exact ⟨rfl, rfl⟩
      | cons other rest =>
        cases e with
        | file bytes => cases h
        | dir => exact ⟨rfl, h⟩

/-- All that a directory lies in is there. -/
theorem entry?_of_walk_dir {above p q : Path} (h : t.walk above p = .found .dir) (hq : q ≠ [])
    (hpre : q <+: p) : t.entry? (above ++ q) = some .dir := by
  induction p generalizing above q with
  | nil => exact absurd (List.prefix_nil.mp hpre) hq
  | cons name rest ih =>
    obtain ⟨-, hdir, hrest⟩ := walk_cons_eq_dir h
    obtain ⟨other, q, rfl⟩ := List.exists_cons_of_ne_nil hq
    obtain ⟨rfl, hshorter⟩ := List.cons_prefix_cons.mp hpre
    by_cases hnil : q = []
    · rw [hnil]
      exact hdir
    · have hentry := ih hrest hnil hshorter
      rwa [List.append_assoc] at hentry

theorem SameOutside.reach {p q : Path} (h : t.SameOutside p t') (hq : ∀ r, r <+: q → ¬ p <+: r) :
    t'.reach q = t.reach q := by
  apply walk_congr
  intro r _ hr
  exact h _ (hq r hr)

/-- To make a directory below one that is there makes directories below that one. -/
theorem sameOutside_makeDirs? {root : Path} (hroot : t.reach root = .found .dir) {name : String}
    {rest : Path} (ht : t.makeDirs? (root ++ name :: rest) = some t') :
    t.SameOutside (root ++ [name]) t' := by
  have hbelow : ∀ n, root.length ≤ n →
      root ++ [name] <+: (root ++ name :: rest).take (n + 1) := by
    intro n hn
    have htake : root ++ [name] = (root ++ name :: rest).take (root.length + 1) := by
      rw [List.take_length_add_append]
      rfl
    rw [htake]
    exact List.take_prefix_take_left (by omega)
  unfold makeDirs? at ht
  split at ht
  · cases ht
    exact .refl _ _
  · cases ht
  · cases ht
  · split at ht
    · cases ht
    · cases ht
      refine List.foldlRecOn (motive := fun t' => t.SameOutside (root ++ [name]) t') _ _
        (.refl _ _) fun t₁ h q hq => ?_
      obtain ⟨n, -, rfl⟩ := List.mem_map.mp hq
      split
      · exact h
      · rename_i habsent
        by_cases hn : root.length ≤ n
        · exact h.trans (sameOutside_put (hbelow n hn) t₁ _)
        · -- what the root lies in is there, so that it is not made
          have hpre : (root ++ name :: rest).take (n + 1) <+: root := by
            rw [List.take_append_of_le_length (by omega)]
            exact List.take_prefix _ _
          have hne : (root ++ name :: rest).take (n + 1) ≠ [] := by simp
          have hdir := entry?_of_walk_dir hroot hne hpre
          rw [List.nil_append] at hdir
          rw [h _ fun hle => ?_, hdir] at habsent
          · exact absurd rfl habsent
          · have hlength := (hle.trans hpre).length_le
            simp at hlength

end FileTree

/-! ## Names of partitions -/

/-- The key of a target is the name of a directory if its architecture has no slash. -/
theorem Target.plain_key {t : Target} (h : '/' ∉ t.arch.toList) : Path.Plain t.key := by
  have harch : '/' ∉ t.normalize.arch.toList := by
    unfold normalize
    dsimp only
    split
    · decide
    · exact h
  have hplain : ∀ {c : Char} {cs : List Char} {s : String}, s.toList = c :: cs → c ≠ '.' →
      '/' ∉ s.toList → Path.Plain s := by
    intro c cs s hs hc hslash
    have hne : ∀ s' : String, s'.toList.head? ≠ some c → s ≠ s' := by
      rintro s' hs' rfl
      exact hs' (by rw [hs]; rfl)
    refine ⟨hne _ (by simp), hne _ ?_, hne _ ?_, hslash⟩
    · exact fun heq => hc (Option.some.inj heq).symm
    · exact fun heq => hc (Option.some.inj heq).symm
  unfold key
  dsimp only
  split
  · refine hplain (c := 'l') (by rw [String.toList_append]; rfl) (by decide) ?_
    rw [String.toList_append, List.mem_append, not_or]
    exact ⟨by decide, harch⟩
  · refine hplain (c := 'c') (by simp only [String.toList_append]; rfl) (by decide) ?_
    simp only [String.toList_append, List.mem_append, not_or]
    exact ⟨⟨⟨by decide, harch⟩, by decide⟩, Text.slash_notMem_hexPadded _ _⟩

namespace Cache

variable {c : Cache} {t t' : Target} {hash : String}

/-- A hash begins with the name of a directory. -/
theorem plain_of_validHash (h : validHash hash = true) :
    Path.Plain (String.ofList (hash.toList.take 2)) := by
  unfold validHash at h
  rw [Bool.and_eq_true, decide_eq_true_eq, List.all_eq_true] at h
  obtain ⟨hsize, hdigits⟩ := h
  have hnone : ∀ c ∈ hash.toList.take 2, c ≠ '.' ∧ c ≠ '/' := by
    intro c hc
    have hdigit := hdigits c (List.mem_of_mem_take hc)
    refine ⟨?_, ?_⟩ <;> rintro rfl <;> exact absurd hdigit (by decide)
  have hne : hash.toList.take 2 ≠ [] := by
    intro hnil
    have hempty : hash = "" := by simpa using hnil
    rw [hempty] at hsize
    exact absurd hsize (by decide)
  have hdots : ∀ s : String, '.' ∈ s.toList → String.ofList (hash.toList.take 2) ≠ s := by
    rintro s hs rfl
    rw [String.toList_ofList] at hs
    exact (hnone _ hs).1 rfl
  refine ⟨?_, hdots _ (by decide), hdots _ (by decide), ?_⟩
  · intro heq
    exact hne (by simpa using congrArg String.toList heq)
  · rw [String.toList_ofList]
    exact fun hmem => (hnone _ hmem).2 rfl

theorem stacked_root (c : Cache) : Path.Stacked c.root.reverse := Path.stacked_join _

/-- The directory of a target. -/
def partition (c : Cache) (t : Target) : Path := c.root ++ [t.key]

theorem partition_eq (ht : '/' ∉ t.arch.toList) : Path.join [c.rootText, t.key] = c.partition t :=
  Path.join_text c.stacked_root [t.key] (by simpa using Target.plain_key ht)

theorem entryDir_eq (ht : '/' ∉ t.arch.toList) (hhash : validHash hash = true) :
    c.entryDir hash t = c.partition t ++ [String.ofList (hash.toList.take 2)] := by
  have hjoin := Path.join_text c.stacked_root [t.key, String.ofList (hash.toList.take 2)]
    (by simpa using ⟨Target.plain_key ht, plain_of_validHash hhash⟩)
  rw [entryDir, rootText, hjoin, partition, List.append_assoc]
  rfl

/-! ## Changes -/

/-- To store is to write, and to count it. -/
theorem store_fst (c : Cache) (hash : String) (t : Target) (bytes : List UInt8)
    (entrySymbol unit : String) :
    (c.store hash t bytes entrySymbol unit).1.files = (c.write hash t bytes entrySymbol unit).1.files ∧
      (c.store hash t bytes entrySymbol unit).1.dir = (c.write hash t bytes entrySymbol unit).1.dir := by
  unfold store
  exact ⟨rfl, rfl⟩

/-- Storing writes to the directory of the target. -/
theorem store_sameOutside (hroot : c.files.reach c.root = .found .dir) (ht : '/' ∉ t.arch.toList)
    (hash : String) (bytes : List UInt8) (entrySymbol unit : String) :
    c.files.SameOutside (c.partition t) (c.store hash t bytes entrySymbol unit).1.files := by
  rw [(store_fst c hash t bytes entrySymbol unit).1]
  unfold write
  split
  · exact .refl _ _
  · rename_i hinvalid
    have hhash : validHash hash = true := by simpa using hinvalid
    have hdir := entryDir_eq (c := c) ht hhash
    have hfile : ∀ name, c.partition t <+: c.entryDir hash t ++ [name] := by
      intro name
      rw [hdir, List.append_assoc]
      exact List.prefix_append _ _
    dsimp only
    split
    · exact .refl _ _
    · rename_i made hmade
      have hdirs : c.files.SameOutside (c.partition t) made := by
        rw [hdir, partition, List.append_assoc] at hmade
        exact FileTree.sameOutside_makeDirs? hroot hmade
      split
      · exact hdirs
      · rename_i written hwritten
        have hartifact := hdirs.trans (FileTree.sameOutside_write? (hfile _) hwritten)
        split
        · exact hartifact
        · rename_i done hdone
          exact hartifact.trans (FileTree.sameOutside_write? (hfile _) hdone)

/-- Clearing removes the directory of the target. -/
theorem clear_sameOutside (ht : '/' ∉ t.arch.toList) :
    c.files.SameOutside (c.partition t) (c.clear t).1.files := by
  unfold clear
  rw [partition_eq ht]
  split
  · rename_i files hfiles
    exact FileTree.sameOutside_remove? hfiles
  · exact .refl _ _

/-- One operation that changes the files of a cache. -/
inductive Change where
  | store (hash : String) (target : Target) (bytes : List UInt8) (entrySymbol unit : String)
  | clear (target : Target)

namespace Change

def target : Change → Target
  | .store _ t _ _ _ => t
  | .clear t => t

def run (c : Cache) : Change → Cache
  | .store hash t bytes entrySymbol unit => (c.store hash t bytes entrySymbol unit).1
  | .clear t => (c.clear t).1

theorem dir_run (c : Cache) (change : Change) : (change.run c).dir = c.dir := by
  cases change with
  | store hash t bytes entrySymbol unit =>
    rw [run, (store_fst c hash t bytes entrySymbol unit).2]
    unfold write
    split
    · rfl
    · dsimp only
      split
      · rfl
      · split
        · rfl
        · split <;> rfl
  | clear t =>
    rw [run]
    unfold Cache.clear
    split <;> rfl

theorem root_run (c : Cache) (change : Change) : (change.run c).root = c.root := by
  rw [root, root, dir_run]

theorem sameOutside (hroot : c.files.reach c.root = .found .dir) {change : Change}
    (ht : '/' ∉ change.target.arch.toList) :
    c.files.SameOutside (c.partition change.target) (change.run c).files := by
  cases change with
  | store hash t bytes entrySymbol unit =>
    dsimp only [target, run] at ht ⊢
    exact store_sameOutside hroot ht hash bytes entrySymbol unit
  | clear t =>
    dsimp only [target, run] at ht ⊢
    exact clear_sameOutside ht

/-- The root is still there. -/
theorem reach_root (hroot : c.files.reach c.root = .found .dir) {change : Change}
    (ht : '/' ∉ change.target.arch.toList) :
    (change.run c).files.reach (change.run c).root = .found .dir := by
  rw [root_run, (sameOutside hroot ht).reach, hroot]
  intro q hq hle
  have hlength := (hle.trans hq).length_le
  simp [partition] at hlength

/-- What is found for a target is in its directory. -/
theorem find_run (hroot : c.files.reach c.root = .found .dir) {change : Change}
    (ht : '/' ∉ change.target.arch.toList) (ht' : '/' ∉ t'.arch.toList)
    (hkey : change.target.key ≠ t'.key) (hash : String) :
    (change.run c).find hash t' = c.find hash t' := by
  have hsame := sameOutside hroot ht
  have hpaths : ∀ h, (change.run c).entryDir h t' = c.entryDir h t' := by
    intro h
    rw [entryDir, rootText, root_run]
    rfl
  by_cases hhash : validHash hash = true
  · have hreach : ∀ name, (change.run c).files.reach (c.entryDir hash t' ++ [name]) =
        c.files.reach (c.entryDir hash t' ++ [name]) := by
      intro name
      apply hsame.reach
      intro q hq hle
      have hpre := hle.trans hq
      rw [entryDir_eq ht' hhash, partition, partition, List.append_assoc, List.append_assoc,
        List.prefix_append_right_inj] at hpre
      exact hkey (List.cons_prefix_cons.mp hpre).1
    have hread : ∀ name, (change.run c).files.read (c.entryDir hash t' ++ [name]) =
        c.files.read (c.entryDir hash t' ++ [name]) := by
      intro name
      rw [FileTree.read, FileTree.read, hreach]
    unfold find sidecarPath artifactPath
    rw [hpaths, hread, hread]
  · unfold find
    simp [hhash]

end Change

/-- Clearing everything removes what is below the root. -/
theorem clearAll_entry? {p : Path} (hp : ¬ (c.root <+: p ∧ p ≠ c.root)) :
    c.clearAll.1.files.entry? p = c.files.entry? p := by
  unfold clearAll
  split
  · rfl
  · refine List.foldlRecOn (motive := fun (t : FileTree) => t.entry? p = c.files.entry? p) _ _ rfl
      fun t h name _ => ?_
    cases hremoved : t.remove? (c.root ++ [name]) with
    | none => exact h
    | some t' =>
      refine (FileTree.sameOutside_remove? hremoved p fun hle => hp ?_).trans h
      refine ⟨(List.prefix_append _ _).trans hle, ?_⟩
      rintro rfl
      have hlength := hle.length_le
      simp at hlength

/-- Partitions are apart. Whatever is stored and cleared for targets of which the architectures have no
slash: all that was written or removed, also by clearing everything afterwards, is below the root of
the cache, and what is found for a target with another key is what was found before. -/
theorem partitions_apart {c : Cache} (hroot : c.files.reach c.root = .found .dir)
    {changes : List Change} (hslash : ∀ change ∈ changes, '/' ∉ change.target.arch.toList) :
    let after := changes.foldl Change.run c
    (∀ p, ¬ (c.root <+: p ∧ p ≠ c.root) →
      after.files.entry? p = c.files.entry? p ∧ after.clearAll.1.files.entry? p = c.files.entry? p) ∧
    ∀ t', '/' ∉ t'.arch.toList → (∀ change ∈ changes, change.target.key ≠ t'.key) →
      ∀ hash, after.find hash t' = c.find hash t' := by
  induction changes generalizing c with
  | nil => exact ⟨fun p hp => ⟨rfl, clearAll_entry? hp⟩, fun _ _ _ _ => rfl⟩
  | cons change changes ih =>
    have ht := hslash change List.mem_cons_self
    have hsame := Change.sameOutside hroot ht
    obtain ⟨hbelow, hfind⟩ := ih (Change.reach_root hroot ht)
      fun other hother => hslash other (List.mem_cons_of_mem _ hother)
    rw [Change.root_run] at hbelow
    refine ⟨fun p hp => ?_, fun t' ht' hkeys hash => ?_⟩
    · have hstep : FileTree.entry? (change.run c).files p = c.files.entry? p := by
        apply hsame
        rintro hle
        refine hp ⟨(List.prefix_append _ _).trans hle, ?_⟩
        rintro rfl
        have hlength := hle.length_le
        simp [partition] at hlength
      exact ⟨(hbelow p hp).1.trans hstep, (hbelow p hp).2.trans hstep⟩
    · rw [List.foldl_cons, hfind t' ht' (fun other hother => hkeys other (List.mem_cons_of_mem _ hother)),
        Change.find_run hroot ht ht' (hkeys change List.mem_cons_self)]

/-! ## Architectures that are paths -/

/-- A cache that was opened, with an entry for a target. -/
def armTarget : Target := { arch := "arm64", sysroot := "/opt" }

def someHash : String := "0123456789abcdef"

def armCache : Cache :=
  (((openIn "cache" {} ⟨0⟩).toOption.getD default).store someHash armTarget [1, 2, 3] "e" "").1

theorem find_armCache : (armCache.find someHash armTarget).name = "hit" := by decide +kernel

/-- What is stored and cleared for the running machine leaves the entry of another target. -/
theorem partitions_apart_host :
    (armCache.find someHash armTarget).name = "hit" ∧
      ([Change.store someHash .host [4] "f" "", .clear .host].foldl Change.run armCache).find someHash
        armTarget = armCache.find someHash armTarget := by
  obtain ⟨hroot, hkey⟩ : armCache.files.reach armCache.root = .found .dir ∧
      Target.host.key ≠ armTarget.key := by
    decide +kernel
  refine ⟨find_armCache, (partitions_apart hroot ?_).2 armTarget (by decide) ?_ someHash⟩
  · simp only [List.forall_mem_cons]
    exact ⟨by decide, by decide, nofun⟩
  · simp only [List.forall_mem_cons]
    exact ⟨hkey, hkey, nofun⟩

/-- Keys of targets that differ can lead to one directory if an architecture has slashes: to store for
the one target takes the entry of the other away, and so does clearing it; and what is stored can lie
outside of the root. -/
theorem entry_lost_to_slash :
    let slashed : Target := { arch := "x/../cross-arm64", sysroot := "/opt" }
    let outside : Target := { arch := "x/../../out", sysroot := "/opt" }
    slashed.key ≠ armTarget.key ∧
      (armCache.find someHash armTarget).name = "hit" ∧
      ((Change.store someHash slashed [4] "f" "").run armCache).find someHash armTarget = .corrupt ∧
      ((Change.clear slashed).run armCache).find someHash armTarget = .miss ∧
      armCache.root = ["cache", "v1"] ∧
      FileTree.entry? ((Change.store someHash outside [4] "f" "").run armCache).files
        ["cache", "out-a58598d2"] = some .dir := by
  intro slashed outside
  have hkeys : slashed.key ≠ armTarget.key := by decide +kernel
  refine ⟨hkeys, find_armCache, ?_⟩
  decide +kernel

end Cache

end WasmLisp
