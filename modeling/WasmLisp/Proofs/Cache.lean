import Mathlib
import WasmLisp.Cache
import WasmLisp.Proofs.Cache.Block

/-!
# What the files of a cache hold

* `FileTree.AllFiles`: a property of every file by its name, and that making directories and
  removing files keeps it;
* `Cache.write_allFiles`, `Cache.clear_allFiles`, `Cache.clearAll_allFiles`: what an operation on
  the cache has to show to keep it;
* `Cache.find_hit`: an entry that is found was decoded from a file of its name.
-/

namespace WasmLisp

namespace FileTree

/-- Every file has the property, which speaks of its name and its bytes. -/
def AllFiles (P : String → List UInt8 → Prop) (t : FileTree) : Prop :=
  ∀ above name bytes, (above ++ [name], .file bytes) ∈ t.entries → P name bytes

variable {P Q : String → List UInt8 → Prop} {t t' : FileTree}

/-- What is said of all files can be weakened. -/
theorem AllFiles.imp (h : t.AllFiles P) (hPQ : ∀ name bytes, P name bytes → Q name bytes) :
    t.AllFiles Q := fun above name bytes hmem => hPQ name bytes (h above name bytes hmem)

/-- It holds of a tree that has no other entries. -/
theorem AllFiles.subset (h : t.AllFiles P) (hsub : t'.entries ⊆ t.entries) : t'.AllFiles P :=
  fun above name bytes hmem => h above name bytes (hsub hmem)

/-- A directory is no file. -/
theorem AllFiles.put_dir (h : t.AllFiles P) (p : Path) : (t.put p .dir).AllFiles P := by
  intro above name bytes hmem
  rcases List.mem_cons.mp hmem with heq | hmem
  · cases heq
  · exact h above name bytes (List.mem_filter.mp hmem).1

/-- A file is written of which it can be said. -/
theorem AllFiles.put_file (h : t.AllFiles P) (above : Path) {name : String} {bytes : List UInt8}
    (hP : P name bytes) : (t.put (above ++ [name]) (.file bytes)).AllFiles P := by
  intro above' name' bytes' hmem
  rcases List.mem_cons.mp hmem with heq | hmem
  · obtain ⟨hpath, hfile⟩ := Prod.mk.inj heq
    obtain ⟨-, hname⟩ := List.append_inj' hpath rfl
    cases hfile
    cases hname
    exact hP
  · exact h above' name' bytes' (List.mem_filter.mp hmem).1

/-- To make directories changes no file. -/
theorem AllFiles.makeDirs? (h : t.AllFiles P) {p : Path} (ht : t.makeDirs? p = some t') :
    t'.AllFiles P := by
  have hfold : ∀ (ps : List Path) (t : FileTree), t.AllFiles P →
      (ps.foldl (fun t q => if (t.entry? q).isSome then t else t.put q .dir) t).AllFiles P := by
    intro ps
    induction ps with
    | nil =>
      intro t ht
      exact ht
    | cons q ps ih =>
      intro t ht
      rw [List.foldl_cons]
      apply ih
      split
      · exact ht
      · exact ht.put_dir q
  unfold FileTree.makeDirs? at ht
  split at ht
  · cases ht
    exact h
  · cases ht
  · cases ht
  · split at ht
    · cases ht
    · cases ht
      exact hfold _ t h

/-- A file is written of which it can be said, in a directory that is there. -/
theorem AllFiles.write? (h : t.AllFiles P) {above : Path} {name : String} {bytes : List UInt8}
    (hP : P name bytes) (ht : t.write? (above ++ [name]) bytes = some t') : t'.AllFiles P := by
  unfold FileTree.write? at ht
  split at ht
  · cases ht
    exact h.put_file above hP
  · cases ht
    exact h.put_file above hP
  · cases ht

/-- To remove an entry makes no file. -/
theorem AllFiles.remove? (h : t.AllFiles P) {p : Path} (ht : t.remove? p = some t') :
    t'.AllFiles P := by
  unfold FileTree.remove? at ht
  split at ht
  · cases ht
  · cases ht
    exact h.subset List.filter_sublist.subset

/-- What is found at a path is an entry of the tree. -/
theorem mem_of_entry? {p : Path} {e : FileEntry} (h : t.entry? p = some e) : (p, e) ∈ t.entries := by
  obtain ⟨before, after, hentries, -⟩ := List.lookup_eq_some_iff.mp h
  rw [hentries]
  simp

/-- What a walk along a path finds is an entry at the end of the path. -/
theorem mem_of_walk {above p : Path} (hp : p ≠ []) {e : FileEntry}
    (h : t.walk above p = .found e) : (above ++ p, e) ∈ t.entries := by
  induction p generalizing above with
  | nil => contradiction
  | cons name rest ih =>
    rw [walk.eq_def] at h
    dsimp only at h
    split at h
    · cases h
    · split at h
      · cases h
      · rename_i e' he
        cases h
        exact mem_of_entry? he
      · cases h
      · have hmem := ih (by simp) h
        rwa [List.append_assoc, List.singleton_append] at hmem

/-- A file that is read is among the entries. -/
theorem mem_of_read {above : Path} {name : String} {bytes : List UInt8}
    (h : t.read (above ++ [name]) = .ok bytes) : (above ++ [name], .file bytes) ∈ t.entries := by
  unfold read at h
  split at h
  · rename_i bytes' hreach
    cases h
    have := mem_of_walk (by simp) hreach
    simpa using this
  · cases h
  · cases h
  · cases h

end FileTree

namespace Cache

variable {P : String → List UInt8 → Prop} {c : Cache}

/-- The name of an artifact's file is no name of a sidecar. -/
theorem artifact_ne_sidecar (hash hash' : String) : hash ++ artifactExt ≠ hash' ++ sidecarExt := by
  intro h
  have hlast := congrArg (fun s => s.toList.getLast?) h
  simp [artifactExt, sidecarExt] at hlast

/-- To open a cache in a directory writes no file. -/
theorem openIn_allFiles {dir : String} {files : FileTree} {clock : Instant}
    (h : files.AllFiles P) (hc : openIn dir files clock = .ok c) : c.files.AllFiles P := by
  unfold openIn at hc
  dsimp only at hc
  split at hc
  · rename_i made hmade
    cases hc
    exact h.makeDirs? hmade
  · cases hc

/-- Storing writes two files: one of the artifact, one beside it. -/
theorem write_allFiles (h : c.files.AllFiles P) {hash : String} {bytes : List UInt8}
    (hartifact : P (hash ++ artifactExt) (Block.encode bytes))
    (hsidecar : ∀ data, P (hash ++ sidecarExt) data) (target : Target) (entrySymbol unit : String) :
    (c.write hash target bytes entrySymbol unit).1.files.AllFiles P := by
  unfold write
  split
  · exact h
  dsimp only
  split
  · exact h
  · rename_i made hmade
    have hdirs := h.makeDirs? hmade
    split
    · exact hdirs
    · rename_i written hwritten
      have hfirst := hdirs.write? hartifact hwritten
      split
      · exact hfirst
      · rename_i done hdone
        exact hfirst.write? (hsidecar _) hdone

/-- An artifact that is stored is written like one that was not there before. -/
theorem store_allFiles (h : c.files.AllFiles P) {hash : String} {bytes : List UInt8}
    (hartifact : P (hash ++ artifactExt) (Block.encode bytes))
    (hsidecar : ∀ data, P (hash ++ sidecarExt) data) (target : Target) (entrySymbol unit : String) :
    (c.store hash target bytes entrySymbol unit).1.files.AllFiles P :=
  write_allFiles h hartifact hsidecar target entrySymbol unit

/-- To clear the files of a target only removes some. -/
theorem clear_allFiles (h : c.files.AllFiles P) (target : Target) :
    (c.clear target).1.files.AllFiles P := by
  unfold clear
  split
  · rename_i files hfiles
    exact h.remove? hfiles
  · exact h

/-- To clear everything only removes files. -/
theorem clearAll_allFiles (h : c.files.AllFiles P) : c.clearAll.1.files.AllFiles P := by
  have hfold : ∀ (names : List String) (t : FileTree), t.AllFiles P →
      (names.foldl (fun t name => (t.remove? (c.root ++ [name])).getD t) t).AllFiles P := by
    intro names
    induction names with
    | nil =>
      intro t ht
      exact ht
    | cons name names ih =>
      intro t ht
      rw [List.foldl_cons]
      apply ih
      cases hr : t.remove? (c.root ++ [name]) with
      | none => exact ht
      | some t' => exact ht.remove? hr
  unfold clearAll
  split
  · exact h
  · exact hfold _ c.files h

/-- An entry that is found was decoded from the file of its artifact. -/
theorem find_hit (h : c.files.AllFiles P) {hash : String} {target : Target} {e : CacheEntry}
    (hfind : c.find hash target = .hit e) :
    ∃ compressed, P (hash ++ artifactExt) compressed ∧ Block.decode? compressed = some e.bytes := by
  unfold find at hfind
  split at hfind
  · cases hfind
  split at hfind
  · cases hfind
  · cases hfind
  split at hfind
  · rename_i m compressed _ hread
    split at hfind
    · rename_i e' he
      cases hfind
      refine ⟨compressed, h _ _ _ (FileTree.mem_of_read hread), ?_⟩
      unfold entryOf? at he
      cases hd : Block.decode? compressed with
      | none =>
        rw [hd] at he
        cases he
      | some bytes =>
        rw [hd] at he
        simp only [bind, Option.bind] at he
        split at he
        · cases he
          rfl
        · cases he
    · cases hfind
  · cases hfind

end Cache

end WasmLisp
