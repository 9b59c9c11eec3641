import Mathlib
import WasmLisp.Compiler
import WasmLisp.Proofs.Artifact
import WasmLisp.Proofs.Backend
import WasmLisp.Proofs.Cache

/-!
# The cache is memoization

* `Compiler.Honest`: every artifact in the files of the cache was built for its key;
* `Compiler.compile_honest`: compiling keeps that, and gives what the backend builds;
* `Compiler.Agree.compile`: compilers with the same backends therefore answer alike;
* `CacheEvent.compile_same_as_build`: so it is after every sequence of compilations, by any
  compilers over one directory, and of clearings.
-/

namespace WasmLisp

/-- The artifacts are the same, wherever they come from. -/
structure Artifact.Same (a b : Artifact) : Prop where
  manifest : a.manifest = b.manifest
  hash : a.hash = b.hash
  entrySymbol : a.entrySymbol = b.entrySymbol
  bytes : a.bytes = b.bytes

theorem Artifact.Same.refl (a : Artifact) : a.Same a := ⟨rfl, rfl, rfl, rfl⟩

theorem Artifact.Same.symm {a b : Artifact} (h : a.Same b) : b.Same a :=
  ⟨h.manifest.symm, h.hash.symm, h.entrySymbol.symm, h.bytes.symm⟩

theorem Artifact.Same.trans {a b c : Artifact} (h : a.Same b) (h' : b.Same c) : a.Same c :=
  ⟨h.manifest.trans h'.manifest, h.hash.trans h'.hash, h.entrySymbol.trans h'.entrySymbol,
    h.bytes.trans h'.bytes⟩

/-- A file of this name, if it is one of an artifact, holds the artifact that was built for the key
in its name. -/
def Cache.Stored (inputs : Set (List UInt8)) (name : String) (bytes : List UInt8) : Prop :=
  ∀ key, name = key ++ artifactExt → ∃ (b : Backend) (u : CompUnit) (art : Artifact),
    b.Made ∧ b.hashed u ⊆ inputs ∧ key = b.cacheKey u.hash ∧ b.build u = .ok art ∧
      bytes = Block.encode art.bytes

namespace Compiler

variable {inputs : Set (List UInt8)} {c : Compiler} {b : Backend} {u : CompUnit}

/-- Every artifact in the files of the cache was built for its key. -/
def Honest (inputs : Set (List UInt8)) (c : Compiler) : Prop :=
  ∀ cache, c.cache = some cache → cache.files.AllFiles (Cache.Stored inputs)

/-- What is found in the cache was read from a file of the key. -/
theorem lookup_some {key hash : String} {target : Target} {art : Artifact}
    (h : (c.lookup key hash target).2 = some art) :
    ∃ cache e, c.cache = some cache ∧ cache.find key target = .hit e ∧
      usable? e.bytes hash target = some art := by
  unfold lookup at h
  cases hcache : c.cache with
  | none =>
    rw [hcache] at h
    cases h
  | some cache =>
    rw [hcache] at h
    unfold Cache.lookup at h
    cases hfind : cache.find key target with
    | hit e =>
      simp only [hfind, Option.bind_some] at h
      exact ⟨cache, e, rfl, hfind, h⟩
    | miss => simp [hfind] at h
    | corrupt => simp [hfind] at h

theorem lookup_honest (h : c.Honest inputs) (key hash : String) (target : Target) :
    (c.lookup key hash target).1.Honest inputs := by
  unfold lookup
  split
  · exact h
  · rename_i cache hcache
    rintro _ ⟨rfl⟩
    exact h cache hcache

theorem build_snd (c : Compiler) (b : Backend) (u : CompUnit) : (c.build b u).2 = b.build u := by
  unfold build Backend.build
  cases b.runtime <;> rfl

theorem build_cache (c : Compiler) (b : Backend) (u : CompUnit) :
    (c.build b u).1.cache = c.cache := by
  unfold build
  cases b.runtime <;> rfl

theorem store_honest (h : c.Honest inputs) (hb : b.Made) (hu : b.hashed u ⊆ inputs)
    {art : Artifact} (hart : b.build u = .ok art) (unitName : String) :
    (c.store (b.cacheKey u.hash) art unitName).Honest inputs := by
  unfold store
  split
  · exact h
  · rename_i cache hcache
    rintro _ ⟨rfl⟩
    apply Cache.store_allFiles (h cache hcache)
    · intro key hkey
      have hsame : b.cacheKey u.hash = key := String.append_left_inj _ |>.mp hkey
      exact ⟨b, u, art, hb, hu, hsame.symm, hart, rfl⟩
    · intro data key hkey
      exact absurd hkey.symm (Cache.artifact_ne_sidecar _ _)

/-- An artifact of the cache is the one that the backend builds. -/
theorem usable_same (hinputs : Digest.Apart inputs) (h : c.Honest inputs) (hb : b.Made)
    (hu : b.hashed u ⊆ inputs) {target : Target} {art : Artifact}
    (hart : (c.lookup (b.cacheKey u.hash) u.hash target).2 = some art) :
    ∃ built, b.build u = .ok built ∧ art.Same built := by
  obtain ⟨cache, e, hcache, hfind, husable⟩ := lookup_some hart
  obtain ⟨compressed, hstored, hdecoded⟩ := Cache.find_hit (h cache hcache) hfind
  obtain ⟨b', u', art', hb', hu', hkey, hbuilt, rfl⟩ := hstored _ rfl
  obtain ⟨hbytes, hsize⟩ := Block.decode?_encode hdecoded
  obtain ⟨fns, g, hfns, hg, -, hload, rfl⟩ := Backend.build_eq_ok.mp hbuilt
  obtain ⟨hfns', hg'⟩ := Backend.build_of_cacheKey hb hb' hinputs hu hu' hkey hfns hg
  refine ⟨b.artifactOf g, ?_, ?_⟩
  · exact Backend.build_eq_ok.mpr ⟨fns, g, hfns', hg', hb.validates, hload, rfl⟩
  · unfold usable? at husable
    split at husable
    · rename_i opened hopen
      split at husable
      · cases husable
        rw [hbytes] at hopen
        obtain ⟨hmanifest, hhash, hentry, hsame⟩ := Artifact.open?_generate hg' hsize hopen
        exact ⟨hmanifest, hhash, hentry, hsame⟩
      · cases husable
    · cases husable

/-- Whether it comes from the cache or not, the artifact of a unit is the one that the backend
builds; and what is kept of it is honest. -/
theorem produce_honest (hinputs : Digest.Apart inputs) (h : c.Honest inputs) (hb : b.Made)
    (hu : b.hashed u ⊆ inputs) (target : Target) :
    (c.produce b u target).1.Honest inputs ∧
      Result.Rel Artifact.Same (c.produce b u target).2 (b.build u) := by
  have hkept := lookup_honest h (b.cacheKey u.hash) u.hash target
  cases hl : c.lookup (b.cacheKey u.hash) u.hash target with
  | mk c' found =>
    rw [hl] at hkept
    cases found with
    | some art =>
      obtain ⟨built, hbuilt, hsame⟩ := usable_same hinputs h hb hu (by rw [hl])
      simp only [produce, hl]
      rw [hbuilt]
      exact ⟨hkept, hsame⟩
    | none =>
      have hsnd := build_snd c' b u
      have hcache := build_cache c' b u
      cases hm : c'.build b u with
      | mk c'' r =>
        rw [hm] at hsnd hcache
        have hhonest : c''.Honest inputs := by
          intro cache heq
          exact hkept cache (hcache ▸ heq)
        simp only [produce, hl, hm]
        rw [← hsnd]
        cases r with
        | error e => exact ⟨hhonest, rfl⟩
        | ok art => exact ⟨store_honest hhonest hb hu hsnd.symm u.name, Artifact.Same.refl art⟩

/-- All backends were made for the running machine or configured for a target. -/
def Proper (c : Compiler) : Prop := ∀ key b, c.backends.get? key = some b → b.Made

/-- With a backend for the running machine the compiler is proper and serves that machine. -/
theorem proper_addBackend_host (preamble : Preamble) (maxDepth : Int) (hc : c.Proper) :
    (c.addBackend (.host preamble maxDepth)).Proper := by
  intro key b hb
  rw [addBackend, Table.get?_insert] at hb
  split_ifs at hb
  · cases hb
    exact .inl ⟨preamble, maxDepth, rfl⟩
  · exact hc key b hb

theorem backend?_addBackend_host (c : Compiler) (preamble : Preamble) (maxDepth : Int) :
    (c.addBackend (.host preamble maxDepth)).backend? .host = some (.host preamble maxDepth) := by
  rw [backend?, addBackend, Table.get?_insert, Target.normalize_host]
  exact if_pos rfl

/-- What is hashed when a unit is compiled. -/
def hashed (c : Compiler) (u : CompUnit) : Set (List UInt8) :=
  match c.backend? u.target.normalize with
  | some b => b.hashed u
  | none => ∅

/-- What the compiler answers if it has no cache. -/
def answer (c : Compiler) (u : CompUnit) : Result Artifact :=
  match c.backend? u.target.normalize with
  | some b => b.build u
  | none => (c.compile u).2

/-- Compiling gives what the backend builds, with or without a cache. -/
theorem compile_honest (hinputs : Digest.Apart inputs) (h : c.Honest inputs) (hc : c.Proper)
    (hu : c.hashed u ⊆ inputs) :
    (c.compile u).1.Honest inputs ∧
      Result.Rel Artifact.Same (c.compile u).2 (c.answer u) := by
  unfold answer hashed at *
  unfold compile
  cases hb : c.backend? u.target.normalize with
  | none =>
    simp only [hb]
    exact ⟨h, rfl⟩
  | some b =>
    simp only [hb] at hu ⊢
    exact produce_honest hinputs h (hc _ b hb) hu u.target.normalize

/-! ## Two compilers -/

/-- Compiling leaves the backends as they are. -/
theorem compile_backends (c : Compiler) (u : CompUnit) : (c.compile u).1.backends = c.backends := by
  have hlookup : ∀ key hash target, (c.lookup key hash target).1.backends = c.backends := by
    intro key hash target
    unfold lookup
    split <;> rfl
  have hbuild : ∀ (c : Compiler) (b : Backend), (c.build b u).1.backends = c.backends := by
    intro c b
    unfold build
    split <;> rfl
  have hstore : ∀ (c : Compiler) key art unitName,
      (c.store key art unitName).backends = c.backends := by
    intro c key art unitName
    unfold store
    split <;> rfl
  have hproduce : ∀ b target, (c.produce b u target).1.backends = c.backends := by
    intro b target
    have hl := hlookup (b.cacheKey u.hash) u.hash target
    unfold produce
    dsimp only
    split
    · rename_i heq
      rw [heq] at hl
      exact hl
    · rename_i c' heq
      rw [heq] at hl
      have hm := hbuild c' b
      split
      · rename_i heq'
        rw [heq'] at hm
        exact hm.trans hl
      · rename_i heq'
        rw [heq'] at hm
        exact (hstore _ _ _ _).trans (hm.trans hl)
  unfold compile
  dsimp only
  split
  · rfl
  · exact hproduce _ _

/-- What is hashed is up to the backends. -/
theorem hashed_congr {c' : Compiler} (h : c'.backends = c.backends) (u : CompUnit) :
    c'.hashed u = c.hashed u := by
  simp only [hashed, backend?, h]

/-- Two compilers with the same backends and honest caches. -/
structure Agree (inputs : Set (List UInt8)) (c c' : Compiler) : Prop where
  backends : c'.backends = c.backends
  proper : c.Proper
  left : c.Honest inputs
  right : c'.Honest inputs

theorem Agree.proper_right {c' : Compiler} (h : Agree inputs c c') : c'.Proper := by
  intro key b hb
  rw [h.backends] at hb
  exact h.proper key b hb

/-- The failures are the same but for the name of the unit in them. -/
def Renamed (name name' : String) (e e' : Failure) : Prop :=
  e = e' ∨ ∃ r : Report, e = .ofReport { r with module := name } ∧
    e' = .ofReport { r with module := name' }

/-- What compilers answer for units that differ in their names only is the same but for the name of
the unit in a failure, and wherever an artifact comes from. -/
theorem Agree.compile {c' : Compiler} (h : Agree inputs c c') (hinputs : Digest.Apart inputs)
    (hu : c.hashed u ⊆ inputs) (name : String) :
    Agree inputs (c.compile u).1 (c'.compile { u with name }).1 ∧
      Result.RelUpTo (Renamed u.name name) Artifact.Same (c.compile u).2
        (c'.compile { u with name }).2 := by
  have hu' : c'.hashed { u with name } ⊆ inputs := by
    rw [hashed_congr h.backends]
    exact hu
  obtain ⟨hleft, hsame⟩ := compile_honest hinputs h.left h.proper hu
  obtain ⟨hright, hsame'⟩ := compile_honest hinputs h.right h.proper_right hu'
  refine ⟨⟨?_, ?_, hleft, hright⟩, ?_⟩
  · rw [compile_backends, compile_backends, h.backends]
  · unfold Proper
    rw [compile_backends]
    exact h.proper
  · have hbackend : c'.backend? u.target.normalize = c.backend? u.target.normalize := by
      simp only [backend?, h.backends]
    unfold answer at hsame hsame'
    cases hb : c.backend? u.target.normalize with
    | none =>
      rw [hb] at hbackend
      unfold Compiler.compile
      simp only [hb, hbackend]
      refine .inr ⟨{ phase := .compile, kind := .backendFailure, detail := _ }, rfl, rfl⟩
    | some b =>
      rw [hb] at hbackend
      simp only [hb] at hsame
      simp only [hbackend] at hsame'
      -- a backend does not look at the name of a unit
      have hbuild : b.build { u with name } = b.build u := rfl
      rw [hbuild] at hsame'
      exact hsame.relUpTo (fun _ => .inl rfl) (fun _ _ _ h h' => h.trans h'.symm) hsame'

/-- For one unit they answer the same. -/
theorem Agree.compile_same {c' : Compiler} (h : Agree inputs c c') (hinputs : Digest.Apart inputs)
    (hu : c.hashed u ⊆ inputs) :
    Agree inputs (c.compile u).1 (c'.compile u).1 ∧
      Result.Rel Artifact.Same (c.compile u).2 (c'.compile u).2 := by
  obtain ⟨hagree, hsame⟩ := h.compile hinputs hu u.name
  refine ⟨hagree, hsame.rel fun e e' he => ?_⟩
  rcases he with rfl | ⟨r, rfl, rfl⟩ <;> rfl

/-- The compiler over the files of a directory. -/
def withFiles (c : Compiler) (files : FileTree) : Compiler :=
  { c with cache := c.cache.map fun cache => { cache with files } }

theorem withFiles_honest {files : FileTree} (h : files.AllFiles (Cache.Stored inputs)) (c : Compiler) :
    (c.withFiles files).Honest inputs := by
  intro cache hcache
  obtain ⟨cache', -, rfl⟩ := Option.map_eq_some_iff.mp hcache
  exact h

end Compiler

/-! ## Histories of a directory -/

/-- What can happen to the files of a cache: a compiler compiles a unit, which reads the files and
stores artifacts there, a new compiler opens the directory, or entries are cleared. -/
inductive CacheEvent where
  | compile (c : Compiler) (u : CompUnit)
  | opened (dir : String) (clock : Instant)
  | clear (cache : Cache) (target : Target)
  | clearAll (cache : Cache)

namespace CacheEvent

/-- The files after an event. -/
def run (files : FileTree) : CacheEvent → FileTree
  | .compile c u => (((c.withFiles files).compile u).1.cache.map (·.files)).getD files
  | .opened dir clock =>
    match Cache.openIn dir files clock with
    | .ok cache => cache.files
    | .error _ => files
  | .clear cache target => ({ cache with files } : Cache).clear target |>.1.files
  | .clearAll cache => ({ cache with files } : Cache).clearAll.1.files

/-- The files after a history. -/
def runAll (files : FileTree) (events : List CacheEvent) : FileTree := events.foldl run files

/-- The compilers have proper backends, and what they hash is among the inputs. -/
def Fits (inputs : Set (List UInt8)) : CacheEvent → Prop
  | .compile c u => c.Proper ∧ c.hashed u ⊆ inputs
  | _ => True

variable {inputs : Set (List UInt8)} {files : FileTree}

/-- Every event keeps the files honest. -/
theorem run_stored (hinputs : Digest.Apart inputs) (h : files.AllFiles (Cache.Stored inputs))
    {e : CacheEvent} (he : e.Fits inputs) : (e.run files).AllFiles (Cache.Stored inputs) := by
  cases e with
  | compile c u =>
    have hkept := (Compiler.compile_honest hinputs (Compiler.withFiles_honest h c) he.1 he.2).1
    simp only [run]
    cases hcache : ((c.withFiles files).compile u).1.cache with
    | none => exact h
    | some cache => exact hkept cache hcache
  | opened dir clock =>
    simp only [run]
    split
    · rename_i cache hopen
      exact Cache.openIn_allFiles h hopen
    · exact h
  | clear cache target => exact Cache.clear_allFiles (c := { cache with files }) h target
  | clearAll cache => exact Cache.clearAll_allFiles (c := { cache with files }) h

theorem runAll_stored (hinputs : Digest.Apart inputs) {events : List CacheEvent}
    (hevents : ∀ e ∈ events, e.Fits inputs) (h : files.AllFiles (Cache.Stored inputs)) :
    (runAll files events).AllFiles (Cache.Stored inputs) := by
  unfold runAll
  induction events generalizing files with
  | nil => exact h
  | cons e events ih =>
    rw [List.foldl_cons]
    apply ih (fun e' he' => hevents e' (List.mem_cons_of_mem _ he'))
    exact run_stored hinputs h (hevents e List.mem_cons_self)

/-- No file is one of an artifact. -/
def Unused (files : FileTree) : Prop :=
  files.AllFiles fun name _ => ∀ key, name ≠ key ++ Cache.artifactExt

/-- The cache is memoization. After every history of a directory that held no artifacts at first,
compiling a unit gives the failure or, up to where it comes from, the artifact that the backend
builds with no cache at all, if no two of the byte strings that were hashed have the same digest. -/
theorem compile_same_as_build (hinputs : Digest.Apart inputs) (hfiles : Unused files)
    {events : List CacheEvent} (hevents : ∀ e ∈ events, e.Fits inputs) {c : Compiler} {u : CompUnit}
    (hlast : (CacheEvent.compile c u).Fits inputs) {b : Backend}
    (hb : c.backend? u.target.normalize = some b) :
    Result.Rel Artifact.Same ((c.withFiles (runAll files events)).compile u).2 (b.build u) := by
  have hstart : files.AllFiles (Cache.Stored inputs) := by
    intro above name bytes hmem key hkey
    exact absurd hkey (hfiles above name bytes hmem key)
  have hhonest := Compiler.withFiles_honest (runAll_stored hinputs hevents hstart) c
  have hsame := (Compiler.compile_honest hinputs hhonest hlast.1 hlast.2).2
  have hanswer : (c.withFiles (runAll files events)).answer u = b.build u := by
    have hsome : (c.withFiles (runAll files events)).backend? u.target.normalize = some b := hb
    unfold Compiler.answer
    rw [hsome]
  rwa [hanswer] at hsame

/-- A unit, and a compiler for the running machine with a cache. -/
def oneUnit : CompUnit := { name := "one", forms := [.const 1] }

def hostBackend : Backend := .host ⟨""⟩ 0

def cachingCompiler : Compiler :=
  ({ cache := some { dir := "cache" } } : Compiler).addBackend hostBackend

/-- What is hashed to compile the unit. -/
def oneHashed : List (List UInt8) :=
  [oneUnit.outline.encode, (oneUnit.hash ++ "\x00" ++ hostBackend.fingerprint).toUTF8.toList,
    hostBackend.preamble.source.toUTF8.toList]

/-- A unit that was compiled, and compiled again by a compiler that opened the directory anew. -/
theorem compile_same_as_build_again :
    (hostBackend.build oneUnit).isOk = true ∧
      Result.Rel Artifact.Same
        ((cachingCompiler.withFiles (runAll {} [.opened "cache" ⟨0⟩,
          .compile cachingCompiler oneUnit, .opened "cache" ⟨1⟩])).compile oneUnit).2
        (hostBackend.build oneUnit) := by
  have hinputs : Digest.Apart {xs | xs ∈ oneHashed} := Digest.apart_of_nodup (by decide +kernel)
  have hbackend : cachingCompiler.backend? oneUnit.target.normalize = some hostBackend := by
    rw [show oneUnit.target = .host from rfl, Target.normalize_host]
    exact Compiler.backend?_addBackend_host _ _ _
  have hproper : cachingCompiler.Proper := by
    apply Compiler.proper_addBackend_host
    intro key b hb
    cases hb
  have hfits : (CacheEvent.compile cachingCompiler oneUnit).Fits {xs | xs ∈ oneHashed} := by
    refine ⟨hproper, ?_⟩
    rw [Compiler.hashed, hbackend]
    intro xs hxs
    simpa [Backend.hashed, oneHashed] using hxs
  refine ⟨by decide +kernel, compile_same_as_build hinputs ?_ ?_ hfits hbackend⟩
  · intro above name bytes hmem
    cases hmem
  · intro e he
    simp only [List.mem_cons, List.not_mem_nil, or_false] at he
    rcases he with rfl | rfl | rfl
    · trivial
    · exact hfits
    · trivial

end CacheEvent

end WasmLisp
