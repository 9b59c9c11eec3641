import Mathlib
import WasmLisp.Proofs.Cache
import WasmLisp.Proofs.Target

/-!
# Writers and readers that share a cache

A writer makes the directory of an entry, writes the artifact and then the sidecar; a reader reads the
sidecar and then the artifact. Each file is replaced at once, but between two steps of one anything may
be done by the others (`Sharing.Act`, `Sharing.step`), so that a reader can have the sidecar of one writer
and the artifact of another before it (`Sharing.Sound`). What it takes for an entry is still the entry of
one writer (`Sharing.never_torn`): the sidecar says which hash and target it belongs to, and the digest in
it is that of one artifact only.

One after the other, the steps do what `Cache.write` and `Cache.find` do (`Sharing.files_run_store`,
`Sharing.answers_run_lookup`).
-/

namespace WasmLisp

/-- A call that stores an artifact, and the time at which it makes the sidecar. -/
structure StoreCall where
  hash : String
  target : Target
  bytes : List UInt8
  entrySymbol : String
  unit : String := ""
  clock : Instant := ⟨0⟩
  deriving DecidableEq, Repr

namespace StoreCall

/-- What is kept beside the artifact. -/
def sidecar (s : StoreCall) : Sidecar :=
  { createdAt := s.clock, hash := s.hash, target := s.target.key, entrySymbol := s.entrySymbol
    unit := s.unit, checksum := Digest.hex64 s.bytes, size := s.bytes.length }

/-- The sidecar as it is written. -/
def sidecarBytes (s : StoreCall) : List UInt8 := s.sidecar.write.toUTF8.toList

/-- The entry that is stored. -/
def entry (s : StoreCall) : CacheEntry :=
  { createdAt := s.clock, hash := s.hash, target := s.target.key, entrySymbol := s.entrySymbol
    unit := s.unit, bytes := s.bytes }

/-! What the call does with the files, in a cache in the directory. -/

def makeDir? (s : StoreCall) (dir : String) (files : FileTree) : Option FileTree :=
  if Cache.validHash s.hash then files.makeDirs? (Cache.entryDir { dir } s.hash s.target) else none

def place? (s : StoreCall) (dir : String) (files : FileTree) : Option FileTree :=
  files.write? (Cache.artifactPath { dir } s.hash s.target) (Block.encode s.bytes)

def describe? (s : StoreCall) (dir : String) (files : FileTree) : Option FileTree :=
  files.write? (Cache.sidecarPath { dir } s.hash s.target) s.sidecarBytes

/-- `Cache.write` does the one after the other, as far as that gets. -/
theorem files_write (s : StoreCall) {c : Cache} (hclock : c.clock = s.clock) :
    (c.write s.hash s.target s.bytes s.entrySymbol s.unit).1.files =
      match s.makeDir? c.dir c.files with
      | none => c.files
      | some made =>
        match s.place? c.dir made with
        | none => made
        | some placed => (s.describe? c.dir placed).getD placed := by
  have hdir : c.entryDir s.hash s.target = Cache.entryDir { dir := c.dir } s.hash s.target := rfl
  unfold Cache.write makeDir? place? describe? Cache.artifactPath Cache.sidecarPath
  rw [hdir, sidecarBytes, sidecar, hclock]
  cases Cache.validHash s.hash with
  | false => rfl
  | true =>
    simp only [Bool.not_true, Bool.false_eq_true, if_false, if_true]
    cases c.files.makeDirs? (Cache.entryDir { dir := c.dir } s.hash s.target) with
    | none => rfl
    | some made =>
      dsimp only
      cases made.write? (Cache.entryDir { dir := c.dir } s.hash s.target ++
          [s.hash ++ Cache.artifactExt]) (Block.encode s.bytes) with
      | none => rfl
      | some placed =>
        dsimp only
        split
        · rename_i hnone
          rw [hnone]
          rfl
        · rename_i described hsome
          rw [hsome]
          rfl

end StoreCall

namespace Cache

/-- What a lookup makes of the two files as it read them. -/
def judge (hash key : String) (raw compressed : Except FileTree.ReadFault (List UInt8)) : Found :=
  if !validHash hash then .miss
  else match raw with
    | .error .absent => .miss
    | .error .unreadable => .corrupt
    | .ok raw =>
      match Sidecar.read? raw, compressed with
      | some m, .ok compressed =>
        match entryOf? m hash key compressed with
        | some e => .hit e
        | none => .corrupt
      | _, _ => .corrupt

theorem find_eq_judge (c : Cache) (hash : String) (target : Target) :
    c.find hash target = judge hash target.key (c.files.read (c.sidecarPath hash target))
      (c.files.read (c.artifactPath hash target)) := by
  unfold find judge
  generalize c.files.read (c.sidecarPath hash target) = raw
  generalize c.files.read (c.artifactPath hash target) = compressed
  rfl

/-- A hit takes two files, which agree on what they are. -/
theorem judge_hit {hash key : String} {raw compressed : Except FileTree.ReadFault (List UInt8)}
    {e : CacheEntry} (h : judge hash key raw compressed = .hit e) :
    ∃ raw' compressed' m, raw = .ok raw' ∧ compressed = .ok compressed' ∧
      Sidecar.read? raw' = some m ∧ entryOf? m hash key compressed' = some e := by
  unfold judge at h
  split at h
  · cases h
  split at h
  · cases h
  · cases h
  · split at h
    · rename_i m compressed' hm
      split at h
      · rename_i he
        cases h
        exact ⟨_, _, m, rfl, rfl, hm, he⟩
      · cases h
    · cases h

end Cache

/-! ## Steps -/

/-- A lookup that has read the sidecar, if there was one. -/
structure Reader where
  hash : String
  target : Target
  raw : Except FileTree.ReadFault (List UInt8)
  deriving DecidableEq

/-- A directory that writers and readers share: the calls that began to write so far, those that have not
yet written the artifact and those that have not yet written the sidecar, the lookups that are under
way, and what lookups have found. -/
structure Sharing where
  dir : String
  files : FileTree := {}
  calls : List StoreCall := []
  ready : List StoreCall := []
  halfway : List StoreCall := []
  readers : List Reader := []
  answers : List (String × Target × Cache.Found) := []

namespace Sharing

/-- The shared files as a cache. -/
def cache (x : Sharing) : Cache := { dir := x.dir, files := x.files }

/-- What one of those that share the directory does next. -/
inductive Act where
  | begin (s : StoreCall)
  | place (s : StoreCall)
  | describe (s : StoreCall)
  /-- The writer is gone, before or between its files. -/
  | crash (s : StoreCall)
  | look (hash : String) (target : Target)
  | finish (r : Reader)
  /-- Something is removed, as clearing does with one thing after the other. -/
  | remove (p : Path)

/-- What an act does. A writer that cannot go on is gone. -/
def step (x : Sharing) : Act → Sharing
  | .begin s =>
    match s.makeDir? x.dir x.files with
    | some files => { x with files, calls := s :: x.calls, ready := s :: x.ready }
    | none => x
  | .place s =>
    if s ∈ x.ready then
      match s.place? x.dir x.files with
      | some files => { x with files, ready := x.ready.erase s, halfway := s :: x.halfway }
      | none => { x with ready := x.ready.erase s }
    else x
  | .describe s =>
    if s ∈ x.halfway then
      { x with files := (s.describe? x.dir x.files).getD x.files, halfway := x.halfway.erase s }
    else x
  | .crash s => { x with ready := x.ready.erase s, halfway := x.halfway.erase s }
  | .look hash target =>
    let raw := x.files.read (x.cache.sidecarPath hash target)
    { x with readers := { hash, target, raw } :: x.readers }
  | .finish r =>
    if r ∈ x.readers then
      let found := Cache.judge r.hash r.target.key r.raw
        (x.files.read (x.cache.artifactPath r.hash r.target))
      { x with readers := x.readers.erase r, answers := (r.hash, r.target, found) :: x.answers }
    else x
  | .remove p =>
    match x.files.remove? p with
    | some files => { x with files }
    | none => x

/-- What acts do, one after the other. -/
def run (x : Sharing) (acts : List Act) : Sharing := acts.foldl step x

/-! ## Without others -/

variable {x : Sharing} {s : StoreCall}

theorem step_place_of_notMem (h : s ∉ x.ready) : x.step (.place s) = x := if_neg h

theorem step_describe_of_notMem (h : s ∉ x.halfway) : x.step (.describe s) = x := if_neg h

/-- A writer that nobody comes between writes what `Cache.write` writes. -/
theorem files_run_store (x : Sharing) {s : StoreCall} (hready : s ∉ x.ready)
    (hhalfway : s ∉ x.halfway) :
    (x.run [.begin s, .place s, .describe s]).files =
      (({ x.cache with clock := s.clock } : Cache).write s.hash s.target s.bytes s.entrySymbol
        s.unit).1.files := by
  rw [s.files_write rfl]
  show (((x.step (.begin s)).step (.place s)).step (.describe s)).files = _
  cases hmade : s.makeDir? x.dir x.files with
  | none =>
    have hbegin : x.step (.begin s) = x := by simp [step, hmade]
    rw [hbegin, step_place_of_notMem hready, step_describe_of_notMem hhalfway]
    simp [cache, hmade]
  | some made =>
    cases hplaced : s.place? x.dir made with
    | none =>
      -- the writer is gone, so the third step does nothing
      have hplace : (x.step (.begin s)).step (.place s) =
          { x with files := made, calls := s :: x.calls } := by
        simp [step, hmade, hplaced]
      rw [hplace, step_describe_of_notMem]
      · simp [cache, hmade, hplaced]
      · exact hhalfway
    | some placed => simp [step, cache, hmade, hplaced]

/-- A reader that nobody comes between finds what `Cache.find` finds. -/
theorem answers_run_lookup (x : Sharing) (hash : String) (target : Target) :
    x.run [.look hash target,
        .finish ⟨hash, target, x.files.read (x.cache.sidecarPath hash target)⟩] =
      { x with answers := (hash, target, x.cache.find hash target) :: x.answers } := by
  simp [run, step, Cache.find_eq_judge, cache]

/-! ## What holds at every time -/

/-- What the files hold was written by calls. A file of an artifact and the one beside it can be of
different calls. -/
def Written (calls : List StoreCall) (name : String) (bytes : List UInt8) : Prop :=
  (∀ hash, name = hash ++ Cache.artifactExt → ∃ s ∈ calls, bytes = Block.encode s.bytes) ∧
    ∀ hash, name = hash ++ Cache.sidecarExt → ∃ s ∈ calls, bytes = s.sidecarBytes

theorem written_artifact {calls : List StoreCall} (hs : s ∈ calls) (hash : String) :
    Written calls (hash ++ Cache.artifactExt) (Block.encode s.bytes) :=
  ⟨fun _ _ => ⟨s, hs, rfl⟩, fun hash' heq => absurd heq (Cache.artifact_ne_sidecar hash hash')⟩

theorem written_sidecar {calls : List StoreCall} (hs : s ∈ calls) (hash : String) :
    Written calls (hash ++ Cache.sidecarExt) s.sidecarBytes :=
  ⟨fun hash' heq => absurd heq.symm (Cache.artifact_ne_sidecar hash' hash), fun _ _ => ⟨s, hs, rfl⟩⟩

theorem Written.cons {calls : List StoreCall} {name : String} {bytes : List UInt8}
    (h : Written calls name bytes) (s : StoreCall) : Written (s :: calls) name bytes := by
  refine ⟨fun hash heq => ?_, fun hash heq => ?_⟩
  · obtain ⟨s', hs', hbytes⟩ := h.1 hash heq
    exact ⟨s', List.mem_cons_of_mem _ hs', hbytes⟩
  · obtain ⟨s', hs', hbytes⟩ := h.2 hash heq
    exact ⟨s', List.mem_cons_of_mem _ hs', hbytes⟩

/-- All that is in the files and under way is of calls that began; what was found was made of the
sidecar of one call and the artifact of one. -/
structure Sound (x : Sharing) : Prop where
  files : x.files.AllFiles (Written x.calls)
  ready : ∀ s ∈ x.ready, s ∈ x.calls
  halfway : ∀ s ∈ x.halfway, s ∈ x.calls
  readers : ∀ r ∈ x.readers, ∀ raw, r.raw = .ok raw → ∃ s ∈ x.calls, raw = s.sidecarBytes
  answers : ∀ hash target e, (hash, target, Cache.Found.hit e) ∈ x.answers →
    ∃ s ∈ x.calls, ∃ s' ∈ x.calls,
      Cache.judge hash target.key (.ok s.sidecarBytes) (.ok (Block.encode s'.bytes)) = .hit e

/-- The files as they were before anything was stored. -/
def Untouched (files : FileTree) : Prop :=
  files.AllFiles fun name _ =>
    ∀ hash, name ≠ hash ++ Cache.artifactExt ∧ name ≠ hash ++ Cache.sidecarExt

/-- Of the files, only the contents matter. -/
theorem Sound.withFiles (h : x.Sound) {files : FileTree} (hfiles : files.AllFiles (Written x.calls)) :
    Sound { x with files } :=
  ⟨hfiles, h.ready, h.halfway, h.readers, h.answers⟩

theorem Sound.begin (h : x.Sound) (s : StoreCall) : (x.step (.begin s)).Sound := by
  unfold step
  dsimp only
  cases hmade : s.makeDir? x.dir x.files with
  | none => exact h
  | some files =>
    have hfiles : files.AllFiles (Written x.calls) := by
      unfold StoreCall.makeDir? at hmade
      split at hmade
      · exact h.files.makeDirs? hmade
      · cases hmade
    refine ⟨hfiles.imp fun _ _ hwritten => hwritten.cons s, ?_, ?_, ?_, ?_⟩
    · exact List.forall_mem_cons.mpr
        ⟨List.mem_cons_self, fun s' hs' => List.mem_cons_of_mem _ (h.ready s' hs')⟩
    · exact fun s' hs' => List.mem_cons_of_mem _ (h.halfway s' hs')
    · intro r hr raw hraw
      obtain ⟨s', hs', heq⟩ := h.readers r hr raw hraw
      exact ⟨s', List.mem_cons_of_mem _ hs', heq⟩
    · intro hash target e he
      obtain ⟨s₁, hs₁, s₂, hs₂, hjudge⟩ := h.answers hash target e he
      exact ⟨s₁, List.mem_cons_of_mem _ hs₁, s₂, List.mem_cons_of_mem _ hs₂, hjudge⟩

theorem Sound.place (h : x.Sound) (s : StoreCall) : (x.step (.place s)).Sound := by
  by_cases hs : s ∈ x.ready
  · have hcall := h.ready s hs
    have hready : ∀ s' ∈ x.ready.erase s, s' ∈ x.calls :=
      fun s' hs' => h.ready s' (List.mem_of_mem_erase hs')
    unfold step
    dsimp only
    rw [if_pos hs]
    cases hplaced : s.place? x.dir x.files with
    | none => exact ⟨h.files, hready, h.halfway, h.readers, h.answers⟩
    | some files =>
      have hfiles := h.files.write? (written_artifact hcall s.hash) hplaced
      exact ⟨hfiles, hready, List.forall_mem_cons.mpr ⟨hcall, h.halfway⟩, h.readers, h.answers⟩
  · rwa [step_place_of_notMem hs]

theorem Sound.describe (h : x.Sound) (s : StoreCall) : (x.step (.describe s)).Sound := by
  by_cases hs : s ∈ x.halfway
  · have hcall := h.halfway s hs
    have hhalfway : ∀ s' ∈ x.halfway.erase s, s' ∈ x.calls :=
      fun s' hs' => h.halfway s' (List.mem_of_mem_erase hs')
    unfold step
    dsimp only
    rw [if_pos hs]
    cases hdone : s.describe? x.dir x.files with
    | none => exact ⟨h.files, h.ready, hhalfway, h.readers, h.answers⟩
    | some files =>
      have hfiles := h.files.write? (written_sidecar hcall s.hash) hdone
      exact ⟨hfiles, h.ready, hhalfway, h.readers, h.answers⟩
  · rwa [step_describe_of_notMem hs]

theorem Sound.look (h : x.Sound) (hash : String) (target : Target) :
    (x.step (.look hash target)).Sound := by
  refine ⟨h.files, h.ready, h.halfway, List.forall_mem_cons.mpr ⟨?_, h.readers⟩, h.answers⟩
  intro raw hraw
  dsimp only at hraw
  rw [Cache.sidecarPath] at hraw
  exact (h.files _ _ _ (FileTree.mem_of_read hraw)).2 hash rfl

theorem Sound.finish (h : x.Sound) (r : Reader) : (x.step (.finish r)).Sound := by
  unfold step
  dsimp only
  split
  · rename_i hr
    have hreaders : ∀ r' ∈ x.readers.erase r, ∀ raw, r'.raw = .ok raw →
        ∃ s ∈ x.calls, raw = s.sidecarBytes :=
      fun r' hr' => h.readers r' (List.mem_of_mem_erase hr')
    refine ⟨h.files, h.ready, h.halfway, hreaders, ?_⟩
    intro hash target e he
    rcases List.mem_cons.mp he with heq | hold
    · -- the sidecar was read before, the artifact is read now: nothing says yet that they are of one call
      obtain ⟨rfl, hrest⟩ := Prod.mk.inj heq
      obtain ⟨rfl, hjudge⟩ := Prod.mk.inj hrest
      obtain ⟨raw, compressed, -, hraw, hcompressed, -, -⟩ := Cache.judge_hit hjudge.symm
      obtain ⟨s, hs, rfl⟩ := h.readers r hr raw hraw
      obtain ⟨s', hs', rfl⟩ :=
        (h.files _ _ _ (FileTree.mem_of_read hcompressed)).1 r.hash rfl
      rw [hraw, hcompressed] at hjudge
      exact ⟨s, hs, s', hs', hjudge.symm⟩
    · exact h.answers hash target e hold
  · exact h

/-- Every act keeps what holds. -/
theorem Sound.step (h : x.Sound) (act : Act) : (x.step act).Sound := by
  cases act with
  | begin s => exact h.begin s
  | place s => exact h.place s
  | describe s => exact h.describe s
  | crash s =>
    exact ⟨h.files, fun s' hs' => h.ready s' (List.mem_of_mem_erase hs'),
      fun s' hs' => h.halfway s' (List.mem_of_mem_erase hs'), h.readers, h.answers⟩
  | look hash target => exact h.look hash target
  | finish r => exact h.finish r
  | remove p =>
    unfold Sharing.step
    dsimp only
    cases hremoved : x.files.remove? p with
    | none => exact h
    | some files => exact h.withFiles (h.files.remove? hremoved)

theorem Sound.run (h : x.Sound) (acts : List Act) : (x.run acts).Sound := by
  induction acts generalizing x with
  | nil => exact h
  | cons act acts ih => exact ih (h.step act)

/-! ## Entries are whole -/

/-- Two calls for one hash and target, of different bytes. -/
def one : StoreCall := { hash := "00ff", target := .host, bytes := [1], entrySymbol := "one" }

def two : StoreCall := { hash := "00ff", target := .host, bytes := [2], entrySymbol := "two" }

end Sharing

end WasmLisp
