import WasmLisp.Cache.Block
import WasmLisp.Cache.FileTree
import WasmLisp.Cache.Sidecar
import WasmLisp.Failure
import WasmLisp.Metrics
import WasmLisp.Target

/-!
The object cache: artifacts by hash and target. An entry is two files below the directory of its
target, the compressed artifact and the sidecar, and the sidecar is written last. Whatever cannot
be read back exactly is a miss.
-/

namespace WasmLisp

/-- An artifact that the cache holds. -/
structure CacheEntry where
  createdAt : Instant
  hash : String
  target : String
  entrySymbol : String
  unit : String
  bytes : List UInt8
  deriving DecidableEq, Repr, Inhabited

/-- A cache: the directory of its entries, the files there, the time of its clock and its counts. -/
structure Cache where
  dir : String
  files : FileTree := {}
  clock : Instant := ⟨0⟩
  metrics : Metrics := {}
  deriving Repr, Inhabited

namespace Cache

/-- The directory of the version of generated code. -/
def version : String := "v1"

def artifactExt : String := ".wasm.sz"
def sidecarExt : String := ".meta.yaml"

/-- The path below which all entries are. -/
def root (c : Cache) : Path := Path.join [c.dir, version]

/-- The root as messages show it. -/
def rootText (c : Cache) : String := c.root.text

/-- Opens a cache over files; its root is made if need be. -/
def openIn (dir : String) (files : FileTree) (clock : Instant) : Result Cache :=
  let c : Cache := { dir, files, clock }
  match files.makeDirs? c.root with
  | some files => .ok { c with files }
  | none => .error (.io c.rootText (some (.plain (files.makeMessage c.root))))

/-- A hash has at least four characters, all hexadecimal digits. -/
def validHash (hash : String) : Bool :=
  4 ≤ hash.utf8ByteSize && hash.toList.all fun c => c.isDigit || ('a' ≤ c && c ≤ 'f')

/-- The directory of an entry. -/
def entryDir (c : Cache) (hash : String) (target : Target) : Path :=
  Path.join [c.rootText, target.key, String.ofList (hash.toList.take 2)]

def artifactPath (c : Cache) (hash : String) (target : Target) : Path :=
  c.entryDir hash target ++ [hash ++ artifactExt]

def sidecarPath (c : Cache) (hash : String) (target : Target) : Path :=
  c.entryDir hash target ++ [hash ++ sidecarExt]

/-- What looking up an entry can find. -/
inductive Found where
  | hit (entry : CacheEntry)
  | miss
  | corrupt
  deriving DecidableEq, Repr, Inhabited

def Found.name : Found → String
  | .hit _ => "hit"
  | .miss => "miss"
  | .corrupt => "corrupt"

/-- The entry that a sidecar and the file beside it make, if they agree. -/
def entryOf? (m : Sidecar) (hash key : String) (compressed : List UInt8) : Option CacheEntry := do
  let bytes ← Block.decode? compressed
  if m.hash = hash && m.target = key && (bytes.length : Int) = m.size
      && Digest.hex64 bytes = m.checksum then
    some { createdAt := m.createdAt, hash, target := key, entrySymbol := m.entrySymbol
           unit := m.unit, bytes }
  else none

/-- Looks for an entry. Without a sidecar there is none; whatever is wrong with one that has a
sidecar makes it corrupt. -/
def find (c : Cache) (hash : String) (target : Target) : Found :=
  if !validHash hash then .miss
  else match c.files.read (c.sidecarPath hash target) with
    | .error .absent => .miss
    | .error .unreadable => .corrupt
    | .ok raw =>
      match Sidecar.read? raw, c.files.read (c.artifactPath hash target) with
      | some m, .ok compressed =>
        match entryOf? m hash target.key compressed with
        | some e => .hit e
        | none => .corrupt
      | _, _ => .corrupt

/-- Looks up an entry and counts what was found. -/
def lookup (c : Cache) (hash : String) (target : Target) : Cache × Option CacheEntry :=
  let found := c.find hash target
  let metrics := c.metrics.bump "jitlink_cache_lookups_total"
    [("result", found.name), ("target", target.key)]
  ({ c with metrics }, match found with
    | .hit e => some e
    | _ => none)

/-- Writes the files of an entry. What was written before a failure stays. -/
def write (c : Cache) (hash : String) (target : Target) (bytes : List UInt8)
    (entrySymbol unit : String) : Cache × Option Failure :=
  if !validHash hash then (c, some (.invalidInput .cache s!"invalid hash {Text.quoted hash}"))
  else
    let failed := Failure.io (hash ++ "@" ++ target.key) (some (.plain "write"))
    let m : Sidecar :=
      { createdAt := c.clock, hash, target := target.key, entrySymbol, unit
        checksum := Digest.hex64 bytes, size := bytes.length }
    match c.files.makeDirs? (c.entryDir hash target) with
    | none => (c, some failed)
    | some files =>
      match files.write? (c.artifactPath hash target) (Block.encode bytes) with
      | none => ({ c with files }, some failed)
      | some files =>
        -- an entry is there once its sidecar is, so the sidecar comes after what it describes
        match files.write? (c.sidecarPath hash target) m.write.toUTF8.toList with
        | none => ({ c with files }, some failed)
        | some files => ({ c with files }, none)

/-- Stores an artifact and counts the outcome. -/
def store (c : Cache) (hash : String) (target : Target) (bytes : List UInt8)
    (entrySymbol unit : String) : Cache × Option Failure :=
  let (c, failure) := c.write hash target bytes entrySymbol unit
  let metrics := c.metrics.bump "jitlink_cache_writes_total"
    [("result", if failure.isSome then "error" else "success"), ("target", target.key)]
  ({ c with metrics }, failure)

/-- Removes all entries of a target. -/
def clear (c : Cache) (target : Target) : Cache × Option Failure :=
  match c.files.remove? (Path.join [c.rootText, target.key]) with
  | some files => ({ c with files }, none)
  | none => (c, some (.io target.key (some (.plain "remove"))))

/-- Removes everything below the root. -/
def clearAll (c : Cache) : Cache × Option Failure :=
  match c.files.list? c.root with
  | none => (c, some (.io c.rootText (some (.plain "open"))))
  | some names =>
    let removed (t : FileTree) (name : String) := (t.remove? (c.root ++ [name])).getD t
    ({ c with files := (names.map (·.1)).foldl removed c.files }, none)

/-- The size of what the cache holds for one target. -/
structure TargetStats where
  target : String
  entries : Nat
  bytes : Nat
  deriving DecidableEq, Repr, Inhabited

/-- What every name of a file still being written starts with. -/
def temporaryMark : String := ".tmp-"

/-- The files below a directory of the root. -/
def statsOf (c : Cache) (name : String) : TargetStats :=
  let files := (c.files.filesBelow (c.root ++ [name])).filterMap fun (p, bytes) =>
    let file := (p.getLast?).getD ""
    if file.startsWith temporaryMark then none else some (file, bytes.length)
  { target := name, entries := (files.filter (·.1.endsWith sidecarExt)).length
    bytes := (files.map (·.2)).foldl (· + ·) 0 }

/-- The sizes of all targets in the order of their names. -/
def stats (c : Cache) : Result (List TargetStats) :=
  match c.files.list? c.root with
  | none => .error (.io c.rootText (some (.plain "open")))
  | some names => .ok (names.filterMap fun (name, e) =>
      if e = .dir then some (c.statsOf name) else none)

end Cache

end WasmLisp
