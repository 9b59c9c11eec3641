import WasmLisp.Backend
import WasmLisp.Cache

/-!
The compiler: backends by target in front of which stands the object cache. An artifact that the
cache holds is used if it can be opened and is of the unit's digest; every other is built anew.
-/

namespace WasmLisp

/-- Backends by the keys of their targets, the cache, and counts of what was done. -/
structure Compiler where
  cache : Option Cache := none
  backends : Table Backend := []
  /-- How many builds each backend has begun. -/
  builds : Table Nat := []
  /-- Whether a build has made a backend load its preamble. -/
  loaded : Bool := false
  metrics : Metrics := {}
  deriving Inhabited

namespace Compiler

/-- Adds a backend, in place of one for the same target. -/
def addBackend (c : Compiler) (b : Backend) : Compiler :=
  { c with backends := c.backends.insert b.target.key b }

/-- The backend for a target. -/
def backend? (c : Compiler) (target : Target) : Option Backend :=
  c.backends.get? target.normalize.key

/-- How many builds the backend of a target has begun. -/
def buildCount (c : Compiler) (key : String) : Nat := (c.builds.get? key).getD 0

/-- The artifact that bytes of the cache are, if they are one of this digest. -/
def usable? (bytes : List UInt8) (hash : String) (target : Target) : Option Artifact :=
  match Artifact.open? bytes target with
  | .ok art => if art.hash = hash then some { art with fromCache := true } else none
  | .error _ => none

/-- Looks for the artifact of a digest in the cache. -/
def lookup (c : Compiler) (key hash : String) (target : Target) : Compiler × Option Artifact :=
  match c.cache with
  | none => (c, none)
  | some cache =>
    let (cache, entry) := cache.lookup key target
    ({ c with cache := some cache }, entry.bind fun e => usable? e.bytes hash target)

/-- Keeps an artifact in the cache. A failure to do so is no failure to compile. -/
def store (c : Compiler) (key : String) (art : Artifact) (unitName : String) : Compiler :=
  match c.cache with
  | none => c
  | some cache =>
    { c with cache := some (cache.store key art.target art.bytes art.entrySymbol unitName).1 }

/-- Builds a unit with a backend, and counts the build once the preamble is loaded. -/
def build (c : Compiler) (b : Backend) (u : CompUnit) : Compiler × Result Artifact :=
  let c := { c with loaded := true }
  match b.runtime with
  | .error e => (c, .error e)
  | .ok fns =>
    let key := b.target.key
    ({ c with builds := c.builds.insert key (c.buildCount key + 1) }, b.buildWith fns u)

/-- The artifact of a unit: from the cache, or built and kept there. -/
def produce (c : Compiler) (b : Backend) (u : CompUnit) (target : Target) :
    Compiler × Result Artifact :=
  let hash := u.hash
  let key := b.cacheKey hash
  match c.lookup key hash target with
  | (c, some art) => (c, .ok art)
  | (c, none) =>
    -- nothing is kept of a build that fails, so the next request tries again
    match c.build b u with
    | (c, .error e) => (c, .error e)
    | (c, .ok art) => (c.store key art u.name, .ok art)

/-- The counts of the compiler and of its cache. -/
def allMetrics (c : Compiler) : Metrics :=
  match c.cache with
  | some cache => c.metrics.union cache.metrics
  | none => c.metrics

/-- Closes the validators of all backends. -/
def closeValidators (c : Compiler) : Compiler :=
  { c with backends := c.backends.map fun (key, b) => (key, { b with validates := false }) }

/-- How the counts name the result of compiling. -/
def resultName : Result Artifact → String
  | .ok art => if art.fromCache then "hit" else "miss"
  | .error _ => "error"

/-- Compiles a unit for its target. -/
def compile (c : Compiler) (u : CompUnit) : Compiler × Result Artifact :=
  let target := u.target.normalize
  match c.backend? target with
  | none =>
    (c, .error (.ofReport
      { phase := .compile, kind := .backendFailure, module := u.name
        detail := s!"no backend for target {target.describe}" }))
  | some b =>
    let (c, r) := c.produce b u target
    let labels := [("result", resultName r), ("target", target.key)]
    let metrics := (c.metrics.bump "jitlink_compiler_compiles_total" labels).bump
      "jitlink_compiler_compile_duration_seconds" labels
    ({ c with metrics }, r)

end Compiler

end WasmLisp
