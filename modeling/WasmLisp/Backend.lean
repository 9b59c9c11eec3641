import WasmLisp.Artifact
import WasmLisp.Codegen
import WasmLisp.Machine.Validate

/-!
Backends: what turns units into artifacts for one target. The fingerprint of a backend names its
configuration, so that artifacts of different configurations are kept apart.
-/

namespace WasmLisp

/-- A code generator for a target. -/
structure Backend where
  target : Target
  preamble : Preamble
  maxDepth : Nat
  /-- Whether it generates for another machine than the one it runs on. -/
  cross : Bool
  /-- Whether the validator of its modules is open; a closed one refuses every module. -/
  validates : Bool := true
  deriving Repr, Inhabited

namespace Backend

/-- The backend for the running machine. -/
def host (preamble : Preamble) (maxDepth : Int) : Backend :=
  { target := .host, preamble, maxDepth := Codegen.effectiveDepth maxDepth, cross := false }

/-- A backend for another target. Its preamble has to load. -/
def forTarget (target : Target) (preamble : Preamble) (maxDepth : Int) : Result Backend :=
  let target := target.normalize
  match preamble.load with
  | .error e => .error (.backend (some e) s!"configure toolchain for {target.describe}")
  | .ok _ => .ok { target, preamble, maxDepth := Codegen.effectiveDepth maxDepth, cross := true }

/-- The backend for a target: that of the running machine if it can run the target's code. -/
def ofTarget (target : Target) (preamble : Preamble) (maxDepth : Int) : Result Backend :=
  if target.isLocal then .ok (host preamble maxDepth) else forTarget target preamble maxDepth

/-- The name of the backend's configuration. -/
def fingerprint (b : Backend) : String :=
  b.target.key ++ ":" ++ b.preamble.digest ++ ":" ++ toString b.maxDepth
    ++ if b.cross then ":" ++ Digest.hexOfText b.target.describe else ""

/-- The key under which the artifact of a unit is stored. -/
def cacheKey (b : Backend) (unitHash : String) : String :=
  Digest.hexOfText (unitHash ++ "\x00" ++ b.fingerprint)

/-- The functions of the preamble, as building needs them. -/
def runtime (b : Backend) : Result (List Defn) :=
  b.preamble.load.mapError fun e => .backend (some e) "runtime preamble unavailable"

/-- Builds a unit with the functions of the preamble. The result is validated. -/
def buildWith (b : Backend) (fns : List Defn) (u : CompUnit) : Result Artifact := do
  let g ← Codegen.generate { u with target := b.target } fns b.maxDepth
  let bytes := g.module.encode
  if !b.validates || (Machine.Module.load? bytes).isNone then
    throw (.backend (some (.plain "invalid module"))
      s!"generated module for {b.target.describe} failed validation")
  return { manifest := some g.manifest, hash := g.manifest.hash, entrySymbol := g.manifest.entry
           bytes, target := b.target }

/-- Builds a unit. -/
def build (b : Backend) (u : CompUnit) : Result Artifact := do b.buildWith (← b.runtime) u

end Backend

end WasmLisp
