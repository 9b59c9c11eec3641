import WasmLisp.Binary.Info
import WasmLisp.Manifest
import WasmLisp.Target

/-!
Artifacts: compiled units that can be linked. An artifact is a binary with its manifest inside.
-/

namespace WasmLisp

/-- A compiled unit for a target. -/
structure Artifact where
  manifest : Option Manifest := none
  hash : String := ""
  entrySymbol : String := ""
  bytes : List UInt8 := []
  target : Target := { arch := "" }
  /-- Whether the bytes come from the store. -/
  fromCache : Bool := false
  deriving Repr, Inhabited

namespace Artifact

/-! ## What artifacts import from

An import says what it wants by the module it names; which instance provides it is decided when the
artifact is linked. -/

/-- The module that foreign symbols and functions of other artifacts are imported from. -/
def envModule : String := "env"

/-- The module that readers of vars are imported from. -/
def varModule : String := "var"

/-- The module that binders of vars are imported from. -/
def varDefModule : String := "var.def"

/-! ## Opening -/

/-- Why bytes are no artifact. -/
inductive Fault where
  | unreadable (e : Binary.Fault)
  | noManifest
  | manifest (e : Manifest.Fault)
  deriving DecidableEq, Repr

def Fault.message : Fault → String
  | .unreadable e => "inspect artifact: " ++ e.message
  | .noManifest => s!"artifact has no {Manifest.sectionName} section"
  | .manifest e => e.message

/-- The artifact that a binary is, given what is known of it. -/
def ofInfo (bin : List UInt8) (info : Binary.Info) (target : Target) :
    Except Fault Artifact :=
  match info.custom? Manifest.sectionName with
  | none => .error .noManifest
  | some data =>
    match Manifest.decode data with
    | .error e => .error (.manifest e)
    | .ok m =>
      .ok { manifest := some m, hash := m.hash, entrySymbol := m.entry, bytes := bin, target }

/-- The artifact that a binary is. -/
def open? (bin : List UInt8) (target : Target) : Except Fault Artifact :=
  match Binary.Info.inspect bin with
  | .error e => .error (.unreadable e)
  | .ok info => ofInfo bin info target

end Artifact

end WasmLisp
