import WasmLisp.Cache.Scalar
import WasmLisp.Digest

/-!
Sidecars: what the object cache keeps beside an artifact. A sidecar names the entry that it belongs
to and says how long the artifact is and what its digest is, so that a damaged one is noticed.
-/

namespace WasmLisp

/-- The record beside a stored artifact. -/
structure Sidecar where
  createdAt : Instant := .zero
  hash : String := ""
  target : String := ""
  entrySymbol : String := ""
  unit : String := ""
  checksum : String := ""
  size : Int := 0
  deriving DecidableEq, Repr, Inhabited

namespace Sidecar

/-- The lines of a sidecar; a unit without a name is left out. -/
def write (m : Sidecar) : String :=
  let line (key value : String) : String := key ++ ": " ++ value ++ "\n"
  line "created_at" m.createdAt.text
    ++ line "hash" (Scalar.write m.hash)
    ++ line "target" (Scalar.write m.target)
    ++ line "entry_symbol" (Scalar.write m.entrySymbol)
    ++ (if m.unit = "" then "" else line "unit" (Scalar.write m.unit))
    ++ line "checksum" (Scalar.write m.checksum)
    ++ line "size" (toString m.size)

/-- Whether a scalar stands for no value. -/
def isNull (v : Scalar.Value) : Bool := v.plain && Scalar.meaning v.text == .null

/-- A text: any scalar as it is written. -/
def text (v : Scalar.Value) : String := if isNull v then "" else v.text

/-- Whether a text has the marks of a date with time and zone where they belong. -/
def isFullInstant (s : String) : Bool :=
  let at' (i : Nat) := s.toList[i]?
  at' 7 = some '-' && at' 10 = some 'T' && at' 13 = some ':' && at' 16 = some ':'

/-- An instant. One in quotes has to be written in full. -/
def instant? (v : Scalar.Value) : Option Instant :=
  if isNull v then some .zero
  else match v.plain, Scalar.meaning v.text with
    | true, .instant t => some t
    | _, _ => if isFullInstant v.text then Instant.read? v.text else none

/-- A number of bytes; a fraction is dropped. -/
def size? (v : Scalar.Value) : Option Int :=
  if isNull v then some 0
  else match v.plain, Scalar.meaning v.text with
    | true, .int n => if n < 0x8000000000000000 then some n else none
    | true, .float w => some w
    | _, _ => none

/-- Takes one entry of the mapping. Keys that are not known are passed over. -/
def take? (m : Sidecar) (entry : String × Scalar.Value) : Option Sidecar :=
  let (key, v) := entry
  match key with
  | "created_at" => (instant? v).map fun t => { m with createdAt := t }
  | "hash" => some { m with hash := text v }
  | "target" => some { m with target := text v }
  | "entry_symbol" => some { m with entrySymbol := text v }
  | "unit" => some { m with unit := text v }
  | "checksum" => some { m with checksum := text v }
  | "size" => (size? v).map fun n => { m with size := n }
  | _ => some m

/-- Reads a sidecar back. -/
def read? (bytes : List UInt8) : Option Sidecar := do
  (← Scalar.readMapping? bytes).foldlM take? {}

end Sidecar

end WasmLisp
