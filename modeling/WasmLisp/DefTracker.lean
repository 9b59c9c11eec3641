import WasmLisp.Table

/-!
Which definitions are current: the digest of the last definition recorded for each name.
-/

namespace WasmLisp

/-- The digests of definitions by qualified name. -/
structure DefTracker where
  hashes : Table String := []
  deriving DecidableEq, Repr, Inhabited

namespace DefTracker

/-- Whether a definition differs from the one recorded, or none is. -/
def changed (t : DefTracker) (qualified hash : String) : Bool :=
  t.hashes.get? qualified != some hash

/-- Records a definition. -/
def record (t : DefTracker) (qualified hash : String) : DefTracker :=
  { hashes := t.hashes.insert qualified hash }

/-- Forgets a definition. -/
def forget (t : DefTracker) (qualified : String) : DefTracker :=
  { hashes := t.hashes.erase qualified }

end DefTracker

end WasmLisp
