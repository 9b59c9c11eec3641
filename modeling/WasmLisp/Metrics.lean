import WasmLisp.Table

/-!
Counts of what happened, by series. A series is a name with labels; one without labels is listed
from the start, one with labels once something was counted in it.
-/

namespace WasmLisp

/-- The name of a series with its labels, which are given in ascending order. -/
def seriesName (name : String) (labels : List (String × String)) : String :=
  name ++ "\x7b" ++ ",".intercalate (labels.map fun (k, v) => k ++ "=" ++ v) ++ "\x7d"

/-- The counts of a component. -/
structure Metrics where
  counts : Table Nat := []
  deriving DecidableEq, Repr, Inhabited

namespace Metrics

/-- Counts in which nothing happened, with the series that have no labels. -/
def start (names : List String) : Metrics :=
  { counts := names.foldl (fun t n => t.insert (seriesName n []) 0) [] }

/-- The count of a series. -/
def get (m : Metrics) (series : String) : Nat := (m.counts.get? series).getD 0

/-- Sets the count of a series. -/
def set (m : Metrics) (series : String) (n : Nat) : Metrics :=
  { counts := m.counts.insert series n }

/-- Counts one more. -/
def bump (m : Metrics) (name : String) (labels : List (String × String)) : Metrics :=
  let series := seriesName name labels
  m.set series (m.get series + 1)

/-- The counts of two components. -/
def union (m n : Metrics) : Metrics :=
  { counts := n.counts.foldl (fun t (k, v) => t.insert k v) m.counts }

end Metrics

end WasmLisp
