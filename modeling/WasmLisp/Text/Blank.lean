/-!
Blank characters: the code points of the Unicode property `White_Space`.
-/

namespace WasmLisp.Text

/-- The blank code points outside the contiguous runs tab to carriage return and U+2000 to U+200A. -/
def singleBlanks : List Nat :=
  [0x20, 0x85, 0xa0, 0x1680, 0x2028, 0x2029, 0x202f, 0x205f, 0x3000]

/-- Whether a character is blank, that is, has the Unicode property `White_Space`. -/
def isBlank (c : Char) : Bool :=
  let n := c.toNat
  (0x09 ≤ n && n ≤ 0x0d) || (0x2000 ≤ n && n ≤ 0x200a) || singleBlanks.contains n

end WasmLisp.Text
