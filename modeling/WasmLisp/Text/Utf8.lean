/-!
Bytes as text: each byte that is no part of a character is shown as the replacement character.
-/

namespace WasmLisp.Text

/-- The character at the start of some bytes, if its encoding has `n` of them. -/
def charOfLength? (n : Nat) (bytes : List UInt8) : Option Char := do
  let s ← String.fromUTF8? ⟨(bytes.take n).toArray⟩
  match s.toList with
  | [c] => if n ≤ bytes.length then some c else none
  | _ => none

/-- The character at the start of some bytes and the number of bytes it takes. -/
def firstChar? (bytes : List UInt8) : Option (Char × Nat) :=
  [1, 2, 3, 4].findSome? fun n => (charOfLength? n bytes).map (·, n)

/-- The characters that bytes write; `skip` of them belong to the character before. -/
def charsOfBytes (skip : Nat) : List UInt8 → List Char
  | [] => []
  | b :: rest =>
    match skip with
    | k + 1 => charsOfBytes k rest
    | 0 =>
      match firstChar? (b :: rest) with
      | some (c, n) => c :: charsOfBytes (n - 1) rest
      | none => '\ufffd' :: charsOfBytes 0 rest

/-- The text that bytes write. -/
def ofBytes (bytes : List UInt8) : String :=
  match String.fromUTF8? ⟨bytes.toArray⟩ with
  | some s => s
  | none => String.ofList (charsOfBytes 0 bytes)

end WasmLisp.Text
