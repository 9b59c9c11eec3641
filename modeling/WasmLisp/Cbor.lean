import WasmLisp.Binary.Leb128

/-!
CBOR data items and their canonical encoding: numbers take the fewest bytes, lengths are definite,
and the entries of a map stand in the order of their encoded keys, the shorter key first.
-/

namespace WasmLisp

/-- A CBOR data item. -/
inductive Cbor where
  | int (value : Int)
  | bytes (data : List UInt8)
  | text (s : String)
  /-- A text whose bytes are not valid UTF-8. -/
  | garbled
  | array (items : List Cbor)
  | map (entries : List (Cbor × Cbor))
  | tag (number : Nat) (content : Cbor)
  | bool (value : Bool)
  | null
  | undefined
  /-- A simple value without a meaning of its own. -/
  | simple (code : Nat)
  | float
  deriving Repr, Inhabited

namespace Cbor

/-- A number in as many bytes, the most significant first. -/
def bigEndian (width n : Nat) : List UInt8 :=
  match width with
  | 0 => []
  | w + 1 => bigEndian w (n / 256) ++ [UInt8.ofNat (n % 256)]

/-- The initial bytes of an item: its major type and a number in the fewest bytes. The format ends
at 64 bits; the code that it leaves free next lets any other number be told from all others. -/
def head (major n : Nat) : List UInt8 :=
  let first (info : Nat) := UInt8.ofNat (major * 32 + info)
  if n < 24 then [first n]
  else if n < 0x100 then first 24 :: bigEndian 1 n
  else if n < 0x10000 then first 25 :: bigEndian 2 n
  else if n < 0x100000000 then first 26 :: bigEndian 4 n
  else if n < 0x10000000000000000 then first 27 :: bigEndian 8 n
  else first 28 :: Binary.uleb n

/-- Lexicographic order of bytes. -/
def bytesLe : List UInt8 → List UInt8 → Bool
  | [], _ => true
  | _ :: _, [] => false
  | a :: as, b :: bs => a < b || (a == b && bytesLe as bs)

/-- The canonical order of encoded keys: the shorter first, equally long ones byte by byte. -/
def keyLe (a b : List UInt8) : Bool :=
  a.length < b.length || (a.length == b.length && bytesLe a b)

/-- Puts an element before the first one that it is not greater than. -/
def insertInOrder {α : Type} (le : α → α → Bool) (a : α) : List α → List α
  | [] => [a]
  | b :: rest => if le a b then a :: b :: rest else b :: insertInOrder le a rest

/-- The elements in ascending order; equal ones keep theirs. -/
def inOrder {α : Type} (le : α → α → Bool) (as : List α) : List α := as.foldr (insertInOrder le) []

mutual

/-- The canonical encoding of an item. -/
def encode : Cbor → List UInt8
  | .int v => if 0 ≤ v then head 0 v.toNat else head 1 (-1 - v).toNat
  | .bytes data => head 2 data.length ++ data
  | .text s => let data := s.toUTF8.toList; head 3 data.length ++ data
  | .garbled => head 3 0
  | .array items => head 4 items.length ++ encodeItems items
  | .map entries =>
    let sorted := inOrder (fun a b => keyLe a.1 b.1) (encodeEntries entries)
    head 5 entries.length ++ sorted.flatMap fun (k, v) => k ++ v
  | .tag number content => head 6 number ++ encode content
  | .bool false => [0xf4]
  | .bool true => [0xf5]
  | .null => [0xf6]
  | .undefined => [0xf7]
  | .simple code => if code < 24 then head 7 code else [0xf8, UInt8.ofNat code]
  | .float => [0xf9, 0x7e, 0x00]

/-- The encodings of items, one after the other. -/
def encodeItems : List Cbor → List UInt8
  | [] => []
  | c :: rest => encode c ++ encodeItems rest

/-- The encodings of keys and values. -/
def encodeEntries : List (Cbor × Cbor) → List (List UInt8 × List UInt8)
  | [] => []
  | (k, v) :: rest => (encode k, encode v) :: encodeEntries rest

end

/-- An array of texts. -/
def texts (ss : List String) : Cbor := .array (ss.map .text)

/-- A map whose keys are texts. -/
def record (fields : List (String × Cbor)) : Cbor :=
  .map (fields.map fun (k, v) => (.text k, v))

/-- A field that is left out of a record when its text is empty. -/
def textUnlessEmpty (name s : String) : List (String × Cbor) :=
  if s = "" then [] else [(name, .text s)]

/-- A field that is left out of a record when there are no items. -/
def arrayUnlessEmpty (name : String) (items : List Cbor) : List (String × Cbor) :=
  if items.isEmpty then [] else [(name, .array items)]

end Cbor

end WasmLisp
