import WasmLisp.Cbor

/-!
Decoding CBOR: any well-formed item is read, of definite or indefinite length, within limits on
nesting and on the sizes of arrays and maps.
-/

namespace WasmLisp.Cbor

/-- Why bytes are not an item. -/
inductive Fault where
  /-- The bytes end inside the item. -/
  | truncated
  | malformed
  | tooDeep
  | tooLarge
  /-- Bytes follow the item. -/
  | trailing
  /-- The item does not have the type asked for. -/
  | mismatch
  deriving DecidableEq, Repr

/-- The limits that a decoder keeps to. -/
structure Limits where
  nesting : Nat := 32
  arrayItems : Nat := 131072
  mapEntries : Nat := 131072
  deriving Repr

/-- The number that bytes write, the most significant first. -/
def ofBigEndian (input : List UInt8) : Nat := input.foldl (fun acc b => acc * 256 + b.toNat) 0

/-- The first `n` bytes. -/
def takeBytes (n : Nat) (input : List UInt8) : Except Fault (List UInt8 × List UInt8) :=
  let taken := input.take n
  if taken.length = n then .ok (taken, input.drop n) else .error .truncated

/-- The initial bytes of an item: major type, additional information and number. -/
structure Head where
  major : Nat
  info : Nat
  value : Nat
  deriving Repr, Inhabited

/-- Whether the item's length is open and a break ends it. -/
def Head.indefinite (h : Head) : Bool := h.info == 31

def readHead : List UInt8 → Except Fault (Head × List UInt8)
  | [] => .error .truncated
  | b :: rest =>
    let major := b.toNat / 32
    let info := b.toNat % 32
    let sized (width : Nat) : Except Fault (Head × List UInt8) := do
      let (data, rest) ← takeBytes width rest
      return ({ major, info, value := ofBigEndian data }, rest)
    if info < 24 then .ok ({ major, info, value := info }, rest)
    else if info = 24 then do
      let (h, rest) ← sized 1
      -- simple values below 32 have the short form only
      if major = 7 && h.value < 32 then .error .malformed else .ok (h, rest)
    else if info = 25 then sized 2
    else if info = 26 then sized 4
    else if info = 27 then sized 8
    else if info = 31 && 2 ≤ major && major ≤ 5 then .ok ({ major, info, value := 0 }, rest)
    else .error .malformed

/-- The numbers of the tags in front of an item; at most as many as `fuel`. -/
def readTags : (fuel : Nat) → List UInt8 → Except Fault (List Nat × List UInt8)
  | 0, input => .ok ([], input)
  | fuel + 1, input =>
    match input with
    | [] => .ok ([], [])
    | b :: _ =>
      if b.toNat / 32 = 6 then do
        let (h, rest) ← readHead input
        let (more, rest) ← readTags fuel rest
        return (h.value :: more, rest)
      else .ok ([], input)

/-- The chunks of a string of open length, up to its break. -/
def readChunks (major : Nat) : (fuel : Nat) → List UInt8 → Except Fault (List (List UInt8) × List UInt8)
  | 0, _ => .error .truncated
  | fuel + 1, input =>
    match input with
    | [] => .error .truncated
    | b :: rest =>
      if b = 0xff then .ok ([], rest)
      else if b.toNat / 32 ≠ major || b.toNat % 32 = 31 then .error .malformed
      else do
        let (h, rest) ← readHead input
        let (chunk, rest) ← takeBytes h.value rest
        let (more, rest) ← readChunks major fuel rest
        return (chunk :: more, rest)

/-- The text of chunks, each of which must be valid UTF-8. -/
def textOfChunks (chunks : List (List UInt8)) : Cbor :=
  match chunks.mapM fun c => String.fromUTF8? ⟨c.toArray⟩ with
  | some parts => .text (String.join parts)
  | none => .garbled

/-- A given number of items, the last first. -/
def readItems (item : List UInt8 → Except Fault (Cbor × List UInt8)) :
    (n : Nat) → List Cbor → List UInt8 → Except Fault (List Cbor × List UInt8)
  | 0, acc, input => .ok (acc, input)
  | n + 1, acc, input => do
    let (c, rest) ← item input
    readItems item n (c :: acc) rest

/-- Items up to a break, the last first; `room` says for each count whether it is allowed. -/
def readUntilBreak (item : List UInt8 → Except Fault (Cbor × List UInt8)) (room : Nat → Bool) :
    (fuel : Nat) → (count : Nat) → List Cbor → List UInt8 → Except Fault (List Cbor × List UInt8)
  | 0, _, _, _ => .error .truncated
  | fuel + 1, count, acc, input =>
    match input with
    | [] => .error .truncated
    | b :: rest =>
      if b = 0xff then .ok (acc, rest)
      else do
        let (c, rest) ← item input
        if room (count + 1) then readUntilBreak item room fuel (count + 1) (c :: acc) rest
        else .error .tooLarge

/-- Pairs up keys and values that stand one after the other; `none` if one is left over. -/
def pairUp : List Cbor → Option (List (Cbor × Cbor))
  | [] => some []
  | [_] => none
  | k :: v :: rest => ((k, v) :: ·) <$> pairUp rest

/-- A simple value, a truth value, null or a float. -/
def ofSimple (h : Head) : Cbor :=
  if h.info = 20 then .bool false
  else if h.info = 21 then .bool true
  else if h.info = 22 then .null
  else if h.info = 23 then .undefined
  else if h.info = 25 || h.info = 26 || h.info = 27 then .float
  else .simple h.value

/-- An item without tags in front of it. Arrays and maps are refused unless they may go `deeper`. -/
def readBare (limits : Limits) (item : List UInt8 → Except Fault (Cbor × List UInt8)) (deeper : Bool)
    (input : List UInt8) : Except Fault (Cbor × List UInt8) := do
  let (h, rest) ← readHead input
  match h.major with
  | 0 => return (.int h.value, rest)
  | 1 => return (.int (-1 - h.value), rest)
  | 2 =>
    if h.indefinite then
      let (chunks, rest) ← readChunks 2 (rest.length + 1) rest
      return (.bytes chunks.flatten, rest)
    else
      let (data, rest) ← takeBytes h.value rest
      return (.bytes data, rest)
  | 3 =>
    if h.indefinite then
      let (chunks, rest) ← readChunks 3 (rest.length + 1) rest
      return (textOfChunks chunks, rest)
    else
      let (data, rest) ← takeBytes h.value rest
      return (textOfChunks [data], rest)
  | 4 =>
    if !deeper then .error .tooDeep
    else if h.indefinite then
      let (items, rest) ←
        readUntilBreak item (· ≤ limits.arrayItems) (rest.length + 1) 0 [] rest
      return (.array items.reverse, rest)
    else if limits.arrayItems < h.value then .error .tooLarge
    else
      let (items, rest) ← readItems item h.value [] rest
      return (.array items.reverse, rest)
  | 5 =>
    if !deeper then .error .tooDeep
    else
      let (items, rest) ←
        if h.indefinite then
          -- keys and values are counted alike, so an odd count is a key that waits for its value
          readUntilBreak item (fun n => n % 2 == 1 || n / 2 ≤ limits.mapEntries)
            (rest.length + 1) 0 [] rest
        else if limits.mapEntries < h.value then .error .tooLarge
        else readItems item (2 * h.value) [] rest
      match pairUp items.reverse with
      | some entries => return (.map entries, rest)
      | none => .error .malformed
  | _ => return (ofSimple h, rest)

/-- The item at the front of the bytes. Arrays and maps may be nested `levels` deep; so may tags,
of which the first comes free. -/
def readItem (limits : Limits) : (levels : Nat) → List UInt8 → Except Fault (Cbor × List UInt8)
  | 0, input => do
    let (tags, rest) ← readTags input.length input
    if 1 < tags.length then .error .tooDeep
    let (c, rest) ← readBare limits (fun _ => .error .tooDeep) false rest
    return (tags.foldr .tag c, rest)
  | levels + 1, input => do
    let (tags, rest) ← readTags input.length input
    if levels + 2 < tags.length then .error .tooDeep
    let (c, rest) ← readBare limits (readItem limits levels) true rest
    return (tags.foldr .tag c, rest)

/-- The item at the front of the bytes, and the bytes after it. -/
def decodeFirst (limits : Limits) (input : List UInt8) : Except Fault (Cbor × List UInt8) :=
  readItem limits limits.nesting input

/-- The item that the bytes are. -/
def decode (limits : Limits) (input : List UInt8) : Except Fault Cbor := do
  let (c, rest) ← decodeFirst limits input
  if rest.isEmpty then .ok c else .error .trailing

/-! ## Items as values of a type -/

/-- Whether a tag that has a fixed meaning stands before the type of item it asks for. -/
def tagFits (number : Nat) (content : Cbor) : Bool :=
  match number, content with
  | 0, .text _ => true
  | 0, .garbled => true
  | 0, _ => false
  | 1, .int _ => true
  | 1, .float => true
  | 1, _ => false
  | 2, .bytes _ => true
  | 2, _ => false
  | 3, .bytes _ => true
  | 3, _ => false
  | _, _ => true

/-- The item without its tags, except that tags of big numbers stay. -/
def untag : Cbor → Except Fault Cbor
  | .tag number content =>
    if tagFits number content then
      if number = 2 || number = 3 then .ok (.tag number content) else untag content
    else .error .mismatch
  | c => .ok c

/-- The item as an integer within bounds; null counts as zero. -/
def asInt (lo hi : Int) (c : Cbor) : Except Fault Int := do
  let within (v : Int) : Except Fault Int :=
    if lo ≤ v && v ≤ hi then .ok v else .error .mismatch
  match ← untag c with
  | .int v => within v
  | .simple code => within code
  | .null => .ok 0
  | .undefined => .ok 0
  | .tag 2 (.bytes data) => within (ofBigEndian data)
  | .tag 3 (.bytes data) => within (-1 - ofBigEndian data)
  | _ => .error .mismatch

/-- The item as a 64-bit integer. -/
def asInt64 (c : Cbor) : Except Fault Int64 :=
  Int64.ofInt <$> asInt (-0x8000000000000000) 0x7fffffffffffffff c

/-- The item as a text; null counts as the empty one. -/
def asText (c : Cbor) : Except Fault String := do
  match ← untag c with
  | .text s => .ok s
  | .null => .ok ""
  | .undefined => .ok ""
  | _ => .error .mismatch

/-- The item as a list; null counts as the empty one. -/
def asList {α : Type} (item : Cbor → Except Fault α) (c : Cbor) : Except Fault (List α) := do
  match ← untag c with
  | .array items => items.mapM item
  | .null => .ok []
  | .undefined => .ok []
  | _ => .error .mismatch

/-- The item as bytes, which an array of small numbers also writes; null counts as none. -/
def asBytes (c : Cbor) : Except Fault (List UInt8) := do
  match ← untag c with
  | .bytes data => .ok data
  | .tag _ (.bytes data) => .ok data
  | c => asList (fun c => (fun v => UInt8.ofNat v.toNat) <$> asInt 0 255 c) c

/-- Assigns the entries of a map to the fields of a record: the first entry whose key is a field's
name, and else the first whose key differs from it only in case. Entries for no field are left
out; a key that is no name is refused. -/
def assign : (fields : List String) → List (Cbor × Cbor) → Except Fault (List (String × Cbor))
  | _, [] => .ok []
  | fields, (k, v) :: rest =>
    match k with
    | .text key =>
      let field? :=
        (fields.find? (· == key)).or
          (fields.find? fun f => f.map Char.toLower == key.map Char.toLower)
      match field? with
      | some f => ((f, v) :: ·) <$> assign (fields.filter (· != f)) rest
      | none => assign fields rest
    | .int _ => assign fields rest
    | _ => .error .mismatch

/-- The item as a record with these fields; null counts as the one without any. -/
def asRecord (fields : List String) (c : Cbor) : Except Fault (List (String × Cbor)) := do
  match ← untag c with
  | .map entries => assign fields entries
  | .null => .ok []
  | .undefined => .ok []
  | _ => .error .mismatch

/-- A field of a record as a value of a type; a missing field counts as null. -/
def field {α : Type} (record : List (String × Cbor)) (name : String)
    (read : Cbor → Except Fault α) : Except Fault α :=
  read ((record.lookup name).getD .null)

end WasmLisp.Cbor
