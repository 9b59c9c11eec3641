import WasmLisp.Toml

/-!
The tables that statements make. A table that only came about on the way to another may be given a
header later; every other name is defined once, except that a name whose value is or was an array
may be defined again.
-/

namespace WasmLisp.Toml

/-- A document as far as it was read. -/
structure Doc where
  root : Entries := []
  /-- The tables that have no header of their own, by the shown text of their keys. -/
  implicits : List String := []
  /-- The keys whose value is an array. -/
  arrays : List String := []
  /-- All keys in the order in which they were written. -/
  ordered : List Key := []
  deriving Inhabited

/-- Puts a value at a name. -/
def put (name : String) (v : Value) : Entries → Entries
  | [] => [(name, v)]
  | (n, w) :: rest => if n = name then (n, v) :: rest else (n, w) :: put name v rest

/-- Changes the entries that a context leads to; an array of tables leads to its last table. -/
def modify (change : Entries → Option Entries) : (context : Key) → Entries → Option Entries
  | [], t => change t
  | name :: rest, t => do
    match ← t.lookup name with
    | .table inner => return put name (.table (← modify change rest inner)) t
    | .tables items =>
      let last ← items.getLast?
      return put name (.tables (items.dropLast ++ [← modify change rest last])) t
    | _ => none

namespace Doc

def addImplicit (d : Doc) (k : Key) : Doc := { d with implicits := shown k :: d.implicits }

def removeImplicit (d : Doc) (k : Key) : Doc :=
  { d with implicits := d.implicits.filter (· ≠ shown k) }

def isImplicit (d : Doc) (k : Key) : Bool := d.implicits.contains (shown k)

/-- Records whether the value of a key is an array. -/
def setType (d : Doc) (k : Key) (isArray : Bool) : Doc :=
  let others := d.arrays.filter (· ≠ shown k)
  { d with arrays := if isArray then shown k :: others else others }

def isArray (d : Doc) (k : Key) : Bool := d.arrays.contains (shown k)

def addOrdered (d : Doc) (k : Key) : Doc := { d with ordered := d.ordered ++ [k] }

/-- The entries that a context leads to. -/
def entriesAt? (d : Doc) : (context : Key) → Entries → Option Entries
  | [], t => some t
  | name :: rest, t => do
    match ← t.lookup name with
    | .table inner => d.entriesAt? rest inner
    | .tables items => d.entriesAt? rest (← items.getLast?)
    | _ => none

/-- Defines a name in a context. -/
def setValue (d : Doc) (context : Key) (name : String) (v : Value) : Option Doc := do
  let here ← d.entriesAt? context d.root
  let k := context ++ [name]
  let put' (d : Doc) : Option Doc := do
    return { d with root := ← modify (fun t => some (put name v t)) context d.root }
  if (here.lookup name).isNone then put' d
  -- a name whose value is an array may get another value
  else if d.isArray k then put' (d.removeImplicit k)
  -- a table that came about on the way to another gets its header now
  else if d.isImplicit k then some (d.removeImplicit k)
  else none

/-- Makes the tables on the way to a key where there are none. -/
def makeWay (d : Doc) (done : Key) : (todo : Key) → Option Doc
  | [] => some d
  | name :: rest => do
    let here ← d.entriesAt? done d.root
    let k := done ++ [name]
    let d ← match here.lookup name with
      | none =>
        let root ← modify (fun t => some (put name (.table []) t)) done d.root
        some { (d.addImplicit k) with root }
      | some (.table _) => some d
      | some (.tables _) => some d
      | some _ => none
    d.makeWay k rest

/-- Makes a context: a table, or one more table of an array. -/
def addContext (d : Doc) (k : Key) (element : Bool) : Option Doc := do
  let name ← k.getLast?
  let above := k.dropLast
  let d ← d.makeWay [] above
  if !element then d.setValue above name (.table [])
  else
    let here ← d.entriesAt? above d.root
    let items ← match here.lookup name with
      | none => some []
      | some (.tables items) => some items
      | some _ => none
    return { d with root := ← modify (fun t => some (put name (.tables (items ++ [[]])) t)) above d.root }

/-- Makes the contexts of a dotted key, each without a header. -/
def addDotted (d : Doc) (context : Key) : (names : List String) → Option (Doc × Key)
  | [] => some (d, context)
  | name :: rest => do
    let k := context ++ [name]
    let d ← (d.addImplicit k).addContext k false
    d.addDotted k rest

end Doc

/-- Puts a value into the plain table of an inline one, at a dotted key. -/
def nest (k : Key) (v : Value) (t : Entries) : Option Entries :=
  match k with
  | [] => none
  | [name] => some (put name v t)
  | name :: rest => do
    let inner ← match t.lookup name with
      | none => some []
      | some (.table inner) => some inner
      | some _ => none
    return put name (.table (← nest rest v inner)) t

mutual

/-- The value of a literal that stands at a name in a context. -/
def literal (context : Key) (name : String) (inArray : Bool) (d : Doc) :
    Literal → Option (Doc × Value)
  | .text s => some (d, .text s)
  | .int n => some (d, .int n)
  | .bool b => some (d, .bool b)
  | .other => some (d, .other)
  | .array xs => do
    let (d, vs) ← literals context name (d.setType (context ++ [name]) true) xs
    return (d, .array vs)
  | .inline ps => do
    let k := context ++ [name]
    let d ← (d.addImplicit k).addContext k inArray
    let (d, t) ← inlinePairs k d [] ps
    return (d, .table t)

/-- The values of the literals of an array. -/
def literals (context : Key) (name : String) (d : Doc) : List Literal → Option (Doc × List Value)
  | [] => some (d, [])
  | x :: xs => do
    let (d, v) ← literal context name true d x
    let (d, vs) ← literals context name d xs
    return (d, v :: vs)

/-- The pairs of an inline table. -/
def inlinePairs (context : Key) (d : Doc) (t : Entries) :
    List (Key × Literal) → Option (Doc × Entries)
  | [] => some (d, t)
  | (k, x) :: rest => do
    let name ← k.getLast?
    let (d, inner) ← d.addDotted context k.dropLast
    let d := d.addOrdered (inner ++ [name])
    let (d, v) ← literal inner name false d x
    let d ← d.setValue inner name v
    let d := d.setType (inner ++ [name]) (match x with
      | .array _ => true
      | _ => false)
    inlinePairs context d (← nest k v t) rest

end

/-- Takes one statement. The context is the key of the last header. -/
def take (d : Doc) (context : Key) : Statement → Option (Doc × Key)
  | .table k => do
    let d ← d.addContext k false
    return ((d.setType k false).addOrdered k, k)
  | .element k => do
    let d ← d.addContext k true
    return ((d.setType k false).addOrdered k, k)
  | .pair k x => do
    let name ← k.getLast?
    let (d, inner) ← d.addDotted context k.dropLast
    let d := d.addOrdered (inner ++ [name])
    let (d, v) ← literal inner name false d x
    let d ← d.setValue inner name v
    let d := d.setType (inner ++ [name]) (match x with
      | .array _ => true
      | _ => false)
    return (d, context)

/-- The document that statements make. -/
def Doc.ofStatements (d : Doc) (context : Key) : List Statement → Option Doc
  | [] => some d
  | s :: rest => do
    let (d, context) ← take d context s
    d.ofStatements context rest

end WasmLisp.Toml
