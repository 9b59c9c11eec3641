import WasmLisp.Failure
import WasmLisp.Form

/-!
The registry of foreign symbols: functions and data that programs refer to by name and do not
define. A symbol gets its address when it is registered and keeps it; records are never removed.
-/

namespace WasmLisp

/-- What a foreign function can see and change: the time in milliseconds and the text printed. -/
structure Surroundings where
  now : Int := 0
  printed : String := ""
  deriving DecidableEq, Repr, Inhabited

/-- A foreign function: it takes integers, and gives one or a reason why not. -/
abbrev ForeignFn := Surroundings → List Int64 → Surroundings × Except String Int64

namespace Registry

/-- The kind of a symbol, by its code. -/
structure SymbolKind where
  code : UInt8
  deriving DecidableEq, Repr, Inhabited

def SymbolKind.function : SymbolKind := ⟨1⟩
def SymbolKind.data : SymbolKind := ⟨2⟩

def SymbolKind.name (k : SymbolKind) : String :=
  match k.code.toNat with
  | 1 => "function"
  | 2 => "data"
  | _ => "unknown"

/-- An address that never changes. -/
structure Address where
  value : Nat
  deriving DecidableEq, Repr, Inhabited

def Address.text (a : Address) : String := "0x" ++ Text.hexPadded 8 a.value

/-- A foreign symbol. -/
structure Foreign where
  name : String
  kind : SymbolKind
  arity : Int := 0
  doc : String := ""
  /-- The first value of a data symbol. -/
  init : Int64 := 0
  fn : Option ForeignFn := none
  deriving Inhabited

/-- Symbols that one native library provides. -/
structure Library where
  name : String
  symbols : List Foreign
  deriving Inhabited

/-- A registered symbol. -/
structure Record where
  symbol : Foreign
  origin : String
  address : Address
  /-- The place in the order of registration, from one on. -/
  seq : Nat
  deriving Inhabited

end Registry

open Registry in
/-- The registered symbols in the order of their registration. -/
structure Registry where
  records : List Record := []
  deriving Inhabited

namespace Registry

/-- What is wrong with a symbol. -/
def problem? (s : Foreign) : Option String :=
  if s.name = "" then some "symbol name is empty"
  else if s.name.toList.contains '/' then
    some s!"symbol {Text.quoted s.name}: names may not contain '/'"
  else if s.kind = .function && s.fn.isNone then
    some s!"function {Text.quoted s.name} has no implementation"
  else if s.kind = .function && s.arity < 0 then
    some s!"function {Text.quoted s.name} has negative arity"
  else if s.kind = .data && s.fn.isSome then
    some s!"data symbol {Text.quoted s.name} has an implementation"
  else if s.kind ≠ .function && s.kind ≠ .data then
    some s!"symbol {Text.quoted s.name} has unknown kind {s.kind.code.toNat}"
  else none

/-- The record of a name. -/
def resolve? (r : Registry) (name : String) : Option Record :=
  r.records.find? (·.symbol.name == name)

/-- The address of the record with this place in the order. -/
def addressOf (seq : Nat) : Address := ⟨0x10000 + seq * 8⟩

/-- Registers a symbol. The same symbol from the same origin is found again; any other symbol of a
name that is taken is refused. -/
def register (r : Registry) (s : Foreign) (origin : String) : Result (Record × Registry) :=
  match problem? s with
  | some detail => .error (.invalidInput .registry detail)
  | none =>
    match r.resolve? s.name with
    | some known =>
      if known.origin = origin && known.symbol.kind = s.kind && known.symbol.arity = s.arity then
        .ok (known, r)
      else
        .error (.ofReport
          { phase := .registry, kind := .duplicateDefinition, symbol := s.name
            origins := [known.origin, origin]
            detail := s!"already registered as {known.symbol.kind.name}" })
    | none =>
      let seq := r.records.length + 1
      let entry : Record := { symbol := s, origin, address := addressOf seq, seq }
      .ok (entry, { records := r.records ++ [entry] })

/-- The origin of the symbols of a library. -/
def libraryOrigin (name : String) : String := "library " ++ name

/-- Registers symbols of a library in order up to the first that is refused. -/
def registerSymbols (r : Registry) (name : String) : List Foreign → Registry × Option Failure
  | [] => (r, none)
  | s :: rest =>
    match r.register s (libraryOrigin name) with
    | .ok (_, r) => r.registerSymbols name rest
    | .error e => (r, some (.labelled s!"library {name}" e))

/-- Registers a library. -/
def registerLibrary (r : Registry) (lib : Library) : Registry × Option Failure :=
  r.registerSymbols lib.name lib.symbols

/-- The place of the latest record. -/
def seq (r : Registry) : Nat := r.records.length

/-- The records after a place. -/
def since (r : Registry) (seq : Nat) : List Record := r.records.drop seq

/-- The records in the order of their names. -/
def sorted (r : Registry) : List Record :=
  r.records.mergeSort fun a b => !(b.symbol.name < a.symbol.name)

end Registry

end WasmLisp
