import WasmLisp.Effect
import WasmLisp.Node
import WasmLisp.Target

/-!
Units: pieces of program that are compiled as one. A unit's digest covers its forms and effects
and neither its name nor its namespace.
-/

namespace WasmLisp

/-- A piece of program: analysed forms and the effects that go with them. -/
structure CompUnit where
  name : String := ""
  ns : String := ""
  forms : List Node := []
  effects : List Effect := []
  target : Target := .host
  deriving Repr, Inhabited

namespace CompUnit

/-- What the digest is taken of: the outlines of the forms, and the effects. -/
def outline (u : CompUnit) : Cbor :=
  .array
    [.text Node.outlineVersion,
     .array (u.forms.map (Node.outline [])),
     .array (u.effects.map fun e =>
       .array [.int e.kind.code.toNat, .text e.ns, .text e.name, .text e.target])]

/-- The digest of the unit. -/
def hash (u : CompUnit) : String := Digest.hex64 u.outline.encode

/-- What every entry function's name starts with. -/
def entryMark : String := "__jitlink_init_"

/-- The name of the function that runs the unit. -/
def entrySymbol (u : CompUnit) : String := entryMark ++ u.hash

/-- All nodes of the unit. -/
def nodes (u : CompUnit) : List Node := Node.flattenAll u.forms

/-- Whether the unit defines the function of a qualified name. -/
def defines (u : CompUnit) (qualified : String) : Bool :=
  u.nodes.any fun
    | .defn ns name _ _ => Symbol.qualify ns name == qualified
    | _ => false

/-- The names that a node defines. -/
def definedBy : Node → List String
  | .defn ns name _ _ => [Symbol.qualify ns name]
  | .defGlobal name _ => [name]
  | _ => []

/-- The names that a node refers to. -/
def referredBy : Node → List String
  | .invoke ns name _ => [Symbol.qualify ns name]
  | .varRef ns name => [Symbol.qualify ns name]
  | .bindVar ns name _ => [Symbol.qualify ns name]
  | .foreignCall name _ => [name]
  | .foreignGet name => [name]
  | .foreignSet name _ => [name]
  | _ => []

/-- The names that the unit refers to and does not define, in order, each once. -/
def deps (u : CompUnit) : List String :=
  let defined := u.nodes.flatMap definedBy
  let refs := u.nodes.flatMap referredBy
  dropRepeats (sortTexts (refs.filter fun r => !defined.contains r))

end CompUnit

end WasmLisp
