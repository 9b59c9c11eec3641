import WasmLisp.Cbor
import WasmLisp.Digest
import WasmLisp.Form

/-!
Nodes: the expression tree that programs are analysed to. Every reference to something outside the
tree is explicit: a var by its namespace and name, a foreign symbol by its name. Locals are named
too; the digest of a node replaces their names by distances to the binding, so that it does not
depend on them.
-/

namespace WasmLisp

/-- An expression. -/
inductive Node where
  /-- No expression at all. -/
  | absent
  | const (value : Int64)
  | localVar (name : String)
  /-- The value of a var. -/
  | varRef (ns name : String)
  /-- Binds a var to a value. -/
  | bindVar (ns name : String) (init : Node)
  /-- Defines a function. -/
  | defn (ns name : String) (params : List String) (body : Node)
  /-- Calls a function var. -/
  | invoke (ns name : String) (args : List Node)
  /-- Calls a foreign function. -/
  | foreignCall (name : String) (args : List Node)
  /-- Reads a foreign data symbol. -/
  | foreignGet (name : String)
  /-- Writes a foreign data symbol. -/
  | foreignSet (name : String) (value : Node)
  /-- Defines a data symbol. -/
  | defGlobal (name : String) (init : Int64)
  /-- Applies a primitive operator. -/
  | prim (op : String) (args : List Node)
  | ifElse (cond thenB elseB : Node)
  /-- Bindings in order, each visible to the later ones and the body. -/
  | letIn (bindings : List (String × Node)) (body : Node)
  /-- Expressions in order; the last gives the value. -/
  | seq (forms : List Node)
  deriving Repr, Inhabited

/-- The least and, if there is one, the greatest number of arguments that a primitive takes. -/
def primArity? (op : String) : Option (Nat × Option Nat) :=
  match op with
  | "+" => some (0, none)
  | "*" => some (0, none)
  | "-" => some (1, none)
  | "quot" => some (2, some 2)
  | "rem" => some (2, some 2)
  | "<" => some (2, some 2)
  | ">" => some (2, some 2)
  | "<=" => some (2, some 2)
  | ">=" => some (2, some 2)
  | "=" => some (2, some 2)
  | "not=" => some (2, some 2)
  | "not" => some (1, some 1)
  | _ => none

namespace Node

mutual

/-- The node and all nodes below it, each before those below it. -/
def flatten : Node → List Node
  | .absent => []
  | .bindVar ns name init => .bindVar ns name init :: init.flatten
  | .defn ns name params body => .defn ns name params body :: body.flatten
  | .invoke ns name args => .invoke ns name args :: flattenAll args
  | .foreignCall name args => .foreignCall name args :: flattenAll args
  | .foreignSet name value => .foreignSet name value :: value.flatten
  | .prim op args => .prim op args :: flattenAll args
  | .ifElse c t e => .ifElse c t e :: (c.flatten ++ t.flatten ++ e.flatten)
  | .letIn bindings body => .letIn bindings body :: (flattenBindings bindings ++ body.flatten)
  | .seq forms => .seq forms :: flattenAll forms
  | n => [n]

/-- The nodes of several trees in order. -/
def flattenAll : List Node → List Node
  | [] => []
  | n :: rest => n.flatten ++ flattenAll rest

/-- The nodes of the values of bindings in order. -/
def flattenBindings : List (String × Node) → List Node
  | [] => []
  | (_, n) :: rest => n.flatten ++ flattenBindings rest

end

/-- The position of a name among the names in scope, the innermost first. -/
def scopeIndex? (scope : List String) (name : String) : Option Nat :=
  scope.findIdx? (· == name)

mutual

/-- The node as a data item in which a local is the distance to its binding. The scope lists the
names that are bound, the innermost first. -/
def outline (scope : List String) : Node → Cbor
  | .absent => .array [.text "nil"]
  | .const v => .array [.text "const", .int v.toInt]
  | .localVar name =>
    match scopeIndex? scope name with
    | some i => .array [.text "local", .int i]
    | none => .array [.text "free", .text name]
  | .varRef ns name => .array [.text "var", .text ns, .text name]
  | .bindVar ns name init => .array [.text "def", .text ns, .text name, init.outline scope]
  | .defn ns name params body =>
    .array [.text "defn", .text ns, .text name, .int params.length, body.outline params.reverse]
  | .invoke ns name args =>
    .array [.text "invoke", .text ns, .text name, .array (outlineAll scope args)]
  | .foreignCall name args => .array [.text "fcall", .text name, .array (outlineAll scope args)]
  | .foreignGet name => .array [.text "fget", .text name]
  | .foreignSet name value => .array [.text "fset", .text name, value.outline scope]
  | .defGlobal name init => .array [.text "defglobal", .text name, .int init.toInt]
  | .prim op args => .array [.text "prim", .text op, .array (outlineAll scope args)]
  | .ifElse c t e =>
    .array [.text "if", c.outline scope, t.outline scope, e.outline scope]
  | .letIn bindings body =>
    let (values, inner) := outlineBindings scope bindings
    .array [.text "let", .array values, body.outline inner]
  | .seq forms => .array [.text "do", .array (outlineAll scope forms)]

def outlineAll (scope : List String) : List Node → List Cbor
  | [] => []
  | n :: rest => n.outline scope :: outlineAll scope rest

/-- The values of bindings, each in the scope of those before it, and the scope after them. -/
def outlineBindings (scope : List String) :
    List (String × Node) → List Cbor × List String
  | [] => ([], scope)
  | (name, n) :: rest =>
    let value := n.outline scope
    let (values, inner) := outlineBindings (name :: scope) rest
    (value :: values, inner)

end

/-- The version of the outline, which digests begin with. -/
def outlineVersion : String := "jitlink.ir/1"

/-- The digest of a node. -/
def hash (n : Node) : String :=
  Digest.hex64 (Cbor.array [.text outlineVersion, n.outline []]).encode

end Node

end WasmLisp
