import WasmLisp.Artifact
import WasmLisp.CompUnit
import WasmLisp.Preamble

/-!
The layout of a generated module: which functions it defines, what it imports and which data
symbols it owns, and thereby every index that code refers to. The functions are those of the unit
and the preamble functions that it reaches through calls.
-/

namespace WasmLisp.Codegen

open Artifact (envModule varModule varDefModule)

/-- An import: a function from and to counts of integers, or a data symbol. -/
inductive Wanted where
  | func (module name : String) (params results : Nat)
  | global (name : String)
  deriving DecidableEq, Repr, Inhabited

/-- A function that the module defines; preamble functions are not exported. -/
structure Linked where
  defn : Defn
  exported : Bool
  deriving Repr, Inhabited

/-- The pair that calls are matched by. -/
def Linked.key (l : Linked) : String × String := (l.defn.ns, l.defn.name)

/-- What a module imports and defines. -/
structure Layout where
  imports : List Wanted := []
  funcs : List Linked := []
  /-- The pairs that calls of the functions use, in the same order. -/
  keys : List (String × String) := []
  globals : List (String × Int64) := []
  deriving Repr, Inhabited

/-! ## Definitions -/

/-- Takes the definitions of a node into account. -/
def addDefinition (l : Layout) : Node → Result Layout
  | .defn ns name params body =>
    if l.keys.contains (ns, name) then
      .error (.semantic s!"function {Symbol.qualify ns name} is defined twice in one unit")
    else
      .ok { l with
        funcs := l.funcs ++ [{ defn := { ns, name, params, body }, exported := true }]
        keys := l.keys ++ [(ns, name)] }
  | .defGlobal name init =>
    if l.globals.any (·.1 == name) then
      .error (.semantic s!"global {name} is defined twice in one unit")
    else .ok { l with globals := l.globals ++ [(name, init)] }
  | _ => .ok l

/-! ## Preamble functions -/

/-- The preamble functions that calls among nodes reach and that have no place in the layout yet. -/
def newlyReached (fns : List Defn) (l : Layout) : List Node → Layout × List Node
  | [] => (l, [])
  | .invoke ns name _ :: rest =>
    if l.keys.contains (ns, name) then newlyReached fns l rest
    else match fns.find? (·.qualified == Symbol.qualify ns name) with
      | none => newlyReached fns l rest
      | some d =>
        -- the function has its place before its body is looked at, which ends recursion
        let l := { l with
          funcs := l.funcs ++ [{ defn := d, exported := false }]
          keys := l.keys ++ [(ns, name)] }
        let (l, more) := newlyReached fns l rest
        (l, d.node :: more)
  | _ :: rest => newlyReached fns l rest

/-- Links the preamble functions that waiting trees reach, and those that these reach in turn. The
fuel bounds the number of trees. -/
def link (fns : List Defn) : (fuel : Nat) → Layout → List Node → Layout
  | 0, l, _ => l
  | _, l, [] => l
  | fuel + 1, l, root :: waiting =>
    let (l, found) := newlyReached fns l root.flatten
    -- what was found waits its turn: functions are placed in the order in which they are reached
    link fns fuel l (waiting ++ found)

/-- The number of calls among nodes, which bounds the functions that they reach. -/
def callCount (nodes : List Node) : Nat :=
  nodes.countP fun
    | .invoke _ _ _ => true
    | _ => false

/-- A bound on the trees that linking goes through: those of the unit, and one for each call. -/
def linkFuel (fns : List Defn) (forms : List Node) : Nat :=
  forms.length + callCount (Node.flattenAll forms)
    + callCount (Node.flattenAll (fns.map Defn.node)) + 1

/-! ## Imports -/

/-- The number of arguments that a function import was first called with. -/
def importArity? (imports : List Wanted) (module name : String) : Option Nat :=
  imports.findSome? fun
    | .func m n params _ => if m = module && n = name then some params else none
    | .global _ => none

/-- Imports a function, once. Calls of a foreign function must agree on the count of arguments. -/
def addImport (l : Layout) (module name : String) (params results : Nat) : Result Layout :=
  match importArity? l.imports module name with
  | none => .ok { l with imports := l.imports ++ [.func module name params results] }
  | some before =>
    if module = envModule && before ≠ params then
      .error (.semantic s!"{name} is called with {before} and {params} arguments")
    else .ok l

/-- Imports a data symbol, once, unless the module owns it. -/
def addGlobalImport (l : Layout) (name : String) : Layout :=
  if l.globals.any (·.1 == name) || l.imports.contains (.global name) then l
  else { l with imports := l.imports ++ [.global name] }

/-- Takes the imports of a node into account. -/
def addImports (l : Layout) : Node → Result Layout
  | .invoke ns name args =>
    if l.keys.contains (ns, name) then .ok l
    else addImport l envModule (Symbol.qualify ns name) args.length 1
  | .foreignCall name args => addImport l envModule name args.length 1
  | .varRef ns name => addImport l varModule (Symbol.qualify ns name) 0 1
  | .bindVar ns name _ => addImport l varDefModule (Symbol.qualify ns name) 1 0
  | .foreignGet name => .ok (addGlobalImport l name)
  | .foreignSet name _ => .ok (addGlobalImport l name)
  | _ => .ok l

/-- The layout of the module of a unit. -/
def Layout.ofUnit (u : CompUnit) (fns : List Defn) : Result Layout := do
  let defined ← u.nodes.foldlM addDefinition {}
  let linked := link fns (linkFuel fns u.forms) defined u.forms
  let added := (linked.funcs.filter (!·.exported)).map (·.defn.node)
  (Node.flattenAll (u.forms ++ added)).foldlM addImports linked

namespace Layout

/-- The function imports, which come first among the functions. -/
def funcImports (l : Layout) : List Wanted :=
  l.imports.filter fun
    | .func .. => true
    | .global _ => false

/-- The names of the imported data symbols, which come first among the globals. -/
def globalImports (l : Layout) : List String :=
  l.imports.filterMap fun
    | .global name => some name
    | .func .. => none

/-- The index of an imported function. -/
def importIndex (l : Layout) (module name : String) : Nat :=
  (l.funcImports.findIdx? fun
    | .func m n _ _ => m == module && n == name
    | .global _ => false).getD 0

/-- The index and the number of parameters of a defined function. -/
def funcIndex? (l : Layout) (ns name : String) : Option (Nat × Nat) := do
  let i ← l.keys.findIdx? (· == (ns, name))
  let f ← l.funcs[i]?
  return (l.funcImports.length + i, f.defn.params.length)

/-- The index of a data symbol, imported or owned. -/
def globalIndex (l : Layout) (name : String) : Nat :=
  match l.globals.findIdx? (·.1 == name) with
  | some i => l.globalImports.length + i
  | none => l.globalImports.idxOf name

end Layout

end WasmLisp.Codegen
