import WasmLisp.Codegen.Layout
import WasmLisp.Machine.Instr

/-!
Code generation: a unit becomes a module whose entry function evaluates the unit's forms in order
and returns the value of the last. Every expression leaves exactly one 64-bit integer.
-/

namespace WasmLisp.Codegen

open Machine (Instr)
open Artifact (envModule varModule varDefModule)

/-- The nesting of expressions that is allowed unless another limit is chosen. -/
def defaultMaxDepth : Nat := 4096

/-- The limit that a configured number stands for. -/
def effectiveDepth (configured : Int) : Nat :=
  if configured ≤ 0 then defaultMaxDepth else configured.toNat

/-- Local names and their indices, the innermost first. -/
abbrev Slots := List (String × Nat)

/-- The comparison that a primitive is. -/
def relation? (op : String) : Option Machine.Rel :=
  match op with
  | "<" => some .ltS
  | ">" => some .gtS
  | "<=" => some .leS
  | ">=" => some .geS
  | "=" => some .eq
  | "not=" => some .ne
  | _ => none

/-- The arithmetic operation that a primitive is. -/
def arithmetic? (op : String) : Option Machine.Bin :=
  match op with
  | "+" => some .add
  | "-" => some .sub
  | "*" => some .mul
  | "quot" => some .divS
  | "rem" => some .remS
  | _ => none

/-- The ways in which primitives put the codes of their operands together. -/
inductive PrimShape where
  /-- Whether the operand is zero. -/
  | isZero
  | relation (op : Machine.Rel)
  | constant (value : Int64)
  | negate
  /-- The operation between each operand and the next. -/
  | chain (op : Machine.Bin)
  deriving DecidableEq, Repr

namespace PrimShape

/-- The shape of a primitive applied to a count of operands. -/
def of (name : String) (count : Nat) : Result PrimShape :=
  if name = "not" then
    if count = 0 then .error (.semantic s!"{name} expects arguments") else .ok .isZero
  else match relation? name with
    | some op =>
      if count = 2 then .ok (.relation op) else .error (.semantic s!"{name} expects 2 arguments")
    | none =>
      match arithmetic? name, count with
      | none, _ => .error (.semantic s!"unknown primitive {name}")
      | some .add, 0 => .ok (.constant 0)
      | some .mul, 0 => .ok (.constant 1)
      | some _, 0 => .error (.semantic s!"{name} expects arguments")
      | some .sub, 1 => .ok .negate
      | some .divS, 1 => .error (.semantic s!"{name} expects 2 arguments")
      | some .remS, 1 => .error (.semantic s!"{name} expects 2 arguments")
      | some op, _ => .ok (.chain op)

/-- How many of the operands are evaluated. -/
def operands (count : Nat) : PrimShape → Nat
  | .isZero => 1
  | .constant _ => 0
  | _ => count

/-- The code of the primitive, given those of its operands. -/
def code : PrimShape → List (List Instr) → List Instr
  | .isZero, codes => codes.flatten ++ [.eqz .w64, .extendU]
  | .relation op, codes => codes.flatten ++ [.rel .w64 op, .extendU]
  | .constant v, _ => [.i64Const v]
  | .negate, codes => .i64Const 0 :: (codes.flatten ++ [.bin .w64 .sub])
  | .chain _, [] => []
  | .chain op, first :: rest => first ++ rest.flatMap (· ++ [.bin .w64 op])

end PrimShape

/-- What code generation of expressions depends on: the layout and the limit on nesting. -/
structure Context where
  layout : Layout
  maxDepth : Nat

mutual

/-- The code of an expression and the first local that is free after it. `depth` counts the
expressions around it, `next` is the first free local. -/
def expr (c : Context) (depth : Nat) (slots : Slots) (next : Nat) (n : Node) :
    Result (List Instr × Nat) :=
  if c.maxDepth < depth + 1 then
    .error (.backend none s!"expression nesting exceeds {c.maxDepth} levels")
  else match n with
    | .absent => .ok ([.i64Const 0], next)
    | .const v => .ok ([.i64Const v], next)
    | .localVar name =>
      match slots.lookup name with
      | some i => .ok ([.localGet i], next)
      | none => .error (.semantic s!"unbound local {name}")
    | .varRef ns name =>
      .ok ([.call (c.layout.importIndex varModule (Symbol.qualify ns name))], next)
    | .bindVar ns name init => do
      let (code, next) ← expr c (depth + 1) slots next init
      let binder := c.layout.importIndex varDefModule (Symbol.qualify ns name)
      -- the binder takes the value away, so a local keeps it as the value of the expression
      return (code ++ [.localTee next, .call binder, .localGet next], next + 1)
    -- definitions take effect through the layout; where they stand they are only worth a value
    | .defn _ _ _ _ => .ok ([.i64Const 0], next)
    | .defGlobal _ init => .ok ([.i64Const init], next)
    | .invoke ns name args => do
      let (code, next) ← exprs c (depth + 1) slots next args
      match c.layout.funcIndex? ns name with
      | some (index, params) =>
        if params ≠ args.length then
          .error (.semantic
            s!"wrong number of arguments ({args.length}) to {Symbol.qualify ns name}")
        else return (code ++ [.call index], next)
      | none =>
        return (code ++ [.call (c.layout.importIndex envModule (Symbol.qualify ns name))], next)
    | .foreignCall name args => do
      let (code, next) ← exprs c (depth + 1) slots next args
      return (code ++ [.call (c.layout.importIndex envModule name)], next)
    | .foreignGet name => .ok ([.globalGet (c.layout.globalIndex name)], next)
    | .foreignSet name value => do
      let (code, next) ← expr c (depth + 1) slots next value
      let g := c.layout.globalIndex name
      -- the value of an assignment is read back from the symbol
      return (code ++ [.globalSet g, .globalGet g], next)
    | .prim op args => do
      let shape ← PrimShape.of op args.length
      let (codes, next) ← operandCodes c (depth + 1) slots next (PrimShape.operands args.length shape) args
      return (shape.code codes, next)
    | .ifElse cond thenB elseB => do
      let (condCode, next) ← expr c (depth + 1) slots next cond
      let (thenCode, next) ← expr c (depth + 1) slots next thenB
      let (elseCode, next) ← expr c (depth + 1) slots next elseB
      -- every value but zero counts as true
      let test : List Instr := [.i64Const 0, .rel .w64 .ne]
      return (condCode ++ test ++ [.ifElse (.value Binary.i64) thenCode elseCode], next)
    | .letIn bindings body => do
      let (code, slots, next) ← bindingCode c (depth + 1) slots next bindings
      let (bodyCode, next) ← expr c (depth + 1) slots next body
      return (code ++ bodyCode, next)
    | .seq forms => sequence c (depth + 1) slots next forms

/-- The code of several expressions, each of which leaves its value. -/
def exprs (c : Context) (depth : Nat) (slots : Slots) (next : Nat) :
    List Node → Result (List Instr × Nat)
  | [] => .ok ([], next)
  | n :: rest => do
    let (code, next) ← expr c depth slots next n
    let (more, next) ← exprs c depth slots next rest
    return (code ++ more, next)

/-- The code of several expressions of which only the last leaves its value. -/
def sequence (c : Context) (depth : Nat) (slots : Slots) (next : Nat) :
    List Node → Result (List Instr × Nat)
  | [] => .ok ([.i64Const 0], next)
  | [n] => expr c depth slots next n
  | n :: rest => do
    let (code, next) ← expr c depth slots next n
    let (more, next) ← sequence c depth slots next rest
    return (code ++ .drop :: more, next)

/-- The code of bindings: each value goes to a local of its own. -/
def bindingCode (c : Context) (depth : Nat) (slots : Slots) (next : Nat) :
    List (String × Node) → Result (List Instr × Slots × Nat)
  | [] => .ok ([], slots, next)
  | (name, value) :: rest => do
    let (code, next) ← expr c depth slots next value
    -- the name comes into scope after its own value
    let (more, inner, last) ← bindingCode c depth ((name, next) :: slots) (next + 1) rest
    return (code ++ .localSet next :: more, inner, last)

/-- The codes of the first expressions, as many as said, one by one. -/
def operandCodes (c : Context) (depth : Nat) (slots : Slots) (next : Nat) :
    (count : Nat) → List Node → Result (List (List Instr) × Nat)
  | 0, _ => .ok ([], next)
  | _, [] => .ok ([], next)
  | count + 1, n :: rest => do
    let (code, next) ← expr c depth slots next n
    let (more, next) ← operandCodes c depth slots next count rest
    return (code :: more, next)

end

/-- The code of a function: how many parameters and further locals it has, and its body. -/
structure Code where
  params : Nat
  locals : Nat
  body : List Instr
  deriving Repr, Inhabited

/-- The slots of parameters. -/
def paramSlots (params : List String) : Slots := params.zipIdx.reverse

/-- The code of a function definition. -/
def functionCode (c : Context) (d : Defn) : Result Code := do
  let n := d.params.length
  let (body, next) ← expr c 0 (paramSlots d.params) n d.body
  return { params := n, locals := next - n, body }

/-- The code of the entry function. -/
def entryCode (c : Context) (forms : List Node) : Result Code := do
  let (body, next) ← sequence c 0 [] 0 forms
  return { params := 0, locals := next, body }

/-- A generated module before it is written down: its layout, the code of its functions in order
and that of its entry. -/
structure Program where
  layout : Layout
  functions : List Code
  entry : Code
  entryName : String
  deriving Repr, Inhabited

/-- The program of a unit, linked with preamble functions. -/
def Program.ofUnit (u : CompUnit) (fns : List Defn) (maxDepth : Nat) : Result Program := do
  let layout ← Layout.ofUnit u fns
  let c : Context := { layout, maxDepth }
  let functions ← layout.funcs.mapM fun l => functionCode c l.defn
  let entry ← entryCode c u.forms
  return { layout, functions, entry, entryName := u.entrySymbol }

/-! ## The module -/

/-- Adds an import to a module. -/
def addWanted (m : Binary.Module) : Wanted → Binary.Module
  | .func module name params results =>
    let (typeIdx, m) := m.addType (.ofCounts params results)
    { m with imports := m.imports ++ [{ module, name, desc := .func typeIdx }] }
  | .global name =>
    let type := { valType := Binary.i64, mutable := true }
    { m with imports := m.imports ++ [{ module := envModule, name, desc := .global type }] }

/-- Adds a function to a module. -/
def addCode (m : Binary.Module) (code : Code) : Binary.Module :=
  let (typeIdx, m) := m.addType (.ofCounts code.params 1)
  let func : Binary.Func :=
    { typeIdx, locals := List.replicate code.locals Binary.i64
      body := Instr.encodeAll code.body }
  { m with funcs := m.funcs ++ [func] }

/-- The exports: the unit's own functions, its data symbols, and the entry. -/
def Program.exports (p : Program) : List Binary.Export :=
  let firstFunc := p.layout.funcImports.length
  let firstGlobal := p.layout.globalImports.length
  let funcs := p.layout.funcs.zipIdx.filterMap fun (l, i) =>
    if l.exported then
      some { name := l.defn.qualified, kind := Binary.kindFunc
             index := UInt32.ofNat (firstFunc + i) }
    else none
  let globals := p.layout.globals.zipIdx.map fun ((name, _), i) =>
    { name, kind := Binary.kindGlobal, index := UInt32.ofNat (firstGlobal + i) }
  funcs ++ globals ++
    [{ name := p.entryName, kind := Binary.kindFunc
       index := UInt32.ofNat (firstFunc + p.layout.funcs.length) }]

/-- The module that a program is written down as, apart from its manifest. -/
def Program.toModule (p : Program) : Binary.Module :=
  let m := p.layout.imports.foldl addWanted {}
  let m := (p.functions ++ [p.entry]).foldl addCode m
  { m with
    globals := p.layout.globals.map fun (_, init) =>
      { type := { valType := Binary.i64, mutable := true }, init }
    exports := p.exports }

/-- The names of the vars that imports read or bind, each once. -/
def varNames (imports : List Wanted) : List String :=
  (imports.filterMap fun
    | .func module name _ _ =>
      if module = varModule || module = varDefModule then some name else none
    | .global _ => none).eraseDups

/-- What the artifact of a unit says about itself. -/
def manifestOf (u : CompUnit) (l : Layout) : Manifest :=
  { version := Manifest.currentVersion
    hash := u.hash
    entry := u.entrySymbol
    target := u.target.key
    functions := (l.funcs.filter (·.exported)).map fun f =>
      (f.defn.qualified, f.defn.params.length)
    globals := l.globals
    vars := varNames l.imports
    effects := u.effects
    deps := u.deps }

/-- A module and its manifest, which the module holds too. -/
structure Generated where
  module : Binary.Module
  manifest : Manifest
  deriving Repr, Inhabited

/-- Generates the module of a unit, linked with the preamble functions that it calls. -/
def generate (u : CompUnit) (fns : List Defn) (maxDepth : Int) : Result Generated := do
  let program ← Program.ofUnit u fns (effectiveDepth maxDepth)
  let manifest := manifestOf u program.layout
  let m := program.toModule
  let section' : Binary.Custom := { name := Manifest.sectionName, data := manifest.encode }
  return { module := { m with customs := m.customs ++ [section'] }, manifest }

end WasmLisp.Codegen
