import WasmLisp.Machine.Decode

/-!
Validation: every index of a module is in range, every body keeps to its types, and no two exports
share a name.
-/

namespace WasmLisp.Machine

/-- What an index of each space stands for. -/
structure Context where
  types : List Binary.FuncType
  /-- The signatures of all functions, the imported ones first. -/
  funcs : List Binary.FuncType
  /-- The types of all globals, the imported ones first. -/
  globals : List Binary.GlobalType
  locals : List UInt8 := []
  results : List UInt8 := []
  /-- What branches to the enclosing blocks carry, the innermost first. -/
  labels : List (List UInt8) := []
  deriving Repr

/-- The types on the operand stack, the top first. After an instruction that never falls through
anything may be below them. -/
structure Operands where
  types : List UInt8 := []
  open' : Bool := false
  deriving DecidableEq, Repr

namespace Operands

/-- Puts values on the stack; the last of the list ends up on top. -/
def push (s : Operands) (ts : List UInt8) : Operands := { s with types := ts.reverse ++ s.types }

/-- Takes a value of a type off the stack. -/
def pop1 (s : Operands) (t : UInt8) : Option Operands :=
  match s.types with
  | u :: rest => if u = t then some { s with types := rest } else none
  | [] => if s.open' then some s else none

/-- Takes values off the stack, the last of the list first. -/
def pop (s : Operands) (ts : List UInt8) : Option Operands := ts.reverse.foldlM pop1 s

/-- Takes a value of any type off the stack; `none` for its type if nothing is known of it. -/
def popAny (s : Operands) : Option (Option UInt8 × Operands) :=
  match s.types with
  | t :: rest => some (some t, { s with types := rest })
  | [] => if s.open' then some (none, s) else none

/-- The stack after an instruction that never falls through. -/
def unreachable : Operands := { open' := true }

/-- Whether exactly these values are left. -/
def leaves (s : Operands) (ts : List UInt8) : Bool :=
  match s.pop ts with
  | some s => s.types.isEmpty
  | none => false

end Operands

/-- What a block takes and leaves. -/
def Context.blockType? (c : Context) : BlockType → Option Binary.FuncType
  | .empty => some { params := [], results := [] }
  | .value t => some { params := [], results := [t] }
  | .signature i => c.types[i]?

mutual

/-- The operands after an instruction, or `none` if it does not keep to the types. -/
def check (c : Context) (s : Operands) : Instr → Option Operands
  | .unreachable => some .unreachable
  | .nop => some s
  | .block t body => do
    let t ← c.blockType? t
    let inner := { c with labels := t.results :: c.labels }
    let s ← s.pop t.params
    let after ← checkAll inner (({} : Operands).push t.params) body
    if after.leaves t.results then some (s.push t.results) else none
  | .loop t body => do
    let t ← c.blockType? t
    let inner := { c with labels := t.params :: c.labels }
    let s ← s.pop t.params
    let after ← checkAll inner (({} : Operands).push t.params) body
    if after.leaves t.results then some (s.push t.results) else none
  | .ifElse t thenB elseB => do
    let t ← c.blockType? t
    let inner := { c with labels := t.results :: c.labels }
    let s ← s.pop1 Binary.i32
    let s ← s.pop t.params
    let afterThen ← checkAll inner (({} : Operands).push t.params) thenB
    let afterElse ← checkAll inner (({} : Operands).push t.params) elseB
    if afterThen.leaves t.results && afterElse.leaves t.results then some (s.push t.results)
    else none
  | .br l => do
    let ts ← c.labels[l]?
    let _ ← s.pop ts
    return .unreachable
  | .brIf l => do
    let ts ← c.labels[l]?
    let s ← s.pop1 Binary.i32
    let s ← s.pop ts
    return s.push ts
  | .ret => do
    let _ ← s.pop c.results
    return .unreachable
  | .call i => do
    let t ← c.funcs[i]?
    return (← s.pop t.params).push t.results
  | .drop => do
    let (_, s) ← s.popAny
    return s
  | .select => do
    let s ← s.pop1 Binary.i32
    let (a, s) ← s.popAny
    let (b, s) ← s.popAny
    match a, b with
    | some a, some b => if a = b then some (s.push [a]) else none
    | some a, none => some (s.push [a])
    | none, some b => some (s.push [b])
    | none, none => some s
  | .localGet i => do return s.push [← c.locals[i]?]
  | .localSet i => do s.pop1 (← c.locals[i]?)
  | .localTee i => do
    let t ← c.locals[i]?
    return (← s.pop1 t).push [t]
  | .globalGet i => do return s.push [(← c.globals[i]?).valType]
  | .globalSet i => do
    let g ← c.globals[i]?
    if g.mutable then s.pop1 g.valType else none
  | .i32Const _ => some (s.push [Binary.i32])
  | .i64Const _ => some (s.push [Binary.i64])
  | .eqz w => do return (← s.pop1 w.valType).push [Binary.i32]
  | .rel w _ => do return (← s.pop [w.valType, w.valType]).push [Binary.i32]
  | .bin w _ => do return (← s.pop [w.valType, w.valType]).push [w.valType]
  | .wrap => do return (← s.pop1 Binary.i64).push [Binary.i32]
  | .extendS => do return (← s.pop1 Binary.i32).push [Binary.i64]
  | .extendU => do return (← s.pop1 Binary.i32).push [Binary.i64]

/-- The operands after several instructions. -/
def checkAll (c : Context) (s : Operands) : List Instr → Option Operands
  | [] => some s
  | i :: rest => do checkAll c (← check c s i) rest

end

namespace Module

/-- The signatures of all functions; `none` if an index is out of range. -/
def signatures? (m : Module) : Option (List Binary.FuncType) := do
  let imported := m.imports.filterMap (·.desc.func?)
  (imported ++ m.funcTypes).mapM fun i => m.types[i]?

/-- The types of the imported globals. -/
def importedGlobals (m : Module) : List Binary.GlobalType :=
  m.imports.filterMap (·.desc.global?)

/-- The types of all globals. -/
def globalTypes (m : Module) : List Binary.GlobalType :=
  m.importedGlobals ++ m.globals.map (·.type)

/-- Whether a global's initializer has its type. Only imported globals can be referred to. -/
def initFits (m : Module) (g : GlobalDef) : Bool :=
  match g.init with
  | .i32 _ => g.type.valType == Binary.i32
  | .i64 _ => g.type.valType == Binary.i64
  | .float t _ => g.type.valType == t
  | .global i =>
    match m.importedGlobals[i]? with
    | some t => t.valType == g.type.valType
    | none => false

/-- Whether an export refers to something. -/
def exportFits (m : Module) (funcs : Nat) (e : Binary.Export) : Bool :=
  if e.kind = Binary.kindFunc then e.index.toNat < funcs
  else if e.kind = Binary.kindGlobal then e.index.toNat < m.globalTypes.length
  else false

/-- Whether a body leaves what its signature says. -/
def bodyFits (c : Context) (t : Binary.FuncType) (locals : List UInt8) (body : List Instr) :
    Bool :=
  let c := { c with locals := t.params ++ locals, results := t.results, labels := [t.results] }
  match checkAll c {} body with
  | some s => s.leaves t.results
  | none => false

/-- Whether a module keeps to the rules. -/
def valid (m : Module) : Bool :=
  match m.signatures? with
  | none => false
  | some funcs =>
    let c : Context := { types := m.types, funcs, globals := m.globalTypes }
    let own := funcs.drop (funcs.length - m.funcTypes.length)
    m.funcTypes.length == m.code.length
      && (own.zip m.code).all (fun (t, locals, body) => bodyFits c t locals body)
      && m.globals.all m.initFits
      && m.exports.all (m.exportFits funcs.length)
      && (m.exports.map (·.name)).Nodup
      && (match m.start with
        | none => true
        | some i => funcs[i]? == some { params := [], results := [] })

end Module

/-- Decodes and validates a binary. -/
def Module.load? (bin : List UInt8) : Option Module := do
  let m ← Module.decode? bin
  if m.valid then some m else none

end WasmLisp.Machine
