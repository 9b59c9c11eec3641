import WasmLisp.Machine.Store

/-!
Execution, one instruction at a time. The operand stack is a list with the top first; integers of
32 bits are held in 64 with zeros above. A run ends with values, in a trap, or out of fuel.
-/

namespace WasmLisp.Machine

/-- Why execution cannot go on. -/
inductive Trap where
  | unreachable
  | divideByZero
  | overflow
  | stackOverflow
  /-- A host function gave this reason. -/
  | host (message : String)
  /-- The code is not valid. -/
  | stuck
  deriving DecidableEq, Repr, Inhabited

/-- The wording of a trap with the functions that were active, the innermost first. -/
def Trap.message (trace : List String) : Trap → String
  | .unreachable => withTrace "wasm error: unreachable"
  | .divideByZero => withTrace "wasm error: integer divide by zero"
  | .overflow => withTrace "wasm error: integer overflow"
  | .stackOverflow => "stack overflow"
  | .host message => withTrace (message ++ " (recovered by wazero)")
  | .stuck => "invalid code"
where
  /-- At most thirty functions are listed. -/
  withTrace (text : String) : String :=
    let shown := trace.take 30
    let lines := if shown.length < 30 then shown
      else shown ++ ["... maybe followed by omitted frames"]
    text ++ "\nwasm stack trace:\n\t" ++ "\n\t".intercalate lines

/-! ## Integer operations -/

/-- A truth value as an integer. -/
def ofBool (b : Bool) : Int64 := if b then 1 else 0

/-- The low 32 bits. -/
def low32 (v : Int64) : UInt32 := v.toUInt64.toUInt32

/-- An integer of 32 bits as it is held. -/
def hold32 (v : UInt32) : Int64 := v.toUInt64.toInt64

def rel64 (op : Rel) (a b : Int64) : Bool :=
  match op with
  | .eq => a == b
  | .ne => a != b
  | .ltS => a < b
  | .ltU => a.toUInt64 < b.toUInt64
  | .gtS => b < a
  | .gtU => b.toUInt64 < a.toUInt64
  | .leS => a ≤ b
  | .leU => a.toUInt64 ≤ b.toUInt64
  | .geS => b ≤ a
  | .geU => b.toUInt64 ≤ a.toUInt64

def bin64 (op : Bin) (a b : Int64) : Except Trap Int64 :=
  match op with
  | .add => .ok (a + b)
  | .sub => .ok (a - b)
  | .mul => .ok (a * b)
  | .divS =>
    if b = 0 then .error .divideByZero
    else if a = Int64.minValue && b = -1 then .error .overflow
    else .ok (a / b)
  | .divU =>
    if b = 0 then .error .divideByZero else .ok (a.toUInt64 / b.toUInt64).toInt64
  | .remS => if b = 0 then .error .divideByZero else .ok (a % b)
  | .remU =>
    if b = 0 then .error .divideByZero else .ok (a.toUInt64 % b.toUInt64).toInt64
  | .and => .ok (a &&& b)
  | .or => .ok (a ||| b)
  | .xor => .ok (a ^^^ b)
  | .shl => .ok (a.toUInt64 <<< (b.toUInt64 % 64)).toInt64
  | .shrS => .ok (a >>> (b.toUInt64 % 64).toInt64)
  | .shrU => .ok (a.toUInt64 >>> (b.toUInt64 % 64)).toInt64
  | .rotl =>
    let n := b.toUInt64 % 64
    .ok ((a.toUInt64 <<< n) ||| (a.toUInt64 >>> ((64 - n) % 64))).toInt64
  | .rotr =>
    let n := b.toUInt64 % 64
    .ok ((a.toUInt64 >>> n) ||| (a.toUInt64 <<< ((64 - n) % 64))).toInt64

def rel32 (op : Rel) (a b : UInt32) : Bool :=
  match op with
  | .eq => a == b
  | .ne => a != b
  | .ltS => a.toInt32 < b.toInt32
  | .ltU => a < b
  | .gtS => b.toInt32 < a.toInt32
  | .gtU => b < a
  | .leS => a.toInt32 ≤ b.toInt32
  | .leU => a ≤ b
  | .geS => b.toInt32 ≤ a.toInt32
  | .geU => b ≤ a

def bin32 (op : Bin) (a b : UInt32) : Except Trap UInt32 :=
  match op with
  | .add => .ok (a + b)
  | .sub => .ok (a - b)
  | .mul => .ok (a * b)
  | .divS =>
    if b = 0 then .error .divideByZero
    else if a.toInt32 = Int32.minValue && b.toInt32 = -1 then .error .overflow
    else .ok (a.toInt32 / b.toInt32).toUInt32
  | .divU => if b = 0 then .error .divideByZero else .ok (a / b)
  | .remS => if b = 0 then .error .divideByZero else .ok (a.toInt32 % b.toInt32).toUInt32
  | .remU => if b = 0 then .error .divideByZero else .ok (a % b)
  | .and => .ok (a &&& b)
  | .or => .ok (a ||| b)
  | .xor => .ok (a ^^^ b)
  | .shl => .ok (a <<< (b % 32))
  | .shrS => .ok (a.toInt32 >>> (b % 32).toInt32).toUInt32
  | .shrU => .ok (a >>> (b % 32))
  | .rotl => .ok ((a <<< (b % 32)) ||| (a >>> ((32 - b % 32) % 32)))
  | .rotr => .ok ((a >>> (b % 32)) ||| (a <<< ((32 - b % 32) % 32)))

/-- An operation on two integers of a width. -/
def binary (w : Width) (op : Bin) (a b : Int64) : Except Trap Int64 :=
  match w with
  | .w64 => bin64 op a b
  | .w32 => hold32 <$> bin32 op (low32 a) (low32 b)

/-- A comparison of two integers of a width. -/
def compare (w : Width) (op : Rel) (a b : Int64) : Int64 :=
  match w with
  | .w64 => ofBool (rel64 op a b)
  | .w32 => ofBool (rel32 op (low32 a) (low32 b))

/-! ## Configurations -/

/-- An enclosing block: how many values a branch to it carries, what is below them on the stack,
the code that a branch goes to and the code after the block. -/
structure Label where
  arity : Nat
  below : List Int64
  target : List Instr
  rest : List Instr

/-- An active function: its address and instance, its locals, what it still has to do, the blocks
around that, and its operands. -/
structure Frame where
  address : Nat
  inst : Nat
  results : Nat
  locals : List Int64
  code : List Instr
  labels : List Label := []
  stack : List Int64 := []

/-- The frame in which a function that has these results, further locals and body begins. -/
def Frame.start (address inst results locals : Nat) (body : List Instr) (args : List Int64) : Frame :=
  { address, inst, results, locals := args ++ List.replicate locals 0, code := body }

/-- The number of functions that can be active at once. -/
def maxDepth : Nat := 1250000

/-- A moment of execution. The world is what host functions act on. -/
structure Config (η σ : Type) where
  store : Store η
  world : σ
  frame : Frame
  callers : List Frame := []
  depth : Nat := 1
  /-- How many functions can be active at once; `none` if the call stack is unbounded. -/
  limit : Option Nat := some maxDepth

/-- How a run ends; the store and the world are as they were left. -/
inductive Outcome (η σ : Type) where
  | done (values : List Int64) (store : Store η) (world : σ)
  | trap (cause : Trap) (active : List Nat) (store : Store η) (world : σ)
  | outOfFuel (store : Store η) (world : σ)

/-- The behaviour of host functions: they act on the world, and give values or a reason. -/
abbrev HostCall (η σ : Type) := η → List Int64 → σ → σ × Except String (List Int64)

/-- What a host function of a type answers. One that gives another count of values than its type
says does not keep to the rules. -/
def hostAnswer (type : Binary.FuncType) : Except String (List Int64) → Except Trap (List Int64)
  | .ok values => if values.length = type.results.length then .ok values else .error .stuck
  | .error message => .error (.host message)

/-- One step leads to another moment or to the end. -/
inductive Step (η σ : Type) where
  | next (c : Config η σ)
  | stop (o : Outcome η σ)

variable {η σ : Type}

namespace Config

/-- The addresses of the active functions, the innermost first. -/
def active (c : Config η σ) : List Nat := c.frame.address :: c.callers.map (·.address)

def trap (c : Config η σ) (t : Trap) : Step η σ := .stop (.trap t c.active c.store c.world)

/-- Goes on with another frame. -/
def goOn (c : Config η σ) (f : Frame) : Step η σ := .next { c with frame := f }

/-- Whether no further function can become active. -/
def isFull (c : Config η σ) : Bool :=
  match c.limit with
  | some limit => limit ≤ c.depth
  | none => false

/-- Ends the active function with the values on top of its stack. -/
def leave (c : Config η σ) : Step η σ :=
  let values := c.frame.stack.take c.frame.results
  if values.length < c.frame.results then c.trap .stuck
  else match c.callers with
    | [] => .stop (.done values.reverse c.store c.world)
    | caller :: outer =>
      .next { c with
        frame := { caller with stack := values ++ caller.stack }, callers := outer
        depth := c.depth - 1 }

/-- Branches to an enclosing block; past the last it ends the function. -/
def branch (c : Config η σ) (l : Nat) : Step η σ :=
  match c.frame.labels.drop l with
  | [] => c.leave
  | label :: outer =>
    c.goOn { c.frame with
      code := label.target, labels := outer
      stack := c.frame.stack.take label.arity ++ label.below }

/-- Enters a block of code that takes some values and leaves some. -/
def enter (c : Config η σ) (params results : Nat) (body target rest : List Instr) (isLoop : Bool) :
    Step η σ :=
  let f := c.frame
  let label : Label :=
    { arity := if isLoop then params else results, below := f.stack.drop params, target, rest }
  c.goOn { f with code := body, labels := label :: f.labels }

/-- How many values a block takes and leaves. -/
def blockArity (c : Config η σ) : BlockType → Nat × Nat
  | .empty => (0, 0)
  | .value _ => (0, 1)
  | .signature i =>
    match (c.store.instances[c.frame.inst]?).bind (·.types[i]?) with
    | some t => (t.params.length, t.results.length)
    | none => (0, 0)

/-- Calls the function at an address with the values on top of the stack. The active function goes
on with `rest` afterwards. -/
def call (host : HostCall η σ) (c : Config η σ) (address : Nat) (rest : List Instr) :
    Step η σ :=
  match c.store.funcs[address]? with
  | none => c.trap .stuck
  | some callee =>
    let n := callee.type.params.length
    let args := (c.frame.stack.take n).reverse
    let caller := { c.frame with code := rest, stack := c.frame.stack.drop n }
    match callee with
    | .host handle _ t =>
      let (world, answer) := host handle args c.world
      match hostAnswer t answer with
      | .ok values =>
        .next { c with world, frame := { caller with stack := values.reverse ++ caller.stack } }
      | .error cause => .stop (.trap cause (address :: c.active) c.store world)
    | .code inst _ t locals body =>
      if c.isFull then .stop (.trap .stackOverflow c.active c.store c.world)
      else
        .next { c with
          frame := .start address inst t.results.length locals body args
          callers := caller :: c.callers
          depth := c.depth + 1 }

/-- The address behind an index of the active function's instance. -/
def funcAddress? (c : Config η σ) (i : Nat) : Option Nat :=
  (c.store.instances[c.frame.inst]?).bind (·.funcs[i]?)

def globalAddress? (c : Config η σ) (i : Nat) : Option Nat :=
  (c.store.instances[c.frame.inst]?).bind (·.globals[i]?)

/-- Executes an instruction, before the rest of the code. -/
def exec (host : HostCall η σ) (c : Config η σ) (i : Instr) (rest : List Instr) : Step η σ :=
  let f := c.frame
  match i, f.stack with
  | .unreachable, _ => c.trap .unreachable
  | .nop, _ => c.goOn { f with code := rest }
  | .block t body, _ =>
    let (params, results) := c.blockArity t
    c.enter params results body rest rest false
  | .loop t body, _ =>
    let (params, results) := c.blockArity t
    -- a branch to a loop starts it again, and carries what the loop takes
    c.enter params results body (.loop t body :: rest) rest true
  | .ifElse t thenB elseB, v :: stack =>
    let (params, results) := c.blockArity t
    let c := { c with frame := { f with stack } }
    c.enter params results (if v = 0 then elseB else thenB) rest rest false
  | .br l, _ => c.branch l
  | .brIf l, v :: stack =>
    if v = 0 then c.goOn { f with code := rest, stack }
    else { c with frame := { f with stack } }.branch l
  | .ret, _ => c.leave
  | .call i, _ =>
    match c.funcAddress? i with
    | some address => call host c address rest
    | none => c.trap .stuck
  | .drop, _ :: stack => c.goOn { f with code := rest, stack }
  | .select, v :: b :: a :: stack =>
    c.goOn { f with code := rest, stack := (if v = 0 then b else a) :: stack }
  | .localGet i, stack => c.goOn { f with code := rest, stack := f.locals.getD i 0 :: stack }
  | .localSet i, v :: stack => c.goOn { f with code := rest, stack, locals := f.locals.set i v }
  | .localTee i, v :: stack =>
    c.goOn { f with code := rest, stack := v :: stack, locals := f.locals.set i v }
  | .globalGet i, stack =>
    match c.globalAddress? i with
    | some a => c.goOn { f with code := rest, stack := c.store.globalValue a :: stack }
    | none => c.trap .stuck
  | .globalSet i, v :: stack =>
    match c.globalAddress? i with
    | some a => .next { c with store := c.store.setGlobal a v, frame := { f with code := rest, stack } }
    | none => c.trap .stuck
  | .i32Const v, stack => c.goOn { f with code := rest, stack := hold32 v :: stack }
  | .i64Const v, stack => c.goOn { f with code := rest, stack := v :: stack }
  | .eqz _, v :: stack => c.goOn { f with code := rest, stack := ofBool (v == 0) :: stack }
  | .rel w op, b :: a :: stack => c.goOn { f with code := rest, stack := compare w op a b :: stack }
  | .bin w op, b :: a :: stack =>
    match binary w op a b with
    | .ok v => c.goOn { f with code := rest, stack := v :: stack }
    | .error t => c.trap t
  | .wrap, v :: stack => c.goOn { f with code := rest, stack := hold32 (low32 v) :: stack }
  | .extendS, v :: stack =>
    c.goOn { f with code := rest, stack := (low32 v).toInt32.toInt64 :: stack }
  -- integers of 32 bits are held with zeros above already
  | .extendU, v :: stack => c.goOn { f with code := rest, stack := v :: stack }
  | _, _ => c.trap .stuck

/-- One step: an instruction, the end of a block, or the end of a function. -/
def step (host : HostCall η σ) (c : Config η σ) : Step η σ :=
  match c.frame.code with
  | i :: rest => c.exec host i rest
  | [] =>
    match c.frame.labels with
    | [] => c.leave
    | label :: outer => c.goOn { c.frame with code := label.rest, labels := outer }

/-- Runs until the end, at most as many steps as the fuel. -/
def run (host : HostCall η σ) : (fuel : Nat) → Config η σ → Outcome η σ
  | 0, c => .outOfFuel c.store c.world
  | fuel + 1, c =>
    match c.step host with
    | .next c => run host fuel c
    | .stop o => o

end Config

/-- More steps than any run that ends takes. -/
def enough : Nat := 1000000000000000

/-- Calls the function at an address, with a limit on the functions that can be active at once and
at most as many steps as the fuel. -/
def invokeWithin (host : HostCall η σ) (limit : Option Nat) (fuel : Nat) (store : Store η)
    (world : σ) (address : Nat) (args : List Int64) : Outcome η σ :=
  match store.funcs[address]? with
  | none => .trap .stuck [] store world
  | some (.host handle _ t) =>
    let (world, answer) := host handle args world
    match hostAnswer t answer with
    | .ok values => .done values store world
    | .error cause => .trap cause [address] store world
  | some (.code inst _ t locals body) =>
    let frame := Frame.start address inst t.results.length locals body args
    Config.run host fuel { store, world, frame, limit }

/-- Calls the function at an address. -/
def invoke (host : HostCall η σ) (store : Store η) (world : σ) (address : Nat)
    (args : List Int64) : Outcome η σ :=
  invokeWithin host (some maxDepth) enough store world address args

/-- The functions of a trace as it shows them. -/
def Store.trace (store : Store η) (active : List Nat) : List String :=
  (active.take 30).map fun a =>
    match store.funcs[a]? with
    | some f => f.site
    | none => ""

end WasmLisp.Machine
