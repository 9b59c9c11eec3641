import WasmLisp.EnvForm
import WasmLisp.Node

/-!
Analysis: forms become nodes. Names are resolved, special forms are taken apart, and definitions
are declared in the environment as they are met, so that a function can call itself and later forms
can refer to earlier ones. What a failing form declared before it failed stays declared.
-/

namespace WasmLisp

namespace Analysis

/-- The namespace that qualifies foreign symbols. -/
def nativeNs : String := "native"

/-- What is wrong with a form. -/
inductive Reason where
  | keywordValue (name : String)
  | vectorValue
  | unresolved (symbol ns : String)
  | functionValue (qualified : String)
  | cannotCall (text : String)
  | quotedData
  | envForm (head : String)
  | primArity (count : Nat) (op : String)
  | localCall (name : String)
  | notFunction (qualified : String)
  | arity (count : Nat) (qualified : String) (expected : Int)
  | needsName (head : String)
  | badDefName (head : String)
  | notTop (head : String)
  | defShape
  | defnParams
  | paramsVector
  | badParam (text : String)
  | duplicateParam (name : String)
  | globalInit
  | globalShape
  | letVector
  | letPairs
  | letName
  | ifShape
  | setShape
  | setTarget
  deriving DecidableEq, Repr

def Reason.message : Reason → String
  | .keywordValue name => s!"keyword :{name} is not a value"
  | .vectorValue => "vectors are only allowed in binding positions"
  | .unresolved symbol ns => s!"unable to resolve symbol {symbol} in namespace {ns}"
  | .functionValue qualified => s!"function {qualified} cannot be used as a value"
  | .cannotCall text => s!"cannot call {text}"
  | .quotedData => "quoted data is only allowed in environment forms"
  | .envForm head => s!"({head} ...) must appear at the top level of a request"
  | .primArity count op => s!"wrong number of arguments ({count}) to {op}"
  | .localCall name => s!"local {name} is not a function"
  | .notFunction qualified => s!"{qualified} is not a function"
  | .arity count qualified expected =>
    s!"wrong number of arguments ({count}) to {qualified}, expected {expected}"
  | .needsName head => s!"{head} requires a name"
  | .badDefName head => s!"{head} name must be an unqualified symbol"
  | .notTop head => s!"{head} is only allowed at the top level"
  | .defShape => "def expects a name and one value"
  | .defnParams => "defn expects a parameter vector"
  | .paramsVector => "defn parameters must be a vector"
  | .badParam text => s!"parameter {text} must be an unqualified symbol"
  | .duplicateParam name => s!"duplicate parameter {name}"
  | .globalInit => "defglobal initial value must be an integer literal"
  | .globalShape => "defglobal expects a name and an optional integer"
  | .letVector => "let requires a binding vector"
  | .letPairs => "let bindings must be a vector of name/value pairs"
  | .letName => "let binding name must be an unqualified symbol"
  | .ifShape => "if expects a condition, a then branch and an optional else branch"
  | .setShape => "set! expects a target and a value"
  | .setTarget => "set! target must be a native data symbol"

/-- A fault of a form, with the line it is reported on. -/
structure Fault where
  line : Nat
  reason : Reason
  deriving DecidableEq, Repr

def Fault.message (e : Fault) : String := s!"line {e.line}: {e.reason.message}"

/-- Analysis changes the environment and can stop with a fault; the changes stay. -/
abbrev Run := ExceptT Fault (StateM Env)

/-- The local names in scope, the innermost first. -/
structure Scope where
  names : List String := []
  inFn : Bool := false
  deriving Repr, Inhabited

def Scope.has (s : Scope) (name : String) : Bool := s.names.contains name

def Scope.push (s : Scope) (name : String) : Scope := { s with names := name :: s.names }

/-- Whether a definition may stand here. -/
def Scope.atTop (s : Scope) (top : Bool) : Bool := top && !s.inFn && s.names.isEmpty

/-- Stops with a fault on a line. -/
def refuse {α : Type} (line : Nat) (reason : Reason) : Run α := throw ⟨line, reason⟩

/-- The var that a symbol stands for in a namespace. -/
def resolve (ns : String) (s : Symbol) (line : Nat) : Run Var := do
  let env ← get
  match (env.resolve? ns s.text).bind env.cell? with
  | some v => return v
  | none => refuse line (.unresolved s.text ns)

/-- Declares a var. -/
def declare (ns name : String) (kind : VarKind) (arity : Nat) : Run Unit :=
  modify fun env => (env.intern ns name kind arity).1

/-- A symbol as an expression. -/
def symbol (ns : String) (scope : Scope) (s : Symbol) (line : Nat) : Run Node := do
  if s.ns = "" && (s.name = "nil" || s.name = "false") then return .const 0
  else if s.ns = "" && s.name = "true" then return .const 1
  else if s.ns = "" && scope.has s.name then return .localVar s.name
  else if s.ns = nativeNs then return .foreignGet s.name
  else
    let v ← resolve ns s line
    if v.kind = .fn then refuse line (.functionValue v.qualified)
    else return .varRef v.ns v.name

/-- Several nodes as one: none is worth zero. -/
def body : List Node → Node
  | [] => .const 0
  | [n] => n
  | ns => .seq ns

/-- The parameters in a vector, all of them names and no two equal. -/
def params (line : Nat) (seen : List String) : List Form → Run (List String)
  | [] => return []
  | .sym s l :: rest => do
    if s.ns ≠ "" then refuse line (.badParam (Form.sym s l).render)
    else if seen.contains s.name then refuse line (.duplicateParam s.name)
    else return s.name :: (← params line (s.name :: seen) rest)
  | f :: _ => refuse line (.badParam f.render)

/-- The name that a definition gives. -/
def defName (line : Nat) (head : String) : List Form → Run String
  | [] => refuse line (.needsName head)
  | .sym s _ :: _ => if s.ns = "" then return s.name else refuse line (.badDefName head)
  | _ :: _ => refuse line (.badDefName head)

/-- A call of a function var or a foreign function, given its arguments. -/
def call (ns : String) (scope : Scope) (head : Symbol) (headLine line : Nat)
    (args : List Node) : Run Node := do
  if head.ns = nativeNs then return .foreignCall head.name args
  else if head.ns = "" && scope.has head.name then refuse line (.localCall head.name)
  else
    let v ← resolve ns head headLine
    if v.kind ≠ .fn then refuse headLine (.notFunction v.qualified)
    else if v.arity ≠ args.length then refuse line (.arity args.length v.qualified v.arity)
    else return .invoke v.ns v.name args

/-- The definition of a data symbol. -/
def defGlobal (line : Nat) (top : Bool) (args : List Form) : Run Node := do
  if !top then refuse line (.notTop "defglobal")
  let name ← defName line "defglobal" args
  match args with
  | [_] => return .defGlobal name 0
  | [_, .int v _] => return .defGlobal name v
  | [_, _] => refuse line .globalInit
  | _ => refuse line .globalShape

/-- Whether a count of arguments suits a primitive. -/
def arityFits (bounds : Nat × Option Nat) (count : Nat) : Bool :=
  bounds.1 ≤ count && (match bounds.2 with
    | some most => count ≤ most
    | none => true)

mutual

/-- A form as an expression. `top` says whether it stands at the top level. -/
def form (ns : String) (scope : Scope) (top : Bool) : Form → Run Node
  | .int v _ => return .const v
  | .sym s line => symbol ns scope s line
  | .keyword name line => refuse line (.keywordValue name)
  | .vector _ line => refuse line .vectorValue
  | .list [] _ => return .const 0
  | .list (.sym head headLine :: args) line => do
    -- a local name hides the special form or primitive of the same name
    if head.ns = "" && !scope.has head.name then
      match head.name, args with
      | "def", args =>
        if !scope.atTop top then refuse line (.notTop "def")
        let name ← defName line "def" args
        match args with
        | [_, value] =>
          -- the value cannot refer to the var it is for, unless that was there before
          let init ← form ns scope false value
          declare ns name .value 0
          return .bindVar ns name init
        | _ => refuse line .defShape
      | "defn", args =>
        if !scope.atTop top then refuse line (.notTop "defn")
        let name ← defName line "defn" args
        match args with
        | _ :: .vector items vecLine :: forms =>
          let ps ← params vecLine [] items
          -- declared before its body is analysed, so that it can call itself
          declare ns name .fn ps.length
          let nodes ← forms' ns { names := ps.reverse, inFn := true } false forms
          return .defn ns name ps (body nodes)
        | [_] => refuse line .defnParams
        | _ => refuse line .paramsVector
      | "defglobal", args => defGlobal line top args
      | "let", [] => refuse line .letVector
      | "let", .vector items vecLine :: forms =>
        if items.length % 2 = 1 then refuse line .letPairs
        let (bindings, inner) ← bindings ns scope vecLine items
        let nodes ← forms' ns inner false forms
        return .letIn bindings (body nodes)
      | "let", _ => refuse line .letPairs
      | "if", args =>
        if args.length ≠ 2 && args.length ≠ 3 then refuse line .ifShape
        match ← forms' ns scope false args with
        | [c, t] => return .ifElse c t (.const 0)
        | [c, t, e] => return .ifElse c t e
        | _ => refuse line .ifShape
      | "do", args => return .seq (← forms' ns scope top args)
      | "set!", [.sym target _, value] =>
        if target.ns ≠ nativeNs then refuse line .setTarget
        return .foreignSet target.name (← form ns scope false value)
      | "set!", [_, _] => refuse line .setTarget
      | "set!", _ => refuse line .setShape
      | "quote", _ => refuse line .quotedData
      | name, args =>
        if EnvForm.heads.contains name then refuse line (.envForm name)
        match primArity? name with
        | some bounds =>
          if !arityFits bounds args.length then refuse line (.primArity args.length name)
          return .prim name (← forms' ns scope false args)
        | none => call ns scope head headLine line (← forms' ns scope false args)
    else call ns scope head headLine line (← forms' ns scope false args)
  | .list (f :: _) line => refuse line (.cannotCall f.render)

/-- Several forms in order. -/
def forms' (ns : String) (scope : Scope) (top : Bool) : List Form → Run (List Node)
  | [] => return []
  | f :: rest => do
    let n ← form ns scope top f
    return n :: (← forms' ns scope top rest)

/-- Bindings in order, each in the scope of those before it, and the scope after them. -/
def bindings (ns : String) (scope : Scope) (line : Nat) :
    List Form → Run (List (String × Node) × Scope)
  | .sym s _ :: value :: rest => do
    if s.ns ≠ "" then refuse line .letName
    let v ← form ns scope false value
    let (more, inner) ← bindings ns (scope.push s.name) line rest
    return ((s.name, v) :: more, inner)
  | [] => return ([], scope)
  | _ => refuse line .letName

end

/-- Analyses a top-level form in a namespace. -/
def topLevel (ns : String) (f : Form) : Run Node := form ns {} true f

end Analysis

/-- Analyses a top-level form in a namespace; the environment it leaves comes first. -/
def Form.analyze (env : Env) (ns : String) (f : Form) : Env × Result Node :=
  let (r, env) := (Analysis.topLevel ns f).run.run env
  (env, r.mapError fun e => .semantic e.message)

end WasmLisp
