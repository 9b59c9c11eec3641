import WasmLisp.Env

/-!
Environment forms: `ns`, `in-ns`, `require`, `alias` and `refer`. They are recognised by their
shape, and each stands for a list of effects.
-/

namespace WasmLisp

namespace EnvForm

/-- The heads of environment forms. -/
def heads : List String := ["ns", "in-ns", "require", "alias", "refer"]

/-- Whether a form is an environment form. -/
def recognizes (f : Form) : Bool :=
  match f.head? with
  | some s => s.ns == "" && heads.contains s.name
  | none => false

/-- What is wrong with an environment form. -/
inductive Fault where
  | inNsArgs
  | aliasArgs
  | requireArgs
  | referArgs
  | nsArgs
  | notName (text : String)
  | badClause (text : String)
  | referClause
  | badLibrary (text : String)
  | emptySpec
  | oddOptions (text : String)
  | notOption (text : String)
  | unknownOption (name : String)
  | badSpec (text : String)
  | referOptions
  | notReferOption
  | unknownReferOption (name : String)
  | notLoaded (ns : String)
  | notNames (text : String)
  deriving DecidableEq, Repr

def Fault.message : Fault → String
  | .inNsArgs => "in-ns expects a namespace"
  | .aliasArgs => "alias expects an alias and a namespace"
  | .requireArgs => "require expects at least one spec"
  | .referArgs => "refer expects a namespace"
  | .nsArgs => "ns expects a name"
  | .notName text => s!"expected a name, got {text}"
  | .badClause text => s!"bad ns clause {text}"
  | .referClause => "(:refer) expects a namespace"
  | .badLibrary text => s!"bad library name {text}"
  | .emptySpec => "empty library spec"
  | .oddOptions text => s!"library spec {text} has an option without a value"
  | .notOption text => s!"expected an option keyword, got {text}"
  | .unknownOption name => s!"unsupported library option :{name}"
  | .badSpec text => s!"bad library spec {text}"
  | .referOptions => "refer expects :only or :exclude with a vector"
  | .notReferOption => "expected :only or :exclude"
  | .unknownReferOption name => s!"unsupported refer option :{name}"
  | .notLoaded ns => s!"namespace {ns} is not loaded"
  | .notNames text => s!"expected a vector of names, got {text}"

/-- The name that a symbol without namespace writes, quoted or not. -/
def name (f : Form) : Except Fault String :=
  match f.unquote with
  | .sym s _ => if s.ns = "" then .ok s.name else .error (.notName f.render)
  | _ => .error (.notName f.render)

/-- The names in a vector, quoted or not. -/
def names (f : Form) : Except Fault (List String) :=
  match f.unquote with
  | .vector items _ => items.mapM name
  | _ => .error (.notNames f.render)

/-- Refers to names of a namespace. -/
def referring (current target : String) (names : List String) : List Effect :=
  names.map fun name => { kind := .refer, ns := current, name, target }

/-- Refers to all vars of a namespace but some. -/
def referAll (env : Env) (current target : String) (skip : List String) :
    Except Fault (List Effect) :=
  match env.find? target with
  | none => .error (.notLoaded target)
  | some n => .ok (referring current target (n.vars.keys.filter (!skip.contains ·)))

/-- Refers to the names in a vector, or to all vars for `:all`. -/
def referNames (env : Env) (current target : String) (f : Form) : Except Fault (List Effect) := do
  match f.unquote with
  | .keyword "all" _ => referAll env current target []
  | _ => return referring current target (← names f)

/-- What follows the namespace of a refer: nothing, or `:only` or `:exclude` with names. -/
def refer (env : Env) (current target : String) : List Form → Except Fault (List Effect)
  | [] => referAll env current target []
  | [.keyword "only" _, f] => referNames env current target f
  | [.keyword "exclude" _, f] => do referAll env current target (← names f)
  | [.keyword option _, _] => .error (.unknownReferOption option)
  | [_, _] => .error .notReferOption
  | _ => .error .referOptions

/-- The options of a library: `:as` with an alias and `:refer` with names. -/
def options (env : Env) (current lib : String) : List Form → Except Fault (List Effect)
  | .keyword "as" _ :: value :: rest => do
    let nickname ← name value
    return { kind := .nickname, ns := current, name := nickname, target := lib }
      :: (← options env current lib rest)
  | .keyword "refer" _ :: value :: rest => do
    let effects ← referNames env current lib value
    return effects ++ (← options env current lib rest)
  | .keyword option _ :: _ => .error (.unknownOption option)
  | f :: _ => .error (.notOption f.render)
  | [] => .ok []

/-- A library: its name, or a vector of its name and options. -/
def library (env : Env) (current : String) : Form → Except Fault (List Effect)
  | .sym s _ =>
    if s.ns = "" then .ok [{ kind := .require, ns := s.name }] else .error (.badLibrary s.text)
  | .vector [] _ => .error .emptySpec
  | .vector (first :: opts) line => do
    let lib ← name first
    if opts.length % 2 = 1 then .error (.oddOptions (Form.vector (first :: opts) line).render)
    else return { kind := .require, ns := lib } :: (← options env current lib opts)
  | f => .error (.badSpec f.render)

/-- Several libraries in order. -/
def libraries (env : Env) (current : String) (specs : List Form) : Except Fault (List Effect) :=
  List.flatten <$> specs.mapM (library env current)

/-- A clause of `ns`. Those with another keyword than `:require` and `:refer` do nothing. -/
def clause (env : Env) (current : String) (f : Form) : Except Fault (List Effect) :=
  match f with
  | .list (.keyword "require" _ :: specs) _ => libraries env current specs
  | .list [.keyword "refer" _] _ => .error .referClause
  | .list (.keyword "refer" _ :: target :: opts) _ => do
    refer env current (← name target) opts
  | .list (.keyword _ _ :: _) _ => .ok []
  | _ => .error (.badClause f.render)

/-- The effects of the environment form with this head and these arguments, in a namespace. -/
def effectsOf (env : Env) (current head : String) (args : List Form) :
    Except Fault (List Effect) :=
  match head, args with
  | "ns", [] => .error .nsArgs
  | "ns", first :: clauses => do
    let ns ← name first
    let effects ← clauses.mapM (clause env ns)
    return { kind := .switchNs, ns } :: effects.flatten
  | "in-ns", [f] => do return [{ kind := .switchNs, ns := ← name f }]
  | "in-ns", _ => .error .inNsArgs
  | "alias", [a, b] => do
    let nickname ← name a
    let target ← name b
    return [{ kind := .nickname, ns := current, name := nickname, target }]
  | "alias", _ => .error .aliasArgs
  | "require", [] => .error .requireArgs
  | "require", specs => libraries env current (specs.map Form.unquote)
  | "refer", [] => .error .referArgs
  | _, first :: opts => do refer env current (← name first) opts
  | _, [] => .error .referArgs

/-- A failure of an environment form on a line. -/
def failure (line : Nat) (detail : String) (cause : Option Failure := none) : Failure :=
  .report { phase := .sync, kind := .semantic, detail := s!"line {line}" ++ detail } cause

/-- The effects of an environment form, none of which is carried out. -/
def effects (frame : Frame) (f : Form) : Result (List Effect) :=
  match f with
  | .list (.sym s _ :: args) line =>
    if recognizes f then
      (effectsOf frame.env frame.ns s.name args).mapError fun e => failure line (": " ++ e.message)
    else .error (notEnvForm f)
  | f => .error (notEnvForm f)
where
  notEnvForm (f : Form) : Failure :=
    .invalidInput .sync s!"line {f.line}: {f.render} is not an environment form"

/-- Carries out an environment form and returns its effects. If one is refused, those before it
stay done. -/
def replay (frame : Frame) (f : Form) : Frame × Result (List Effect) :=
  match effects frame f with
  | .error e => (frame, .error e)
  | .ok es =>
    match frame.apply es with
    | (frame, none) => (frame, .ok es)
    | (frame, some fault) => (frame, .error (failure f.line "" (some (.plain fault.message))))

end EnvForm

end WasmLisp
