import WasmLisp.Compiler
import WasmLisp.DefTracker
import WasmLisp.EnvForm

/-!
Sessions: the compile side of a sequence of requests. A session keeps the environment that sources
are analysed in. A request that fails leaves the environment and the namespace as they were.
-/

namespace WasmLisp

/-- The compile side of a sequence of requests for one target. -/
structure Session where
  frame : Frame
  tracker : DefTracker := {}
  target : Target
  /-- How many times definitions were required, which numbers their modules. -/
  requires : Nat := 0
  deriving Inhabited

/-- An artifact and the name of its module. -/
structure Compiled where
  artifact : Artifact
  module : String
  deriving Inhabited

/-- What requiring definitions gives: the modules compiled, and the names left out as current. -/
structure Required where
  modules : List Compiled := []
  skipped : List String := []
  deriving Inhabited

namespace Session

/-- A new session. With a preamble its functions are declared. -/
def new (preamble : Option Preamble) (target : Target) : Result Session := do
  let env ← match preamble with
    | some p => p.declare .initial
    | none => .ok .initial
  return { frame := .enter env Env.defaultNs, target := target.normalize }

/-- The current namespace. -/
def ns (s : Session) : String := s.frame.ns

/-- Goes to another namespace, unless none is named. -/
def switchTo (s : Session) (ns : String) : Session :=
  if ns = "" || ns = s.ns then s else { s with frame := .enter s.frame.env ns }

/-- What one form contributes to a unit: effects of an environment form, or a node. -/
def takeForm (frame : Frame) (f : Form) : Frame × Result (List Effect × Option Node) :=
  if EnvForm.recognizes f then
    let (frame, r) := EnvForm.replay frame f
    (frame, r.map fun es => (es, none))
  else
    let (env, r) := f.analyze frame.env frame.ns
    ({ frame with env }, r.map fun n => ([], some n))

/-- Adds what forms contribute to a unit. -/
def extend (frame : Frame) (u : CompUnit) : List Form → Frame × Result CompUnit
  | [] => (frame, .ok u)
  | f :: rest =>
    match takeForm frame f with
    | (frame, .error e) => (frame, .error e)
    | (frame, .ok (es, node)) =>
      extend frame { u with effects := u.effects ++ es, forms := u.forms ++ node.toList } rest

/-- The declarations and the namespace of a frame as they were in an earlier one; the vars keep
their cells. -/
def rollBack (before after : Frame) : Frame :=
  .enter (after.env.restore before.env.snapshot) before.ns

/-- Keeps the frame of work that succeeded, and takes back that of work that failed. -/
def settle {α : Type} (s : Session) (after : Frame) (r : Result α) : Session :=
  match r with
  | .ok _ => { s with frame := after }
  | .error _ => { s with frame := rollBack s.frame after }

/-- The unit that a source is. -/
def unit (s : Session) (module src : String) : Session × Result CompUnit :=
  match Form.readAll src with
  | .error e => (s, .error e)
  | .ok forms =>
    let (frame, r) := extend s.frame { name := module, ns := s.ns, target := s.target } forms
    (s.settle frame r, r)

/-- Compiles a source as one unit. -/
def compile (s : Session) (c : Compiler) (module src : String) :
    Session × Compiler × Result Compiled :=
  match Form.readAll src with
  | .error e => (s, c, .error e)
  | .ok forms =>
    match extend s.frame { name := module, ns := s.ns, target := s.target } forms with
    | (frame, .error e) => (s.settle frame (.error e : Result Compiled), c, .error e)
    | (frame, .ok u) =>
      let (c, r) := c.compile u
      let r := r.map fun artifact => ({ artifact, module } : Compiled)
      (s.settle frame r, c, r)

/-- The qualified name that a node defines at the top. -/
def definedName? : Node → Option String
  | .bindVar ns name _ => some (Symbol.qualify ns name)
  | .defn ns name _ _ => some (Symbol.qualify ns name)
  | _ => none

/-- The definition in what a form contributes: its name and digest. -/
def definition? (node : Option Node) : Option (String × String) := do
  let n ← node
  let name ← definedName? n
  return (name, n.hash)

/-- The state of requiring definitions form by form. -/
structure Progress where
  frame : Frame
  compiler : Compiler
  done : Required := {}
  /-- Digests of the definitions compiled, to be recorded if all goes well. -/
  fresh : Table String := []

/-- Compiles one form as a unit of its own, unless it is a definition that is current. -/
def requireForm (s : Session) (p : Progress) (name : String) (f : Form) :
    Progress × Option Failure :=
  let ns := p.frame.ns
  match takeForm p.frame f with
  | (frame, .error e) => ({ p with frame }, some e)
  | (frame, .ok (effects, node)) =>
    let u : CompUnit := { name, ns, target := s.target, effects, forms := node.toList }
    let built (p : Progress) : Progress × Option Failure :=
      let (compiler, r) := p.compiler.compile u
      match r with
      | .error e => ({ p with compiler }, some e)
      | .ok artifact =>
        let modules := p.done.modules ++ [{ artifact, module := name }]
        ({ p with compiler, done := { p.done with modules } }, none)
    match definition? node with
    | none => built { p with frame }
    | some (q, hash) =>
      -- only what was current before the request is left out, not what the request itself compiled
      if s.tracker.changed q hash then built { p with frame, fresh := p.fresh.insert q hash }
      else ({ p with frame, done := { p.done with skipped := p.done.skipped ++ [q] } }, none)

/-- Compiles forms one by one up to the first that fails. Modules are numbered from `i` on. -/
def requireForms (s : Session) (stem : String) (i : Nat) (p : Progress) :
    List Form → Progress × Option Failure
  | [] => (p, none)
  | f :: rest =>
    match s.requireForm p s!"{stem}.{i}" f with
    | (p, some e) => (p, some e)
    | (p, none) => s.requireForms stem (i + 1) p rest

/-- Compiles each form of a source as a module of its own. Definitions that are current are left
out, and those compiled are recorded as current once all forms are compiled. -/
def require (s : Session) (c : Compiler) (modulePrefix src : String) :
    Session × Compiler × Result Required :=
  if modulePrefix = "" then
    (s, c, .error (.invalidInput .compile "module prefix is empty"))
  else match Form.readAll src with
    | .error e => (s, c, .error e)
    | .ok forms =>
      -- the number is used up even if the request fails
      let s := { s with requires := s.requires + 1 }
      let start : Progress := { frame := s.frame, compiler := c }
      match s.requireForms s!"{modulePrefix}${s.requires}" 1 start forms with
      | (p, some e) => ({ s with frame := rollBack s.frame p.frame }, p.compiler, .error e)
      | (p, none) =>
        let tracker := p.fresh.foldl (fun t (q, hash) => t.record q hash) s.tracker
        ({ s with frame := p.frame, tracker }, p.compiler, .ok p.done)

end Session

end WasmLisp
