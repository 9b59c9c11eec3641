import WasmLisp.Cache.FileTree
import WasmLisp.Failure
import WasmLisp.Target
import WasmLisp.Text.Blank
import WasmLisp.Toml.Reader
import WasmLisp.Toml.Tables

/-!
The configuration: defaults, a TOML file over them, environment variables over that, and what makes
a configuration valid.
-/

namespace WasmLisp

/-- A target by a name of its own. -/
structure NamedTarget where
  name : String := ""
  arch : String := ""
  sysroot : String := ""
  abiFlags : List String := []
  deriving DecidableEq, Repr, Inhabited

/-- The target that the settings name. -/
def NamedTarget.spec (t : NamedTarget) : Target :=
  ({ arch := t.arch, sysroot := t.sysroot, abiFlags := t.abiFlags } : Target).normalize

/-- All settings. -/
structure Config where
  cacheDir : String
  /-- Whether machine code is kept below the directory of the cache. -/
  native : Bool := true
  libraries : List String := ["core"]
  targets : List NamedTarget := [{ name := "host", arch := "native" }]
  listen : String := ":5570"
  admin : String := ":5571"
  maxDepth : Int := 4096
  preamble : String := ""
  level : String := "info"
  format : String := "console"
  deriving DecidableEq, Repr, Inhabited

namespace Config

/-- Why there is no configuration. -/
inductive Fault where
  /-- The document is not well formed, or a value has the wrong type. -/
  | document
  | unknownKey (key : String)
  | missing (path : String)
  | invalid (detail : String)
  /-- A fault of the file at a path. -/
  | inFile (path : String) (fault : Fault)
  deriving DecidableEq, Repr, Inhabited

def Fault.message : Fault → String
  | .document => "malformed document"
  | .unknownKey key => "unknown key " ++ key
  | .missing path => s!"open {path}: no such file or directory"
  | .invalid detail => detail
  | .inFile path fault => s!"config {path}: {fault.message}"

/-- Whether the fault is one of the document itself. -/
def Fault.isDocument : Fault → Bool
  | .document => true
  | .inFile _ fault => fault.isDocument
  | _ => false

/-- Where machine code is kept; empty if it is not. -/
def nativeDir (c : Config) : String :=
  if !c.native || c.cacheDir = "" then "" else (Path.join [c.cacheDir, "native"]).text

/-- The target of a name. -/
def target? (c : Config) (name : String) : Option NamedTarget :=
  c.targets.find? (·.name == name)

/-! ## Validity -/

/-- Why a text is no network address. -/
def addressFault? (s : String) : Option String :=
  let cs := s.toList
  let afterLast := cs.reverse.takeWhile (· ≠ ':')
  -- the place of the last colon, if there is one
  let i := cs.length - afterLast.length - 1
  let fault (why : String) : Option String := some (s!"address {s}: " ++ why)
  let incomplete := "missing port in address"
  let stray (j k : Nat) : Option String :=
    if (cs.drop j).contains '[' then fault "unexpected '[' in address"
    else if (cs.drop k).contains ']' then fault "unexpected ']' in address"
    else none
  if !cs.contains ':' then fault incomplete
  else if cs.head? = some '[' then
    if !cs.contains ']' then fault "missing ']' in address"
    else
      let stop := (cs.takeWhile (· ≠ ']')).length
      if stop + 1 = cs.length then fault incomplete
      else if stop + 1 = i then stray 1 (stop + 1)
      else if cs[stop + 1]? = some ':' then fault "too many colons in address"
      else fault incomplete
  else if (cs.take i).contains ':' then fault "too many colons in address"
  else stray 0 0

/-- The name of the log level that a text names in either case. -/
def level? (s : String) : Option String :=
  match String.ofList (s.toList.map Char.toLower) with
  | "" => some "info"
  | "warning" => some "warn"
  | l => if ["debug", "info", "warn", "error", "dpanic", "panic", "fatal"].contains l then some l
    else none

/-- What is wrong with the targets, the first of which has a number. -/
def targetsFault? (i : Nat) (seen : List String) : List NamedTarget → Option String
  | [] => none
  | t :: rest =>
    if t.name = "" then some s!"targets[{i}]: name is required"
    else if seen.contains t.name then some s!"targets[{i}]: duplicate name {Text.quoted t.name}"
    else targetsFault? (i + 1) (t.name :: seen) rest

/-- What is wrong with an address, which may be left empty. -/
def listenFault? (name addr : String) : Option String :=
  if addr = "" then none else (addressFault? addr).map fun why => name ++ ": " ++ why

/-- The first thing that is wrong with a configuration. -/
def problem? (c : Config) : Option String :=
  if c.cacheDir = "" then some "cache.dir is required"
  else if c.maxDepth ≤ 0 then some s!"compiler.max_depth must be positive, got {c.maxDepth}"
  else if c.targets.isEmpty then some "at least one target is required"
  else
    let level := if (level? c.level).isSome then none
      else some s!"log.level: unrecognized level: {Text.quoted c.level}"
    let format := if c.format = "console" || c.format = "json" then none
      else some s!"log.format must be console or json, got {Text.quoted c.format}"
    (targetsFault? 0 [] c.targets).or <| (listenFault? "server.listen" c.listen).or <|
      (listenFault? "server.admin" c.admin).or <| level.or format

/-- A configuration that is valid. -/
def validate (c : Config) : Except Fault Config :=
  match c.problem? with
  | some detail => .error (.invalid detail)
  | none => .ok c

/-! ## Documents -/

open Toml (Value Entries Key)

/-- The settings that are still to be read from a document, and the keys that were of use. -/
structure Decoding where
  config : Config
  libraries : Option (List String) := none
  targets : Option (List NamedTarget) := none
  used : List String := []

def text? : Value → Option String
  | .text s => some s
  | _ => none

def texts? : Value → Option (List String)
  | .array vs => vs.mapM text?
  | .tables [] => some []
  | _ => none

/-- The field that a name means: the one spelt like it, or else alike but for case. -/
def fieldOf? (fields : List String) (name : String) : Option String :=
  let lower (s : String) := s.toList.map Char.toLower
  if fields.contains name then some name else fields.find? fun f => lower f == lower name

/-- Takes the entries of a table that mean fields. -/
def eachField {σ : Type} (fields : List String) (set : σ → String → String → Value → Option σ)
    (s : σ) : Entries → Option σ
  | [] => some s
  | (name, v) :: rest => do
    let s ← match fieldOf? fields name with
      | some field => set s field name v
      | none => some s
    eachField fields set s rest

/-- A target of a document, and the keys that were of use in it. -/
def setTarget (s : NamedTarget × List String) (field name : String) (v : Value) :
    Option (NamedTarget × List String) := do
  let (t, used) := s
  let used := name :: used
  match field with
  | "name" => return ({ t with name := ← text? v }, used)
  | "arch" => return ({ t with arch := ← text? v }, used)
  | "sysroot" => return ({ t with sysroot := ← text? v }, used)
  | _ => return ({ t with abiFlags := ← texts? v }, used)

/-- The targets of a document. -/
def targetsOf? (items : List Entries) : Option (List (NamedTarget × List String)) :=
  items.mapM (eachField ["name", "arch", "sysroot", "abi_flags"] setTarget ({}, []))

/-- The tables that a value is a list of. -/
def tables? : Value → Option (List Entries)
  | .tables items => some items
  | .array vs => vs.mapM fun
    | .table t => some t
    | _ => none
  | _ => none

/-- Takes a field of a section. -/
def setField (sec : String) (d : Decoding) (field name : String) (v : Value) :
    Option Decoding := do
  let c := d.config
  let d := { d with used := Toml.shown [sec, name] :: d.used }
  match field with
  | "dir" => return { d with config := { c with cacheDir := ← text? v } }
  | "native" =>
    match v with
    | .bool b => return { d with config := { c with native := b } }
    | _ => none
  | "libraries" => return { d with libraries := some (← texts? v) }
  | "listen" => return { d with config := { c with listen := ← text? v } }
  | "admin" => return { d with config := { c with admin := ← text? v } }
  | "max_depth" =>
    match v with
    | .int n => return { d with config := { c with maxDepth := n } }
    | _ => none
  | "preamble" => return { d with config := { c with preamble := ← text? v } }
  | "level" => return { d with config := { c with level := ← text? v } }
  | _ => return { d with config := { c with format := ← text? v } }

/-- The fields of a section. -/
def fieldsOf (sec : String) : List String :=
  match sec with
  | "cache" => ["dir", "native"]
  | "registry" => ["libraries"]
  | "server" => ["listen", "admin"]
  | "compiler" => ["max_depth", "preamble"]
  | _ => ["level", "format"]

/-- Takes a section, or the targets. -/
def setSection (d : Decoding) (field name : String) (v : Value) : Option Decoding := do
  let d := { d with used := Toml.shown [name] :: d.used }
  if field = "targets" then
    let ts ← targetsOf? (← tables? v)
    let used := ts.flatMap fun (_, names) => names.map fun n => Toml.shown [name, n]
    return { d with targets := some (ts.map (·.1)), used := used ++ d.used }
  else
    match v with
    | .table t => eachField (fieldsOf field) (setField name) d t
    | _ => none

def sections : List String := ["cache", "registry", "targets", "server", "compiler", "log"]

/-- Reads a document over settings. Lists of the document take the place of the defaults. -/
def decode (c : Config) (text : String) : Except Fault Config :=
  let doc := (Toml.read? text).bind (Toml.Doc.ofStatements {} [])
  match doc with
  | none => .error .document
  | some doc =>
    match eachField sections setSection { config := c } doc.root with
    | none => .error .document
    | some d =>
      -- of several keys that mean nothing the one written first is reported
      match doc.ordered.find? fun k => !d.used.contains (Toml.shown k) with
      | some k => .error (.unknownKey (Toml.shown k))
      | none =>
        .ok { d.config with
          libraries := d.libraries.getD c.libraries, targets := d.targets.getD c.targets }

/-- The configuration that a document is, the environment apart. -/
def parse (cacheDir text : String) : Except Fault Config := do
  (← decode { cacheDir } text).validate

/-! ## Environment variables -/

/-- The parts of a list with commas, without the blanks around them and without empty ones. -/
def splitList (s : String) : List String :=
  let trim (cs : List Char) := ((cs.dropWhile Text.isBlank).reverse.dropWhile Text.isBlank).reverse
  ((s.splitOn ",").map fun part => String.ofList (trim part.toList)).filter (· ≠ "")

/-- Settings that variables override. A variable that is empty does not count. -/
def applyEnv (c : Config) (vars : List (String × String)) : Config :=
  let get (name given : String) : String :=
    match vars.lookup name with
    | some v => if v = "" then given else v
    | none => given
  let libraries := get "JITLINK_LIBRARIES" ""
  { c with
    cacheDir := get "JITLINK_CACHE_DIR" c.cacheDir
    listen := get "JITLINK_LISTEN" c.listen
    admin := get "JITLINK_ADMIN" c.admin
    level := get "JITLINK_LOG_LEVEL" c.level
    libraries := if libraries = "" then c.libraries else splitList libraries }

/-- The configuration of a program: the defaults, or a file over them, then the environment. The
file is given with its path and its text, if there is one. -/
def load (cacheDir : String) (file : Option (String × Option String))
    (vars : List (String × String)) : Except Fault Config := do
  let c ← match file with
    | none => pure { cacheDir }
    | some (path, none) => throw (.inFile path (.missing path))
    | some (path, some text) => (decode { cacheDir } text).mapError (.inFile path)
  (c.applyEnv vars).validate

end Config

end WasmLisp
