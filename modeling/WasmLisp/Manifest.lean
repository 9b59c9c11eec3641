import WasmLisp.Effect

/-!
Manifests: what an artifact says about itself in a section of its binary, so that a loader that has
only the bytes knows the entry function, the definitions and the effects.
-/

namespace WasmLisp

/-- The self-description of an artifact. -/
structure Manifest where
  version : Int := 0
  hash : String := ""
  entry : String := ""
  target : String := ""
  /-- The functions that it defines and how many arguments they take. -/
  functions : List (String × Int) := []
  /-- The data symbols that it defines and their first values. -/
  globals : List (String × Int64) := []
  /-- The vars that it reads or binds. -/
  vars : List String := []
  effects : List Effect := []
  deps : List String := []
  deriving DecidableEq, Repr, Inhabited

namespace Manifest

/-- The name of the section that holds a manifest. -/
def sectionName : String := "jitlink.manifest"

/-- The version of the layout. -/
def currentVersion : Int := 1

def toCbor (m : Manifest) : Cbor :=
  let functions := m.functions.map fun (name, arity) =>
    Cbor.record [("name", .text name), ("arity", .int arity)]
  let globals := m.globals.map fun (name, init) =>
    Cbor.record [("name", .text name), ("init", .int init.toInt)]
  Cbor.record
    ([("hash", .text m.hash), ("entry", .text m.entry), ("target", .text m.target),
      ("version", .int m.version)]
      ++ Cbor.arrayUnlessEmpty "functions" functions
      ++ Cbor.arrayUnlessEmpty "globals" globals
      ++ Cbor.arrayUnlessEmpty "vars" (m.vars.map .text)
      ++ Cbor.arrayUnlessEmpty "effects" (m.effects.map Effect.toCbor)
      ++ Cbor.arrayUnlessEmpty "deps" (m.deps.map .text))

/-- The contents of the section. -/
def encode (m : Manifest) : List UInt8 := m.toCbor.encode

/-- The limits that manifests are decoded with. -/
def limits : Cbor.Limits := { arrayItems := 65536, mapEntries := 65536 }

def ofCbor (c : Cbor) : Except Cbor.Fault Manifest := do
  let int64 := Cbor.asInt (-0x8000000000000000) 0x7fffffffffffffff
  let function (c : Cbor) : Except Cbor.Fault (String × Int) := do
    let r ← Cbor.asRecord ["name", "arity"] c
    return (← Cbor.field r "name" Cbor.asText, ← Cbor.field r "arity" int64)
  let global (c : Cbor) : Except Cbor.Fault (String × Int64) := do
    let r ← Cbor.asRecord ["name", "init"] c
    return (← Cbor.field r "name" Cbor.asText, ← Cbor.field r "init" Cbor.asInt64)
  let r ← Cbor.asRecord
    ["hash", "entry", "target", "functions", "globals", "vars", "effects", "deps", "version"] c
  return { version := ← Cbor.field r "version" int64
           hash := ← Cbor.field r "hash" Cbor.asText
           entry := ← Cbor.field r "entry" Cbor.asText
           target := ← Cbor.field r "target" Cbor.asText
           functions := ← Cbor.field r "functions" (Cbor.asList function)
           globals := ← Cbor.field r "globals" (Cbor.asList global)
           vars := ← Cbor.field r "vars" (Cbor.asList Cbor.asText)
           effects := ← Cbor.field r "effects" (Cbor.asList Effect.ofCbor)
           deps := ← Cbor.field r "deps" (Cbor.asList Cbor.asText) }

/-- Why a section's contents are no manifest. -/
inductive Fault where
  | undecodable
  | wrongVersion (version : Int)
  deriving DecidableEq, Repr

def Fault.message : Fault → String
  | .undecodable => "decode manifest"
  | .wrongVersion version => s!"manifest version {version}, want {currentVersion}"

/-- Reads the contents of the section. -/
def decode (data : List UInt8) : Except Fault Manifest :=
  match Cbor.decode limits data >>= ofCbor with
  | .error _ => .error .undecodable
  | .ok m => if m.version = currentVersion then .ok m else .error (.wrongVersion m.version)

/-- The number of arguments of a function that the artifact defines. -/
def arity? (m : Manifest) (name : String) : Option Int := m.functions.lookup name

end Manifest

end WasmLisp
