import WasmLisp.Binary.Info

/-!
Renaming the modules that a binary imports from. Names and descriptions of the imports and all
other sections are kept byte for byte.
-/

namespace WasmLisp.Binary

/-- An import whose description is kept as bytes. -/
structure RawImport where
  module : String
  name : String
  desc : List UInt8
  deriving DecidableEq, Repr, Inhabited

def RawImport.encode (i : RawImport) : List UInt8 :=
  encodeName i.module ++ encodeName i.name ++ i.desc

namespace Decode

/-- Runs a reader and returns the bytes that it went over. -/
def spanned {α : Type} (d : Decode α) : Decode (List UInt8) := fun c =>
  match d c with
  | .error e => .error e
  | .ok (_, c') => .ok (c.rest.take (c'.offset - c.offset), c')

def rawImport : Decode RawImport := do
  let module ← name
  let name ← name
  return { module, name, desc := ← spanned importDesc }

end Decode

/-- A binary under construction, whether a module name differs from before, and the imports met so
far as pairs of module and name, in reverse order. -/
structure Redirected where
  bytes : List UInt8
  changed : Bool := false
  visited : List (String × String) := []
  deriving DecidableEq, Repr, Inhabited

/-- Copies a section, an import section with new module names. -/
def Redirected.addSection (remap : String → String → String) (r : Redirected) (s : RawSection) :
    Except Fault Redirected :=
  if s.id ≠ 2 then .ok { r with bytes := r.bytes ++ s.raw } else
    match Decode.vec Decode.rawImport { rest := s.body } with
    | .error e => .error (.inImports e)
    | .ok (imports, _) =>
      let renamed := imports.map fun i => { i with module := remap i.module i.name }
      .ok
        { bytes := r.bytes ++ encodeSection 2 (encodeVec RawImport.encode renamed)
          changed := r.changed || imports.any fun i => remap i.module i.name != i.module
          visited := imports.reverse.map (fun i => (i.module, i.name)) ++ r.visited }

/-- The binary in which every import comes from `remap module name` instead of `module`. If no
module name changes it is the given binary itself. -/
def redirectImports (remap : String → String → String) (bin : List UInt8) :
    Except Fault Redirected := do
  let ((), c) ← checkHeader { rest := bin }
  let r ← foldSections (Redirected.addSection remap) { bytes := bin.take 8 } c.rest
  return { bytes := if r.changed then r.bytes else bin
           changed := r.changed
           visited := r.visited.reverse }

end WasmLisp.Binary
