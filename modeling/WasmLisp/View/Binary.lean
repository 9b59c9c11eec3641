import WasmLisp.Binary.Info
import WasmLisp.View

/-!
Views of what is known of a binary.
-/

namespace WasmLisp.Binary

open View (field)

instance : View FuncType := ⟨fun t => view (t.params, t.results)⟩

/-- An import of a binary, with the signature of a function. -/
def Info.shownImport (info : Info) (i : Import) : JsonValue :=
  let (type, global) : Nat × GlobalType := match i.desc with
    | .func t => (t.toNat, {})
    | .global g => (0, g)
    | .other _ => (0, {})
  .object
    [field "module" i.module, field "name" i.name, field "kind" i.desc.kind, field "type" type,
     field "val" global.valType, field "mutable" global.mutable, field "sig" (info.importType? i)]

/-- The parts of a binary. -/
def Info.fields (info : Info) : View.Fields :=
  [field "types" info.types, field "imports" (info.imports.map info.shownImport),
   field "exports" (info.exports.map fun e => JsonValue.array [.text e.name, view e.kind, view e.index]),
   field "customs" (info.customs.map fun c => (c.name, c.data)),
   field "globals" (info.globals.map fun g => (g.valType, g.mutable)),
   field "exported_globals" info.exportedGlobals, field "exported_funcs" info.exportedFuncs]

end WasmLisp.Binary
