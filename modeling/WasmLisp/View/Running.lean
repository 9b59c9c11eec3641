import WasmLisp.Cache
import WasmLisp.Config
import WasmLisp.Engine
import WasmLisp.Service.Server
import WasmLisp.Service.Client
import WasmLisp.View.Code

/-!
Views of a running Lisp: its registry and modules, its counts, what its cache holds, its settings,
and the messages of its service.
-/

namespace WasmLisp

open View (Fields field textField listField)

instance : View Registry.Record := ⟨fun r =>
  let s := r.symbol
  .object
    [field "name" s.name, field "kind" s.kind.name, field "arity" s.arity, field "init" s.init,
     field "origin" r.origin, field "address" r.address.text, field "seq" r.seq]⟩

/-- What a foreign symbol is. -/
def Registry.Foreign.fields (s : Registry.Foreign) : Fields :=
  [field "kind" s.kind.name, field "arity" s.arity, field "doc" s.doc, field "init" s.init]

/-- The phase and the kind of a failure. -/
def Failure.label (e : Failure) : String :=
  match e.report? with
  | some (r, _) => r.phase.name ++ "." ++ r.kind.name
  | none => "error"

instance : View LoadRecord := ⟨fun r =>
  let error := match r.outcome with
    | .pending | .ok _ => none
    | .error e => some e.label
  .object
    [field "module" r.module, field "entry" r.entrySymbol, field "hash" r.hash,
     field "state" r.state.name, field "error" error]⟩

/-- The value that loading a module gave, and what it is linked to. -/
def EntryPoint.fields (p : EntryPoint) : Fields :=
  [field "value" p.result, field "module" p.module, field "symbol" p.symbol,
   ("bindings", .object (p.bindings.map fun (n, a) => field n a.text))]

instance : View Metrics := ⟨fun m => .object (m.counts.map fun (series, n) => field series n)⟩

instance : View Cache.TargetStats := ⟨fun t => view (t.target, t.entries)⟩

instance : View CacheEntry := ⟨fun e => .object
  ([field "hash" e.hash, field "target" e.target, field "entry" e.entrySymbol, field "unit" e.unit,
    field "created" e.createdAt.fixedText] ++ View.sized e.bytes)⟩

instance : View NamedTarget := ⟨fun t => .object
  [field "name" t.name, field "arch" t.arch, field "sysroot" t.sysroot, field "abi_flags" t.abiFlags,
   field "spec" t.spec, field "key" t.spec.key]⟩

/-- The settings. -/
def Config.fields (c : Config) : Fields :=
  let cache : Fields :=
    [field "dir" c.cacheDir, field "native" c.native, field "native_dir" c.nativeDir]
  [field "cache" cache, field "libraries" c.libraries, field "targets" c.targets,
   field "listen" c.listen, field "admin" c.admin, field "max_depth" c.maxDepth,
   field "preamble" c.preamble, field "level" c.level, field "format" c.format]

namespace Service

instance : View Request := ⟨fun r => .object
  [field "op" r.op, field "id" r.id, field "ns" r.ns, field "module" r.module,
   field "source" r.source, field "target" r.target]⟩

/-- The parts of a module that are not empty, its name under a name of its own. -/
def Module.fields (nameField : String) (m : Module) : Fields :=
  textField nameField m.name ++ textField "hash" m.hash ++ textField "entry_symbol" m.entrySymbol
    ++ if m.artifact.isEmpty then [] else View.sized m.artifact

/-- The parts of a response that are not empty. -/
def Response.fields (r : Response) : Fields :=
  [field "op" r.op, field "id" r.id] ++ textField "ns" r.ns ++ r.compiled.fields "module"
    ++ textField "phase" r.phase ++ textField "kind" r.kind ++ textField "symbol" r.symbol
    ++ textField "message" r.message ++ listField "modules" (r.modules.map (·.fields "name"))
    ++ listField "skipped" r.skipped

instance : View Connection := ⟨fun k => .object
  [field "ns" k.session.ns, field "state" k.stage.name, field "requests" k.requests,
   field "disconnected" k.disconnected]⟩

end Service

end WasmLisp
