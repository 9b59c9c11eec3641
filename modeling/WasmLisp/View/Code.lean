import WasmLisp.Artifact
import WasmLisp.CompUnit
import WasmLisp.Env
import WasmLisp.Form
import WasmLisp.View

/-!
Views of code in its stages: forms and nodes are arrays that begin with what they are, and effects,
targets, manifests, units and artifacts are shown by their parts.
-/

namespace WasmLisp

open View (Fields field)

mutual

/-- A form, with its line at the end. -/
def Form.shown : Form → JsonValue
  | .int v l => .array [.text "int", view v, view l]
  | .sym s l => .array [.text "sym", .text s.ns, .text s.name, view l]
  | .keyword n l => .array [.text "kw", .text n, view l]
  | .list xs l => .array [.text "list", .array (Form.shownAll xs), view l]
  | .vector xs l => .array [.text "vec", .array (Form.shownAll xs), view l]

def Form.shownAll : List Form → List JsonValue
  | [] => []
  | f :: rest => f.shown :: Form.shownAll rest

end

instance : View Form := ⟨Form.shown⟩

mutual

/-- A node, with its parts in order. -/
def Node.shown : Node → JsonValue
  | .absent => .null
  | .const v => .array [.text "const", view v]
  | .localVar n => .array [.text "local", .text n]
  | .varRef ns n => .array [.text "var", .text ns, .text n]
  | .bindVar ns n i => .array [.text "def", .text ns, .text n, i.shown]
  | .defn ns n ps b => .array [.text "defn", .text ns, .text n, view ps, b.shown]
  | .invoke ns n as => .array [.text "invoke", .text ns, .text n, .array (Node.shownAll as)]
  | .foreignCall n as => .array [.text "fcall", .text n, .array (Node.shownAll as)]
  | .foreignGet n => .array [.text "fget", .text n]
  | .foreignSet n v => .array [.text "fset", .text n, v.shown]
  | .defGlobal n v => .array [.text "defglobal", .text n, view v]
  | .prim op as => .array [.text "prim", .text op, .array (Node.shownAll as)]
  | .ifElse c t e => .array [.text "if", c.shown, t.shown, e.shown]
  | .letIn bs b => .array [.text "let", .array (Node.shownBindings bs), b.shown]
  | .seq fs => .array [.text "do", .array (Node.shownAll fs)]

def Node.shownAll : List Node → List JsonValue
  | [] => []
  | n :: rest => n.shown :: Node.shownAll rest

/-- Names with the nodes that they are bound to. -/
def Node.shownBindings : List (String × Node) → List JsonValue
  | [] => []
  | (name, n) :: rest => .array [.text name, n.shown] :: Node.shownBindings rest

end

instance : View Node := ⟨Node.shown⟩

instance : View Effect := ⟨fun e => view [e.kind.name, e.ns, e.name, e.target]⟩

instance : View Target := ⟨fun t =>
  .object [field "arch" t.arch, field "sysroot" t.sysroot, field "abi_flags" t.abiFlags]⟩

instance : View Manifest := ⟨fun m => .object
  [field "version" m.version, field "hash" m.hash, field "entry" m.entry, field "target" m.target,
   field "functions" m.functions, field "globals" m.globals, field "vars" m.vars,
   field "effects" m.effects, field "deps" m.deps]⟩

instance : View CompUnit := ⟨fun u => .object
  [field "name" u.name, field "ns" u.ns, field "target" u.target.describe, field "forms" u.forms,
   field "effects" u.effects, field "hash" u.hash]⟩

/-- Bytes by their number and their digest. -/
def View.sized (b : List UInt8) : Fields := [field "size" b.length, field "sum" (Digest.hex64 b)]

/-- An artifact by its bytes and names. -/
def Artifact.fields (a : Artifact) : Fields :=
  View.sized a.bytes ++ [field "hash" a.hash, field "entry" a.entrySymbol,
    field "from_cache" a.fromCache, field "target" a.target.key]

/-! ## Environments -/

instance : View VarKind := ⟨fun
  | .fn => .text "fn"
  | .value => .text "value"⟩

instance : View Var := ⟨fun v => .object
  [field "name" v.qualified, field "kind" v.kind, field "arity" v.arity, field "value" v.value]⟩

/-- A namespace of an environment, with its vars and aliases. -/
def Env.shownNamespace (e : Env) (name : String) (n : Namespace) : JsonValue :=
  let var (name : String) (v : Var) : JsonValue :=
    .array [.text name, view v.kind, view v.arity, view v.value]
  .object
    [field "ns" name, ("aliases", .object (n.aliases.map fun (a, t) => field a t)),
     ("vars", .array (n.vars.map fun (name, id) => ((e.cell? id).map (var name)).getD .null))]

instance : View Env := ⟨fun e => .array (e.namespaces.map fun (name, n) => e.shownNamespace name n)⟩

end WasmLisp
