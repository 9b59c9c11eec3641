import WasmLisp.Cbor.Decode

/-!
Effects: what a unit does to the environment beside its definitions. They are carried out when the
unit is compiled, and again after it has been loaded.
-/

namespace WasmLisp

/-- The kind of an effect, by its code. -/
structure EffectKind where
  code : UInt8
  deriving DecidableEq, Repr, Inhabited

namespace EffectKind

/-- The current namespace becomes another. -/
def switchNs : EffectKind := ⟨1⟩
/-- A namespace is made if there is none of the name. -/
def require : EffectKind := ⟨2⟩
/-- A namespace calls another by an alias. -/
def nickname : EffectKind := ⟨3⟩
/-- A namespace refers to a name of another. -/
def refer : EffectKind := ⟨4⟩

/-- How a kind is called in messages. -/
def name (k : EffectKind) : String :=
  match k.code.toNat with
  | 1 => "switch-ns"
  | 2 => "require"
  | 3 => "alias"
  | 4 => "refer"
  | _ => "unknown"

end EffectKind

/-- A change of the environment: to make `ns` the current namespace, to ensure that it exists, to
make `name` an alias of the namespace `target` inside it, or to make the var `target/name`
resolvable by its bare name inside it. -/
structure Effect where
  kind : EffectKind
  ns : String
  name : String := ""
  target : String := ""
  deriving DecidableEq, Repr, Inhabited

namespace Effect

def toCbor (e : Effect) : Cbor :=
  Cbor.record
    ([("ns", .text e.ns), ("kind", .int e.kind.code.toNat)]
      ++ Cbor.textUnlessEmpty "name" e.name ++ Cbor.textUnlessEmpty "target" e.target)

def ofCbor (c : Cbor) : Except Cbor.Fault Effect := do
  let r ← Cbor.asRecord ["ns", "name", "target", "kind"] c
  let code ← Cbor.field r "kind" (Cbor.asInt 0 255)
  return { kind := ⟨UInt8.ofNat code.toNat⟩
           ns := ← Cbor.field r "ns" Cbor.asText
           name := ← Cbor.field r "name" Cbor.asText
           target := ← Cbor.field r "target" Cbor.asText }

end Effect

end WasmLisp
