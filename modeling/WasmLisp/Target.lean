import WasmLisp.Cbor.Decode
import WasmLisp.Digest

/-!
Targets: the architecture, system root and ABI that code is generated for.
-/

namespace WasmLisp

/-- What code is generated for. -/
structure Target where
  arch : String
  sysroot : String := ""
  abiFlags : List String := []
  deriving DecidableEq, Repr, Inhabited

/-- Drops every element that equals the one before it. -/
def dropRepeats : List String → List String
  | [] => []
  | [a] => [a]
  | a :: b :: rest => if a = b then dropRepeats (b :: rest) else a :: dropRepeats (b :: rest)

/-- Texts in ascending order. -/
def sortTexts (ss : List String) : List String := ss.mergeSort fun a b => !(b < a)

namespace Target

/-- The architecture that the program runs on. -/
def hostArch : String := "amd64"

/-- The target of the running program. -/
def host : Target := { arch := hostArch }

/-- The target with its architecture resolved and its flags sorted, each once. -/
def normalize (t : Target) : Target :=
  { arch := if t.arch = "" || t.arch = "native" then hostArch else t.arch
    sysroot := t.sysroot
    abiFlags := dropRepeats (sortTexts t.abiFlags) }

/-- Whether code for the target runs in this process as it is. -/
def isLocal (t : Target) : Bool := t.normalize == host

/-- The bytes whose digest tells cross targets of one architecture apart. -/
def keyBytes (t : Target) : List UInt8 :=
  t.sysroot.toUTF8.toList ++ t.abiFlags.flatMap fun f => 0 :: f.toUTF8.toList

/-- The name of the target's partition of the store. -/
def key (t : Target) : String :=
  let n := t.normalize
  if n.isLocal then "local-" ++ n.arch
  else "cross-" ++ n.arch ++ "-" ++
    Text.hexPadded 8 ((Digest.sum64 n.keyBytes).toNat % 0x100000000)

/-- Whether code for `t` answers a request for `want`. System root and flags matter only if the
request names some. -/
def serves (t want : Target) : Bool :=
  let n := t.normalize
  let w := want.normalize
  n.arch == w.arch && (w.sysroot == "" || w.sysroot == n.sysroot) &&
    (w.abiFlags.isEmpty || w.abiFlags == n.abiFlags)

/-- The target as messages show it. -/
def describe (t : Target) : String :=
  let n := t.normalize
  n.arch
    ++ (if n.sysroot = "" then "" else " sysroot=" ++ n.sysroot)
    ++ (if n.abiFlags.isEmpty then "" else " abi=" ++ ",".intercalate n.abiFlags)

/-- The target as a data item. -/
def toCbor (t : Target) : Cbor :=
  Cbor.record
    ([("arch", .text t.arch)] ++ Cbor.textUnlessEmpty "sysroot" t.sysroot
      ++ Cbor.arrayUnlessEmpty "abi_flags" (t.abiFlags.map .text))

/-- Reads a target back. -/
def ofCbor (c : Cbor) : Except Cbor.Fault Target := do
  let r ← Cbor.asRecord ["arch", "sysroot", "abi_flags"] c
  return { arch := ← Cbor.field r "arch" Cbor.asText
           sysroot := ← Cbor.field r "sysroot" Cbor.asText
           abiFlags := ← Cbor.field r "abi_flags" (Cbor.asList Cbor.asText) }

end Target

end WasmLisp
