import Mathlib
import WasmLisp.Machine.Store

/-!
# Instances of modules

What an instance refers to: its imports lead to what live instances export, and everything that
the module defines goes after what the store had.
-/

namespace WasmLisp.Machine

variable {η : Type}

theorem mapM_eq_some {α β : Type} {f : α → Option β} {xs : List α} {ys : List β}
    (h : xs.mapM f = some ys) : List.Forall₂ (fun x y => f x = some y) xs ys := by
  induction xs generalizing ys with
  | nil =>
    rw [List.mapM_nil] at h
    cases h
    exact .nil
  | cons x xs ih =>
    simp only [List.mapM_cons, bind, pure, Option.bind_eq_some_iff] at h
    obtain ⟨y, hy, zs, hzs, heq⟩ := h
    cases heq
    exact .cons hy (ih hzs)

namespace Store

variable {s s' : Store η} {m : Module} {i : Binary.Import} {e : Extern} {name : String}

/-- The code that a module adds to a store. -/
def callees (m : Module) (inst imported : Nat) : List (Callee η) :=
  (m.funcTypes.zip m.code).zipIdx.map fun ((t, locals, body), i) =>
    Callee.code inst (imported + i) ((m.types[t]?).getD { params := [], results := [] })
      locals.length body

/-- An instance that was added: the addresses of what it imports, and the functions and globals
that it has itself. -/
structure Added (s : Store η) (m : Module) (name : String) (linked : List Extern) (inst : Instance)
    (s' : Store η) : Prop where
  links : List.Forall₂ (fun i e => s.linkImport? m i = some e) m.imports linked
  name : inst.name = name
  live : inst.live = true
  instances : s'.instances = s.instances.push inst
  funcs : s'.funcs = s.funcs ++
    (callees m s.instances.size (linked.filterMap Extern.func?).length).toArray
  globals : s'.globals = s.globals ++ (m.globals.map fun g =>
    ({ type := g.type, value := s.initValue (linked.filterMap Extern.global?) g.init } : Cell)).toArray
  funcAddresses : inst.funcs.toList = linked.filterMap Extern.func? ++
    (List.range (m.funcTypes.zip m.code).length).map (s.funcs.size + ·)
  globalAddresses : inst.globals.toList = linked.filterMap Extern.global? ++
    (List.range m.globals.length).map (s.globals.size + ·)
  exports : inst.exports = m.exports.filterMap fun e =>
    if e.kind = Binary.kindFunc then
      (inst.funcs.toList[e.index.toNat]?).map fun a => (e.name, Extern.func a)
    else (inst.globals.toList[e.index.toNat]?).map fun a => (e.name, Extern.global a)

theorem added_of_instantiate? (h : s.instantiate? m name = some s') :
    ∃ linked inst, Added s m name linked inst s' := by
  simp only [instantiate?, bind, pure, Option.bind_eq_some_iff] at h
  obtain ⟨linked, hlinked, heq⟩ := h
  cases heq
  refine ⟨linked, _, mapM_eq_some hlinked, rfl, rfl, rfl, rfl, rfl, ?_, ?_, rfl⟩
  · simp
  · simp

end Store

end WasmLisp.Machine
