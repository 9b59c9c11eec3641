import Mathlib
import WasmLisp.Proofs.Codegen.Placed

/-!
# Instances of generated modules

* `outside`: what is outside of a unit that is linked to a store;
* `Hosted`: what the indices of an instance of a program's module lead to;
* `hosted_of_instantiate?`: every instance is so.
-/

namespace WasmLisp.Codegen

open Machine (Instr Store Extern Callee HostCall Trap)
open Artifact (envModule varModule varDefModule)
open Binary (i64 FuncType)

variable {η σ : Type} {p : Program} {u : CompUnit} {fns : List Defn} {depth : Nat}
  {new : List Reached} {s s' : Store η} {inst : Machine.Instance}

/-! ## What is outside -/

/-- The address of a data symbol: those of the unit come after all that the store had. -/
def symbolAddress (s : Store η) (u : CompUnit) (name : String) : Nat :=
  match (u.nodes.filterMap dataSymbol?).findIdx? (·.1 == name) with
  | some i => s.globals.size + i
  | none =>
    match s.export? envModule name with
    | some (.global a) => a
    | _ => 0

/-- Calls the function that a live instance of the store exports. -/
def foreign (host : HostCall η σ) (s : Store η) (module name : String) (fuel : Nat)
    (args : List Int64) (state : Store η × σ) :
    Option ((Store η × σ) × Except Trap (List Int64)) :=
  match s.export? module name with
  | some (.func a) => (Machine.invokeWithin host none fuel state.1 state.2 a args).answer
  | _ => some (state, .error .stuck)

/-- What is outside of a unit that is linked to a store: what its live instances export, and the
globals. The state is that of the machine. -/
def outside (host : HostCall η σ) (s : Store η) (u : CompUnit) : Outside (Store η × σ) where
  call fuel name args state :=
    (foreign host s envModule name fuel args state).map fun r =>
      (r.1, r.2.map fun values => values.headD 0)
  readVar fuel name state :=
    (foreign host s varModule name fuel [] state).map fun r =>
      (r.1, r.2.map fun values => values.headD 0)
  bindVar fuel name v state :=
    (foreign host s varDefModule name fuel [v] state).map fun r => (r.1, r.2.map fun _ => ())
  get name state := state.1.globalValue (symbolAddress s u name)
  set name v state := (state.1.setGlobal (symbolAddress s u name) v, state.2)

/-! ## Instances -/

/-- What the indices of an instance of a program's module lead to in the store that it was added
to. -/
structure Hosted (p : Program) (u : CompUnit) (s s' : Store η) (inst : Machine.Instance) :
    Prop where
  added : s'.instances[s.instances.size]? = some inst
  imports : ∀ module name params results, .func module name params results ∈ p.layout.imports →
    ∃ a callee, s.export? module name = some (.func a) ∧
      inst.funcs[p.layout.importIndex module name]? = some a ∧ a < s.funcs.size ∧
      s'.funcs[a]? = some callee ∧ callee.type = .ofCounts params results
  funcs : ∀ i code, p.codes[i]? = some code →
    inst.funcs[p.layout.funcImports.length + i]? = some (s.funcs.size + i) ∧
      ∃ k, s'.funcs[s.funcs.size + i]? = some (.code s.instances.size k
        (.ofCounts code.params 1) code.locals code.body)
  globals : ∀ name, name ∈ p.layout.globals.map (·.1) ∨ .global name ∈ p.layout.imports →
    inst.globals[p.layout.globalIndex name]? = some (symbolAddress s u name) ∧
      symbolAddress s u name < s'.globals.size
  first : ∀ name init, .defGlobal name init ∈ u.nodes →
    s'.globalValue (symbolAddress s u name) = init
  entry : (p.entryName, .func (s.funcs.size + p.functions.length)) ∈ inst.exports

/-- The indices of every instance of a program's module lead to what they should. -/
theorem hosted_of_instantiate? {name : String} (h : p.Built u fns depth new)
    (hsize : p.toModule.encode.length < 0x100000000)
    (hs : s.instantiate? p.machine name = some s') : ∃ inst, Hosted p u s s' inst := by
  have hsame : p.machine.redirect (fun module _ => module) = p.machine := by
    rw [Machine.Module.redirect]
    rw [show Binary.Import.redirect (fun module _ => module) = id from rfl, List.map_id]
  obtain ⟨inst, hp⟩ := placed_of_instantiate? h hsize (hsame.symm ▸ hs)
  obtain ⟨linked, inst', ha⟩ := Store.added_of_instantiate? hs
  refine ⟨inst, ?_, ?_, ?_, ?_, ?_, ?_⟩
  · rw [hp.instances]
    exact Array.getElem?_push_size
  · intro module name params results hin
    obtain ⟨a, callee, hexp, hindex, hcallee, htype⟩ := hp.imports module name params results hin
    have hlt : a < s.funcs.size := (Array.getElem?_eq_some_iff.1 hcallee).1
    refine ⟨a, callee, hexp, hindex, hlt, ?_, htype⟩
    rw [ha.funcs, Array.getElem?_append_left hlt, hcallee]
  · exact hp.funcs
  · intro name hin
    have hsz : s'.globals.size = s.globals.size + p.layout.globals.length := by
      rw [ha.globals]
      simp [Program.machine, Machine.Module.ofBinary, Program.toModule]
    unfold symbolAddress Layout.globalIndex
    rw [← h.layout.globals]
    cases hk : p.layout.globals.findIdx? (·.1 == name) with
    | some k =>
      have hlt : k < p.layout.globals.length := (List.findIdx?_eq_some_iff_getElem.1 hk).1
      refine ⟨(hp.globals k _ (List.getElem?_eq_getElem hlt)).1, by simp only; omega⟩
    | none =>
      have hout : name ∉ p.layout.globals.map (·.1) := by
        intro hmem
        obtain ⟨g, hg, rfl⟩ := List.mem_map.1 hmem
        simpa using List.findIdx?_eq_none_iff.1 hk g hg
      obtain ⟨a, hexp, hlt, hindex⟩ := hp.globalImports name (hin.resolve_left hout)
      simp only [hexp]
      exact ⟨hindex, by omega⟩
  · intro name init hin
    have hmem : (name, init) ∈ p.layout.globals := by
      rw [h.layout.globals]
      exact List.mem_filterMap.2 ⟨_, hin, rfl⟩
    obtain ⟨k, hk, hkeq⟩ := List.getElem_of_mem hmem
    have hfind : p.layout.globals.findIdx? (·.1 == name) = some k := by
      refine List.findIdx?_eq_some_iff_getElem.2 ⟨hk, by simp [hkeq], fun j hj heq => ?_⟩
      -- no two data symbols have the same name
      have hname : (p.layout.globals.map (·.1))[j]? = (p.layout.globals.map (·.1))[k]? := by
        rw [List.getElem?_map, List.getElem?_map, List.getElem?_eq_getElem (by omega),
          List.getElem?_eq_getElem hk, hkeq]
        simpa using heq
      have hjk : j = k :=
        (List.getElem?_inj (by rw [List.length_map]; omega) h.layout.distinct.globals).1 hname
      omega
    unfold symbolAddress Store.globalValue
    rw [← h.layout.globals, hfind]
    simp only [(hp.globals k (name, init) (hkeq ▸ List.getElem?_eq_getElem hk)).2]
  · rw [hp.exports]
    exact List.mem_filterMap.2 ⟨_, Program.mem_exports.2 (.inr (.inr rfl)),
      hp.exported?_entry h hsize⟩

end WasmLisp.Codegen
