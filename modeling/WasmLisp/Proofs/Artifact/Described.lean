import Mathlib
import WasmLisp.Proofs.Artifact.Opened
import WasmLisp.Proofs.Codegen.Valid

/-!
# Manifests describe their binaries

A loader that has only a binary learns from the manifest inside what the binary exports and imports.
Generation makes the two apart: the manifest lists names in the order of the layout, whereas exports
and imports lead to functions, globals and signatures by index.

* `Module.functionExports`, `Module.ownGlobals`: what a decoded binary exports, with the indices
  followed;
* `Program.Built.functionExports_machine`, `Program.ownGlobals_machine`: the same in the words of
  the layout;
* `Manifest.Describes`: a manifest lists exactly what a decoded binary exports and imports;
* `Artifact.described`: the manifest of a generated module is read back from its binary, and it
  describes that binary.
-/

namespace WasmLisp

namespace Machine.Module

/-- The functions that a module exports, each with its signature. -/
def functionExports (m : Module) : List (String × Option Binary.FuncType) :=
  m.exports.filterMap fun e =>
    if e.kind = Binary.kindFunc then some (e.name, m.signatures?.bind (·[e.index.toNat]?))
    else none

/-- The globals that a module both defines and exports, each with its definition. The lower indices
are those of imported globals, which the module may export again. -/
def ownGlobals (m : Module) : List (String × Option GlobalDef) :=
  let imported := m.importedGlobals.length
  m.exports.filterMap fun e =>
    if e.kind = Binary.kindGlobal ∧ imported ≤ e.index.toNat then
      some (e.name, m.globals[e.index.toNat - imported]?)
    else none

/-- A linker sees the exported functions of a module by their names. -/
theorem exportedFuncs_eq {m : Module} {info : Binary.Info} (hexports : info.exports = m.exports) :
    info.exportedFuncs = m.functionExports.map (·.1) := by
  rw [Binary.Info.exportedFuncs, functionExports, hexports, List.map_filterMap,
    ← List.filterMap_eq_map, List.filterMap_filter]
  refine List.filterMap_congr fun e _ => ?_
  by_cases hkind : e.kind = Binary.kindFunc <;> simp [hkind]

/-- The imports of globals are those that a linker counts, if nothing but functions and globals is
imported. -/
theorem countP_isGlobal {m : Module} (hplain : ∀ i ∈ m.imports, ∀ kind, i.desc ≠ .other kind) :
    m.imports.countP (·.isGlobal) = m.importedGlobals.length := by
  rw [importedGlobals]
  generalize m.imports = is at hplain
  induction is with
  | nil => rfl
  | cons i is ih =>
    obtain ⟨hi, his⟩ := List.forall_mem_cons.1 hplain
    rw [List.countP_cons, List.filterMap_cons, ih his]
    cases hdesc : i.desc with
    | func typeIdx =>
      simp [Binary.Import.isGlobal, hdesc, Binary.ImportDesc.kind, Binary.ImportDesc.global?,
        Binary.kindFunc, Binary.kindGlobal]
    | global type =>
      simp [Binary.Import.isGlobal, hdesc, Binary.ImportDesc.kind, Binary.ImportDesc.global?]
    | other kind => exact absurd hdesc (hi kind)

/-- A linker sees the globals that a module both defines and exports by their names, if nothing but
functions and globals is imported. -/
theorem exportedGlobals_eq {m : Module} {info : Binary.Info} (hexports : info.exports = m.exports)
    (himports : info.imports = m.imports)
    (hplain : ∀ i ∈ m.imports, ∀ kind, i.desc ≠ .other kind) :
    info.exportedGlobals = m.ownGlobals.map (·.1) := by
  rw [Binary.Info.exportedGlobals, ownGlobals, hexports, himports, countP_isGlobal hplain,
    List.map_filterMap, ← List.filterMap_eq_map, List.filterMap_filter]
  refine List.filterMap_congr fun e _ => ?_
  by_cases h : e.kind = Binary.kindGlobal ∧ m.importedGlobals.length ≤ e.index.toNat <;> simp [h]

end Machine.Module

namespace Codegen

open Artifact (envModule varModule varDefModule)
open Binary (FuncType)

/-! ## What the exports of a program lead to -/

namespace Program

variable {p : Program} {u : CompUnit} {fns : List Defn} {depth : Nat} {new : List Reached}

/-- The functions of the unit itself, from as many integers as they have parameters to one. -/
def ownFunctions (p : Program) : List (String × Option FuncType) :=
  (p.layout.funcs.filter (·.exported)).map fun f =>
    (f.defn.qualified, some (.ofCounts f.defn.params.length 1))

/-- The exported functions of a program are those of the unit and the entry. -/
theorem Built.functionExports_machine (h : p.Built u fns depth new)
    (hsize : p.toModule.encode.length < 0x100000000) :
    p.machine.functionExports = p.ownFunctions ++ [(u.entrySymbol, some (.ofCounts 0 1))] := by
  have hcounts := counts_le (length_types_le hsize)
  have hlen := h.length_signatures
  have hexports : p.machine.exports = p.exports := rfl
  simp only [Machine.Module.functionExports, hexports, signatures?_machine (length_types_le hsize),
    Option.bind_some]
  rw [filterMap_exports]
  have hfuncs : (p.layout.funcs.zipIdx.filterMap fun x =>
      if x.1.exported then
        if Binary.kindFunc = Binary.kindFunc then
          some (x.1.defn.qualified,
            p.signatures[(UInt32.ofNat (p.layout.funcImports.length + x.2)).toNat]?)
        else none
      else none) = p.ownFunctions := by
    rw [ownFunctions, ← List.filterMap_eq_map, List.filterMap_filter]
    refine filterMap_zipIdx fun i f hf => ?_
    have hi : i < p.layout.funcs.length := (List.getElem?_eq_some_iff.1 hf).1
    -- the size of the module keeps its indices below 32 bits, so none is cut off
    rw [UInt32.toNat_ofNat_of_lt' (by rw [UInt32.size]; omega), h.signature_func hf]
    rfl
  have hglobals : (p.layout.globals.zipIdx.filterMap fun x =>
      if Binary.kindGlobal = Binary.kindFunc then
        some (x.1.1, p.signatures[(UInt32.ofNat (p.layout.globalImports.length + x.2)).toNat]?)
      else none) = [] := by
    simp [Binary.kindGlobal, Binary.kindFunc]
  rw [hfuncs, hglobals, List.append_nil, List.filterMap_cons, List.filterMap_nil]
  rw [UInt32.toNat_ofNat_of_lt' (by rw [UInt32.size]; omega), h.signature_entry, h.name]
  rfl

/-- The exported globals of a program are the data symbols of the unit, with their first values. -/
theorem ownGlobals_machine (hsize : p.toModule.encode.length < 0x100000000) :
    p.machine.ownGlobals =
      p.layout.globals.map fun g => (g.1, some { type := cellType, init := .i64 g.2 }) := by
  have hcounts := counts_le (length_types_le hsize)
  have hnames : p.layout.globalNames.length =
      p.layout.globalImports.length + p.layout.globals.length := by simp [Layout.globalNames]
  have himported : p.machine.importedGlobals.length = p.layout.globalImports.length := by
    rw [p.layout.globalImports_eq]
    have heq := importedGlobals_eq (toModule_spec (length_types_le hsize)).1
    exact (congrArg List.length heq).trans (List.length_replicate ..)
  have hexports : p.machine.exports = p.exports := rfl
  simp only [Machine.Module.ownGlobals, himported, hexports]
  rw [filterMap_exports]
  have hfunc : Binary.kindFunc ≠ Binary.kindGlobal := by decide
  have hglobals : (p.layout.globals.zipIdx.filterMap fun x =>
      if Binary.kindGlobal = Binary.kindGlobal ∧ p.layout.globalImports.length ≤
          (UInt32.ofNat (p.layout.globalImports.length + x.2)).toNat then
        some (x.1.1, p.machine.globals[
          (UInt32.ofNat (p.layout.globalImports.length + x.2)).toNat -
            p.layout.globalImports.length]?)
      else none) =
      p.layout.globals.map fun g => (g.1, some { type := cellType, init := .i64 g.2 }) := by
    rw [← List.filterMap_eq_map]
    refine filterMap_zipIdx fun i g hg => ?_
    have hi : i < p.layout.globals.length := (List.getElem?_eq_some_iff.1 hg).1
    have hglobal : p.machine.globals[i]? = some { type := cellType, init := .i64 g.2 } := by
      simp only [machine, Machine.Module.ofBinary, toModule, List.map_map, List.getElem?_map, hg,
        Option.map_some]
      rfl
    rw [UInt32.toNat_ofNat_of_lt' (by rw [UInt32.size]; omega), Nat.add_sub_cancel_left, hglobal,
      if_pos ⟨rfl, Nat.le_add_right _ _⟩]
    rfl
  rw [hglobals]
  simp [hfunc]

end Program

/-! ## What the imports of a program name -/

/-- The var that an import reads or binds. -/
def Wanted.var? : Wanted → Option String
  | .func module name _ _ =>
    if module = varModule ∨ module = varDefModule then some name else none
  | .global _ => none

theorem varNames_eq (ws : List Wanted) : varNames ws = (ws.filterMap Wanted.var?).eraseDups := by
  rw [varNames]
  congr 1
  refine List.filterMap_congr fun w _ => ?_
  cases w <;> simp [Wanted.var?]

/-- Imports name the vars that the layout wants. -/
theorem filterMap_var? {types : List FuncType} {ws : List Wanted} {is : List Binary.Import}
    (h : List.Forall₂ (Stands types) ws is) :
    ws.filterMap Wanted.var? =
      is.filterMap fun i =>
        if i.module = varModule ∨ i.module = varDefModule then some i.name else none := by
  induction h with
  | nil => rfl
  | @cons w i ws is hw _ ih =>
    have hvar : w.var? =
        if i.module = varModule ∨ i.module = varDefModule then some i.name else none := by
      cases w with
      | func module name params results =>
        obtain ⟨t, rfl, -⟩ := hw
        rfl
      | global name =>
        -- data symbols come from a module of their own
        have henv : ¬ (envModule = varModule ∨ envModule = varDefModule) := by decide
        cases hw
        exact (if_neg henv).symm
    rw [List.filterMap_cons, List.filterMap_cons, hvar, ih]

theorem mem_varNames {types : List FuncType} {ws : List Wanted} {is : List Binary.Import}
    (h : List.Forall₂ (Stands types) ws is) {name : String} :
    name ∈ varNames ws ↔
      ∃ i ∈ is, (i.module = varModule ∨ i.module = varDefModule) ∧ i.name = name := by
  rw [varNames_eq, List.mem_eraseDups, filterMap_var? h, List.mem_filterMap]
  refine exists_congr fun i => and_congr_right fun _ => ?_
  split <;> simp_all

/-- What is left of a list without its repetitions has none. -/
theorem nodup_eraseDups {α : Type} [BEq α] [LawfulBEq α] (xs : List α) : xs.eraseDups.Nodup := by
  induction hn : xs.length using Nat.strong_induction_on generalizing xs with
  | _ n ih =>
    cases xs with
    | nil => simp
    | cons x xs =>
      have hlt : (xs.filter fun y => !y == x).length < n := by
        rw [← hn, List.length_cons]
        exact Nat.lt_succ_of_le (List.length_filter_le _ _)
      rw [List.eraseDups_cons, List.nodup_cons]
      exact ⟨by simp [List.mem_eraseDups], ih _ hlt _ rfl⟩

end Codegen

/-! ## Manifests -/

open Codegen Artifact

/-- The manifest lists what the module exports and imports: the exported functions but for the
entry, each with the count of its parameters, the globals that the module defines and exports, each
with its first value, the vars that it imports readers or binders of, each once, and a function
from nothing to an integer as the entry. -/
structure Manifest.Describes (m : Manifest) (b : Machine.Module) : Prop where
  functions : List.Forall₂
    (fun e f => e.1 = f.1 ∧ ∃ n : Nat, e.2 = some (.ofCounts n 1) ∧ f.2 = (n : Int))
    (b.functionExports.filter (·.1 ≠ m.entry)) m.functions
  globals : b.ownGlobals = m.globals.map fun g =>
    (g.1, some { type := cellType, init := .i64 g.2 })
  vars : ∀ name, name ∈ m.vars ↔
    ∃ i ∈ b.imports, (i.module = varModule ∨ i.module = varDefModule) ∧ i.name = name
  once : m.vars.Nodup
  entry : b.functionExports.filter (·.1 = m.entry) = [(m.entry, some (.ofCounts 0 1))]

/-- The manifest lists the names that a linker sees as exports. -/
structure Manifest.Names (m : Manifest) (info : Binary.Info) : Prop where
  functions : info.exportedFuncs = m.functions.map (·.1) ++ [m.entry]
  globals : info.exportedGlobals = m.globals.map (·.1)

namespace Codegen

variable {p : Program} {u : CompUnit} {fns : List Defn} {depth : Nat} {new : List Reached}

/-- Names of functions have a slash, which that of an entry lacks. -/
theorem Program.ne_entrySymbol_of_mem (p : Program) (u : CompUnit)
    {e : String × Option Binary.FuncType}
    (he : e ∈ p.ownFunctions) : e.1 ≠ u.entrySymbol := by
  obtain ⟨f, -, rfl⟩ := List.mem_map.1 he
  intro heq
  apply u.slash_not_mem_entrySymbol
  rw [← heq]
  exact Symbol.slash_mem_qualify _ _

/-- The manifest of a program lists what the machine has of it. -/
theorem Program.Built.describes (h : p.Built u fns depth new)
    (hsize : p.toModule.encode.length < 0x100000000) :
    (manifestOf u p.layout).Describes p.machine := by
  have hown := fun e he => p.ne_entrySymbol_of_mem u (e := e) he
  refine ⟨?_, Program.ownGlobals_machine hsize, fun name => ?_, ?_, ?_⟩
  · have hothers : p.machine.functionExports.filter (·.1 ≠ u.entrySymbol) = p.ownFunctions := by
      rw [h.functionExports_machine hsize, List.filter_append,
        List.filter_eq_self.2 fun e he => decide_eq_true (hown e he)]
      simp
    show List.Forall₂ _ (p.machine.functionExports.filter (·.1 ≠ u.entrySymbol))
      ((p.layout.funcs.filter (·.exported)).map fun f =>
        (f.defn.qualified, (f.defn.params.length : Int)))
    rw [hothers, Program.ownFunctions, List.forall₂_map_left_iff, List.forall₂_map_right_iff,
      List.forall₂_same]
    exact fun f _ => ⟨rfl, _, rfl, rfl⟩
  · exact mem_varNames (Program.toModule_spec (Program.length_types_le hsize)).1
  · show (varNames p.layout.imports).Nodup
    rw [varNames_eq]
    exact nodup_eraseDups _
  · show p.machine.functionExports.filter (·.1 = u.entrySymbol) = _
    rw [h.functionExports_machine hsize, List.filter_append,
      List.filter_eq_nil_iff.2 fun e he => by simpa using hown e he]
    simp [manifestOf]

/-- The manifest of a program lists the names that a linker sees of it. -/
theorem Program.Built.names (h : p.Built u fns depth new)
    (hsize : p.toModule.encode.length < 0x100000000) {info : Binary.Info}
    (hexports : info.exports = p.machine.exports) (himports : info.imports = p.machine.imports) :
    (manifestOf u p.layout).Names info := by
  have hplain := Program.plain (Program.length_types_le hsize) (manifestOf u p.layout)
  constructor
  · rw [Machine.Module.exportedFuncs_eq hexports, h.functionExports_machine hsize]
    simp [manifestOf, Program.ownFunctions, Function.comp_def]
  · rw [Machine.Module.exportedGlobals_eq hexports himports hplain,
      Program.ownGlobals_machine hsize, List.map_map]
    rfl

end Codegen

/-! ## Artifacts -/

variable {u : CompUnit} {fns : List Defn} {maxDepth : Int} {g : Generated}

/-- Artifacts describe themselves. The binary of a generated module is opened for every target, and
what is read is the manifest that was generated. It lists what a linker sees of the binary
(`Manifest.Names`), and what the binary is decoded to (`Manifest.Describes`). Manifests are read
back if their lists are no longer than a decoder takes, and binaries are no larger than 32-bit sizes
can say. -/
theorem Artifact.described (hgen : generate u fns maxDepth = .ok g)
    (hlists : g.manifest.Listable) (hsize : g.module.encode.length < 0x100000000)
    (target : Target) :
    open? g.module.encode target =
        .ok { manifest := some g.manifest, hash := g.manifest.hash
              entrySymbol := g.manifest.entry, bytes := g.module.encode, target } ∧
      (∃ info, Binary.Info.inspect g.module.encode = .ok info ∧ g.manifest.Names info) ∧
      ∃ b, Machine.Module.decode? g.module.encode = some b ∧ g.manifest.Describes b := by
  obtain ⟨p, hp, hmanifest, hmodule⟩ := generate_eq_ok hgen
  obtain ⟨new, hbuilt⟩ := Program.ofUnit_built hp
  have hsmall : p.toModule.encode.length < 0x100000000 := by
    have hle := p.length_encode_le g.manifest
    rw [← hmodule] at hle
    omega
  refine ⟨?_, ⟨g.module.info, inspect_generate hgen hsize, ?_⟩, p.machine, ?_, ?_⟩
  · have hmade : Artifact.Made { bytes := g.module.encode } u fns maxDepth g :=
      ⟨hgen, rfl, .inl rfl, hsize⟩
    exact hmade.open?_eq_ok hlists target
  · rw [hmanifest]
    exact hbuilt.names hsmall (by rw [hmodule]; rfl) (by rw [hmodule]; rfl)
  · rw [hmodule] at hsize ⊢
    exact hbuilt.decode?_encode g.manifest hsize
  · rw [hmanifest]
    exact hbuilt.describes hsmall

/-- A unit with a data symbol, a function that calls one of the preamble, and a var that is read and
bound. -/
def ticksUnit : CompUnit :=
  { forms :=
      [.defGlobal "ticks" 7,
       .defn "user" "next" ["n"] (.invoke "core" "inc" [.localVar "n"]),
       .bindVar "user" "limit" (.varRef "user" "limit")] }

theorem Artifact.described_ticks :
    ∃ g, generate ticksUnit [incFunction] 0 = .ok g ∧
      g.manifest.functions = [("user/next", 1)] ∧ g.manifest.globals = [("ticks", 7)] ∧
      g.manifest.vars = ["user/limit"] ∧
      open? g.module.encode Target.host =
        .ok { manifest := some g.manifest, hash := g.manifest.hash
              entrySymbol := g.manifest.entry, bytes := g.module.encode, target := Target.host } ∧
      (∃ info, Binary.Info.inspect g.module.encode = .ok info ∧ g.manifest.Names info) ∧
      ∃ b, Machine.Module.decode? g.module.encode = some b ∧ g.manifest.Describes b := by
  have hnames : (generate ticksUnit [incFunction] 0).toOption.any (fun g =>
      g.manifest.functions = [("user/next", 1)] ∧ g.manifest.globals = [("ticks", 7)] ∧
      g.manifest.vars = ["user/limit"]) = true := by decide +kernel
  have hsmall : (generate ticksUnit [incFunction] 0).toOption.all (fun g =>
      g.manifest.Listable && g.module.encode.length < 0x100000000) = true := by cbv
  cases hgen : generate ticksUnit [incFunction] 0 with
  | error e =>
    rw [hgen] at hnames
    cases hnames
  | ok g =>
    rw [hgen] at hnames hsmall
    obtain ⟨hfunctions, hglobals, hvars⟩ := of_decide_eq_true hnames
    obtain ⟨hlists, hsize⟩ := (Bool.and_eq_true ..).mp hsmall
    exact ⟨g, rfl, hfunctions, hglobals, hvars,
      described hgen (of_decide_eq_true hlists) (of_decide_eq_true hsize) Target.host⟩

end WasmLisp
