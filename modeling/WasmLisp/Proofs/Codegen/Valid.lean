import Mathlib
import WasmLisp.Backend
import WasmLisp.Proofs.Codegen.Module
import WasmLisp.Proofs.Digest
import WasmLisp.Proofs.Machine.Follow
import WasmLisp.Proofs.Reader

/-!
# Generated modules are valid

* `nodup_exports`: no two exports have the same name;
* `Built.valid`: the module of a program passes validation;
* `Refers`: the index that code uses for a node leads to what the node names.
-/

namespace WasmLisp

/-! ## Names -/

/-- What analysis gives for a form that was read, in a namespace whose name is not empty and has no
slash. -/
def Node.Analyzed (n : Node) : Prop :=
  ∃ source forms f env ns, Form.readAll source = .ok forms ∧ f ∈ forms ∧ ns ≠ "" ∧
    '/' ∉ ns.toList ∧ (f.analyze env ns).2 = .ok n

theorem Node.Analyzed.sound {n : Node} (h : n.Analyzed) :
    ∃ ns, ns ≠ "" ∧ '/' ∉ ns.toList ∧ Analysis.AllSound ns Symbol.Simple n := by
  obtain ⟨source, forms, f, env, ns, hread, hf, hne, hslash, hn⟩ := h
  exact ⟨ns, hne, hslash, analyze_sound hn (Form.readAll_simple hread f hf)⟩

theorem Symbol.qualify_inj {ns ns' name name' : String} (h : '/' ∉ ns.toList)
    (h' : '/' ∉ ns'.toList) (heq : qualify ns name = qualify ns' name') :
    ns = ns' ∧ name = name' := by
  have hcut := cut?_qualify h name
  rw [heq, cut?_qualify h'] at hcut
  simpa using hcut.symm

theorem Symbol.slash_mem_qualify (ns name : String) : '/' ∈ (qualify ns name).toList := by
  simp [qualify]

theorem CompUnit.slash_not_mem_entrySymbol (u : CompUnit) : '/' ∉ u.entrySymbol.toList := by
  rw [entrySymbol, String.toList_append, List.mem_append, not_or]
  refine ⟨by decide, ?_⟩
  rw [hash, Digest.hex64]
  exact Text.slash_notMem_hexPadded _ _

theorem CompUnit.sound_of_mem_nodes {u : CompUnit} (hforms : ∀ n ∈ u.forms, n.Analyzed) {n : Node}
    (hn : n ∈ u.nodes) :
    ∃ ns, ns ≠ "" ∧ '/' ∉ ns.toList ∧ Analysis.Sound ns Symbol.Simple n := by
  obtain ⟨f, hf, hn⟩ := Node.mem_flattenAll.1 hn
  obtain ⟨ns, hne, hslash, hs⟩ := (hforms f hf).sound
  exact ⟨ns, hne, hslash, hs n hn⟩

/-- No data symbol of the unit is named like an entry function. -/
def CompUnit.LeavesEntries (u : CompUnit) : Prop :=
  ∀ name init, .defGlobal name init ∈ u.nodes → ∀ rest, name ≠ entryMark ++ rest

namespace Codegen

open Machine (Instr)
open Artifact (envModule varModule varDefModule)
open Binary (i64 FuncType)

variable {p : Program} {u : CompUnit} {fns : List Defn} {depth : Nat} {new : List Reached}

/-- The unit defines functions in namespaces whose names have no slash. -/
theorem ns_of_definition (hforms : ∀ n ∈ u.forms, n.Analyzed) {f : Linked}
    (hf : f ∈ u.nodes.filterMap definition?) : f.defn.ns ≠ "" ∧ '/' ∉ f.defn.ns.toList := by
  obtain ⟨ns, hne, hslash, hs⟩ := CompUnit.sound_of_mem_nodes hforms (definition?_exported hf).2
  have heq : f.defn.ns = ns := hs.1
  exact ⟨heq ▸ hne, heq ▸ hslash⟩

theorem map_name_exports (h : p.Built u fns depth new) :
    p.exports.map (·.name) = (u.nodes.filterMap definition?).map (·.defn.qualified) ++
      p.layout.globals.map (·.1) ++ [u.entrySymbol] := by
  have hfuncs : (p.layout.funcs.zipIdx.filterMap fun x =>
      if x.1.exported then some x.1.defn.qualified else none) =
      (u.nodes.filterMap definition?).map (·.defn.qualified) := by
    rw [filterMap_zipIdx (g := fun f => if f.exported then some f.defn.qualified else none)
      fun _ _ _ => rfl, h.layout.funcs, List.filterMap_append, List.filterMap_map]
    have hnew : new.filterMap ((fun f : Linked => if f.exported then some f.defn.qualified
        else none) ∘ fun r => { defn := r.2, exported := false }) = [] := by
      simp
    rw [hnew, List.append_nil, ← List.filterMap_eq_map]
    refine List.filterMap_congr fun f hf => ?_
    rw [if_pos (definition?_exported hf).1]
    rfl
  have hglobals : (p.layout.globals.zipIdx.filterMap fun x => some x.1.1) =
      p.layout.globals.map (·.1) := by
    rw [← List.filterMap_eq_map]
    exact filterMap_zipIdx fun _ _ _ => rfl
  rw [← List.filterMap_eq_map, Program.filterMap_exports, ← hfuncs, ← hglobals, ← h.name]
  rfl

/-- No two exports of a program have the same name. -/
theorem nodup_exports (h : p.Built u fns depth new) (hforms : ∀ n ∈ u.forms, n.Analyzed)
    (hentry : u.LeavesEntries) : (p.exports.map (·.name)).Nodup := by
  have hnodes := fun n hn => CompUnit.sound_of_mem_nodes hforms (n := n) hn
  have hown := fun f hf => ns_of_definition hforms (f := f) hf
  have hdata : ∀ g ∈ p.layout.globals, ∃ init, .defGlobal g.1 init ∈ u.nodes := by
    intro g hg
    rw [h.layout.globals] at hg
    obtain ⟨n, hn, heq⟩ := List.mem_filterMap.1 hg
    cases n <;> cases heq
    exact ⟨_, hn⟩
  rw [map_name_exports h]
  refine List.Nodup.append (List.Nodup.append ?_ h.layout.distinct.globals ?_) (by simp) ?_
  · -- two functions of one qualified name would have the same pair
    have hkeys : ((u.nodes.filterMap definition?).map Linked.key).Nodup := by
      have hall := h.layout.distinct.keys
      rw [h.layout.keys] at hall
      exact hall.of_append_left
    have hmap : (u.nodes.filterMap definition?).map (·.defn.qualified) =
        ((u.nodes.filterMap definition?).map Linked.key).map fun k => Symbol.qualify k.1 k.2 := by
      rw [List.map_map]
      rfl
    rw [hmap]
    refine hkeys.map_on fun k hk k' hk' heq => ?_
    obtain ⟨f, hf, rfl⟩ := List.mem_map.1 hk
    obtain ⟨f', hf', rfl⟩ := List.mem_map.1 hk'
    obtain ⟨h₁, h₂⟩ := Symbol.qualify_inj (hown f hf).2 (hown f' hf').2 heq
    exact Prod.ext h₁ h₂
  · intro name hfun hglobal
    obtain ⟨f, hf, rfl⟩ := List.mem_map.1 hfun
    obtain ⟨g, hg, heq⟩ := List.mem_map.1 hglobal
    obtain ⟨init, hn⟩ := hdata g hg
    obtain ⟨ns, -, -, hs⟩ := hnodes _ hn
    have hsimple : Symbol.Simple { name := g.1 } := hs
    exact hsimple rfl _ _ (hown f hf).1 (hown f hf).2 heq
  · intro name hin hlast
    rw [List.mem_singleton] at hlast
    subst hlast
    rcases List.mem_append.1 hin with hin | hin
    · obtain ⟨f, -, heq⟩ := List.mem_map.1 hin
      apply u.slash_not_mem_entrySymbol
      rw [← heq]
      exact Symbol.slash_mem_qualify _ _
    · obtain ⟨g, hg, heq⟩ := List.mem_map.1 hin
      obtain ⟨init, hn⟩ := hdata g hg
      exact hentry _ _ hn u.hash heq

/-! ## Validation -/

/-- The code behind the functions of a module. -/
theorem zip_bodies {types : List FuncType} {codes : List Code} {fs : List Binary.Func}
    (h : List.Forall₂ (Realizes types) codes fs) :
    (fs.zip (codes.map (·.body))).map (fun x => (x.1.locals, x.2)) =
      codes.map fun c => (List.replicate c.locals i64, c.body) := by
  induction h with
  | nil => rfl
  | cons hr _ ih => simp only [List.map_cons, List.zip_cons_cons, hr.locals, ih]

namespace Program

theorem length_types_le (hsize : p.toModule.encode.length < 0x100000000) :
    p.toModule.types.length ≤ 0x100000000 := by
  have := p.toModule.count_le_length_encode
  omega

theorem code_machine (hsize : p.toModule.encode.length < 0x100000000) :
    p.machine.code = p.codes.map fun c => (List.replicate c.locals i64, c.body) := by
  obtain ⟨-, hf, -, -⟩ := toModule_spec (length_types_le hsize)
  exact zip_bodies hf

theorem length_funcTypes_machine (hsize : p.toModule.encode.length < 0x100000000) :
    p.machine.funcTypes.length = p.codes.length := by
  obtain ⟨-, hf, -, -⟩ := toModule_spec (length_types_le hsize)
  rw [hf.length_eq]
  exact List.length_map ..

theorem own_signatures (hsize : p.toModule.encode.length < 0x100000000) :
    p.signatures.drop (p.signatures.length - p.machine.funcTypes.length) =
      p.codes.map fun c => .ofCounts c.params 1 := by
  rw [length_funcTypes_machine hsize]
  simp [signatures]

/-- Every body keeps to its types. -/
theorem Built.bodyFits (h : p.Built u fns depth new)
    (hsize : p.toModule.encode.length < 0x100000000) {code : Code} (hc : code ∈ p.codes) :
    Machine.Module.bodyFits
      { types := p.machine.types, funcs := p.signatures, globals := p.machine.globalTypes }
      (.ofCounts code.params 1) (List.replicate code.locals i64) code.body = true := by
  have hlt := h.locals_lt hsize hc
  have hlocals : (FuncType.ofCounts code.params 1).params ++ List.replicate code.locals i64 =
      List.replicate (code.params + code.locals) i64 := by
    rw [FuncType.ofCounts, List.replicate_append_replicate]
  let t : Machine.Context :=
    { types := p.machine.types, funcs := p.signatures, globals := p.machine.globalTypes
      locals := List.replicate (code.params + code.locals) i64
      results := (FuncType.ofCounts code.params 1).results
      labels := [(FuncType.ofCounts code.params 1).results] }
  have hm := (h.moves hc (h.suits (t := t) hsize (by omega) rfl rfl rfl)).checked []
  simp only [Machine.Module.bodyFits, hlocals]
  change Machine.checkAll t {} code.body = some (operands 1 []) at hm
  rw [show Machine.checkAll _ {} code.body = _ from hm]
  rfl

theorem Built.exportFits (h : p.Built u fns depth new)
    (hsize : p.toModule.encode.length < 0x100000000) {e : Binary.Export} (he : e ∈ p.exports) :
    p.machine.exportFits p.signatures.length e = true := by
  have hcounts := counts_le (length_types_le hsize)
  have hfuncs : p.signatures.length = p.layout.funcImports.length + p.layout.funcs.length + 1 := by
    have := h.functions.length_eq
    simp only [signatures, codes, List.length_append, List.length_map, List.length_singleton,
      p.layout.length_funcImports]
    omega
  have hglobals : p.machine.globalTypes.length =
      p.layout.globalImports.length + p.layout.globals.length := by
    simp [globalTypes_machine (length_types_le hsize), Layout.globalNames]
  have hnames : p.layout.globalNames.length =
      p.layout.globalImports.length + p.layout.globals.length := by simp [Layout.globalNames]
  have hindex : ∀ i < 0x100000000, (UInt32.ofNat i).toNat = i := by
    intro i hi
    rw [UInt32.toNat_ofNat']
    exact Nat.mod_eq_of_lt hi
  rcases mem_exports.1 he with ⟨i, f, hf, -, rfl⟩ | ⟨i, g, hg, rfl⟩ | rfl
  · have hi := (List.getElem?_eq_some_iff.1 hf).1
    simp only [Machine.Module.exportFits, if_true, decide_eq_true_eq]
    rw [hindex _ (by omega)]
    omega
  · have hi := (List.getElem?_eq_some_iff.1 hg).1
    simp only [Machine.Module.exportFits]
    rw [if_neg (by decide), if_pos trivial, decide_eq_true_eq, hindex _ (by omega)]
    omega
  · simp only [Machine.Module.exportFits, if_true, decide_eq_true_eq]
    rw [hindex _ (by omega)]
    omega

/-- The module of a program passes validation if the names of its exports differ. -/
theorem Built.valid (h : p.Built u fns depth new)
    (hsize : p.toModule.encode.length < 0x100000000) (hnames : (p.exports.map (·.name)).Nodup) :
    p.machine.valid = true := by
  have htypes := length_types_le hsize
  unfold Machine.Module.valid
  rw [signatures?_machine htypes]
  simp only [own_signatures hsize, code_machine hsize, Bool.and_eq_true, List.all_eq_true,
    decide_eq_true_eq]
  refine ⟨⟨⟨⟨⟨?_, ?_⟩, ?_⟩, ?_⟩, hnames⟩, rfl⟩
  · simp [length_funcTypes_machine hsize]
  · intro x hx
    rw [List.zip_map'] at hx
    obtain ⟨code, hc, rfl⟩ := List.mem_map.1 hx
    exact h.bodyFits hsize hc
  · intro g hg
    obtain ⟨g', hg', rfl⟩ := List.mem_map.1 (show g ∈ p.toModule.globals.map _ from hg)
    obtain ⟨x, -, rfl⟩ := List.mem_map.1 (show g' ∈ p.layout.globals.map _ from hg')
    rfl
  · exact fun e he => h.exportFits hsize he

end Program

/-! ## What indices lead to -/

/-- The function of an index is imported under a name, and takes and gives so many integers. -/
def Imports (m : Machine.Module) (index : Nat) (module name : String) (params results : Nat) :
    Prop :=
  m.importedFunctions[index]? = some (module, name) ∧
    m.signatures?.bind (·[index]?) = some (.ofCounts params results)

/-- The function of an index is the code of a definition, and gives one integer. -/
def Defines (c : Context) (m : Machine.Module) (index : Nat) (d : Defn) : Prop :=
  ∃ k code, index = m.importedFunctions.length + k ∧
    functionCode c d = .ok code ∧
    m.code[k]? = some (List.replicate code.locals i64, code.body) ∧
    m.signatures?.bind (·[index]?) = some (.ofCounts d.params.length 1)

/-- The global of an index is imported under a name, or exported under it with its first value. -/
def Holds (u : CompUnit) (m : Machine.Module) (index : Nat) (name : String) : Prop :=
  m.importedSymbols[index]? = some name ∨
    ∃ k init, index = m.importedSymbols.length + k ∧ .defGlobal name init ∈ u.nodes ∧
      m.globals[k]? = some { type := cellType, init := .i64 init } ∧
      { name, kind := Binary.kindGlobal, index := UInt32.ofNat index } ∈ m.exports

/-- The index that code uses for a node leads to what the node names. -/
def Refers (u : CompUnit) (fns : List Defn) (c : Context) (m : Machine.Module) : Node → Prop
  | .varRef ns name =>
    Imports m (c.layout.importIndex varModule (Symbol.qualify ns name)) varModule
      (Symbol.qualify ns name) 0 1
  | .bindVar ns name _ =>
    Imports m (c.layout.importIndex varDefModule (Symbol.qualify ns name)) varDefModule
      (Symbol.qualify ns name) 1 0
  | .foreignCall name args =>
    Imports m (c.layout.importIndex envModule name) envModule name args.length 1
  | .invoke ns name args =>
    match callee? u fns (ns, name) with
    | some d =>
      ∃ index, c.layout.funcIndex? ns name = some (index, d.params.length) ∧ Defines c m index d
    | none =>
      c.layout.funcIndex? ns name = none ∧
        Imports m (c.layout.importIndex envModule (Symbol.qualify ns name)) envModule
          (Symbol.qualify ns name) args.length 1
  | .foreignGet name => Holds u m (c.layout.globalIndex name) name
  | .foreignSet name _ => Holds u m (c.layout.globalIndex name) name
  | _ => True

theorem filterMap_funcNames {types : List FuncType} {ws : List Wanted} {is : List Binary.Import}
    (h : List.Forall₂ (Stands types) ws is) :
    (is.filterMap fun i => i.desc.func?.map fun _ => (i.module, i.name)) =
      ws.filterMap Wanted.func? := by
  induction h with
  | nil => rfl
  | @cons w i ws is hw _ ih =>
    cases w with
    | func module name params results =>
      obtain ⟨t, rfl, -⟩ := hw
      simpa [Binary.ImportDesc.func?, Wanted.func?] using ih
    | global name =>
      cases hw
      simpa [List.filterMap_cons, Binary.ImportDesc.func?, Wanted.func?] using ih

theorem filterMap_globalNames {types : List FuncType} {ws : List Wanted}
    {is : List Binary.Import} (h : List.Forall₂ (Stands types) ws is) :
    (is.filterMap fun i => i.desc.global?.map fun _ => i.name) = ws.filterMap Wanted.global? := by
  induction h with
  | nil => rfl
  | @cons w i ws is hw _ ih =>
    cases w with
    | func module name params results =>
      obtain ⟨t, rfl, -⟩ := hw
      simpa [List.filterMap_cons, Binary.ImportDesc.global?, Wanted.global?] using ih
    | global name =>
      cases hw
      simpa [Binary.ImportDesc.global?, Wanted.global?] using ih

namespace Program

theorem importedFunctions_machine (hsize : p.toModule.encode.length < 0x100000000) :
    p.machine.importedFunctions = p.layout.imports.filterMap Wanted.func? :=
  filterMap_funcNames (toModule_spec (length_types_le hsize)).1

theorem importedSymbols_machine (hsize : p.toModule.encode.length < 0x100000000) :
    p.machine.importedSymbols = p.layout.globalImports := by
  rw [Layout.globalImports_eq]
  exact filterMap_globalNames (toModule_spec (length_types_le hsize)).1

theorem Built.imports (h : p.Built u fns depth new)
    (hsize : p.toModule.encode.length < 0x100000000) {module name : String}
    {params results : Nat} (hin : .func module name params results ∈ p.layout.imports) :
    Imports p.machine (p.layout.importIndex module name) module name params results := by
  refine ⟨?_, ?_⟩
  · rw [importedFunctions_machine hsize]
    have hname := congrArg (·[p.layout.importIndex module name]?) p.layout.map_func?_funcImports
    simp only [List.getElem?_map, h.layout.tidy.importIndex_spec hin, Option.map_some] at hname
    cases hx : (p.layout.imports.filterMap Wanted.func?)[p.layout.importIndex module name]? with
    | none =>
      rw [hx] at hname
      cases hname
    | some x =>
      rw [hx] at hname
      exact (Option.some.inj hname).symm
  · rw [signatures?_machine (length_types_le hsize)]
    exact h.signature_import hin

theorem Built.defines (h : p.Built u fns depth new)
    (hsize : p.toModule.encode.length < 0x100000000) {i : Nat} {f : Linked}
    (hf : p.layout.funcs[i]? = some f) :
    Defines { layout := p.layout, maxDepth := depth } p.machine (p.layout.funcImports.length + i)
      f.defn := by
  obtain ⟨code, hcode, hfun⟩ := forall₂_getElem? h.functions hf
  have hlt : i < p.functions.length := (List.getElem?_eq_some_iff.1 hcode).1
  refine ⟨i, code, ?_, hfun, ?_, ?_⟩
  · have hlen := congrArg List.length p.layout.map_func?_funcImports
    simp only [List.length_map] at hlen
    rw [hlen, importedFunctions_machine hsize]
  · rw [code_machine hsize, List.getElem?_map, codes, List.getElem?_append_left hlt, hcode,
      Option.map_some]
  · rw [signatures?_machine (length_types_le hsize)]
    exact h.signature_func hf

theorem Built.holds (h : p.Built u fns depth new)
    (hsize : p.toModule.encode.length < 0x100000000) {name : String}
    (hin : name ∈ p.layout.globals.map (·.1) ∨ .global name ∈ p.layout.imports) :
    Holds u p.machine (p.layout.globalIndex name) name := by
  have hspec := Layout.globalIndex_spec hin
  rw [Layout.globalNames] at hspec
  unfold Holds
  rw [importedSymbols_machine hsize]
  by_cases hlt : p.layout.globalIndex name < p.layout.globalImports.length
  · rw [List.getElem?_append_left hlt] at hspec
    exact .inl hspec
  · rw [List.getElem?_append_right (Nat.not_lt.1 hlt), List.getElem?_map,
      Option.map_eq_some_iff] at hspec
    obtain ⟨⟨name', init⟩, hg, heq⟩ := hspec
    obtain rfl : name' = name := heq
    refine .inr ⟨p.layout.globalIndex name' - p.layout.globalImports.length, init, by omega,
      ?_, ?_, ?_⟩
    · have hmem := List.mem_of_getElem? hg
      rw [h.layout.globals] at hmem
      obtain ⟨n, hn, heq⟩ := List.mem_filterMap.1 hmem
      cases n <;> cases heq
      exact hn
    · simp only [machine, Machine.Module.ofBinary, toModule, List.map_map, List.getElem?_map, hg,
        Option.map_some]
      rfl
    · refine mem_exports.2 (.inr (.inl ⟨_, _, hg, ?_⟩))
      congr 2
      omega

/-- The indices of a program lead to what its nodes name. -/
theorem Built.refers (h : p.Built u fns depth new)
    (hsize : p.toModule.encode.length < 0x100000000) {n : Node} (hn : n ∈ reachedNodes u new) :
    Refers u fns { layout := p.layout, maxDepth := depth } p.machine n := by
  have hplace := h.layout.places n hn
  cases n with
  | varRef ns name => exact h.imports hsize hplace
  | bindVar ns name init => exact h.imports hsize hplace
  | foreignCall name args => exact h.imports hsize hplace
  | foreignGet name => exact h.holds hsize hplace
  | foreignSet name value => exact h.holds hsize hplace
  | invoke ns name args =>
    rw [Refers]
    cases hd : callee? u fns (ns, name) with
    | some d =>
      have hcall : (ns, name) ∈ callsOf (reachedNodes u new) := mem_callsOf.2 ⟨args, hn⟩
      obtain ⟨i, f, hf, rfl, hindex⟩ := h.layout.callee?_eq_some hcall hd
      exact ⟨_, hindex, h.defines hsize hf⟩
    | none =>
      have hout := h.layout.callee?_eq_none hd
      refine ⟨?_, h.imports hsize (hplace.resolve_left hout)⟩
      cases hi : p.layout.funcIndex? ns name with
      | none => rfl
      | some x =>
        obtain ⟨i, f, hk, -⟩ := Layout.funcIndex?_eq_some hi
        exact absurd (List.mem_of_getElem? hk) hout
  | _ => trivial

end Program

/-! ## Generated modules -/

/-- The binary of a generated module is decoded to `m` and `m` keeps to the rules. -/
structure Generated.Valid (u : CompUnit) (fns : List Defn) (depth : Nat) (m : Machine.Module)
    (g : Generated) : Prop where
  decoded : Machine.Module.decode? g.module.encode = some m
  valid : m.valid = true
  /-- Every function that the module defines gives exactly one integer. -/
  results : ∀ funcs, m.signatures? = some funcs →
    ∀ t ∈ funcs.drop m.importedFunctions.length, t.results = [i64]
  /-- Indices lead to what nodes name, in the forms and in all functions that are linked. -/
  refers : ∃ p, Program.ofUnit u fns depth = .ok p ∧
    (∀ n ∈ u.nodes, Refers u fns ⟨p.layout, depth⟩ m n) ∧
    ∀ f ∈ p.layout.funcs, ∀ n ∈ f.defn.body.flatten, Refers u fns ⟨p.layout, depth⟩ m n
  exports : (m.exports.map (·.name)).Nodup

/-- A module that is no larger than the sizes of the binary format can say is valid. -/
theorem generated_valid {maxDepth : Int} {g : Generated} (hforms : ∀ n ∈ u.forms, n.Analyzed)
    (hentry : u.LeavesEntries) (hgen : generate u fns maxDepth = .ok g)
    (hsize : g.module.encode.length < 0x100000000) :
    ∃ m, g.Valid u fns (effectiveDepth maxDepth) m := by
  obtain ⟨p, hp, -, hmod⟩ := generate_eq_ok hgen
  obtain ⟨new, hb⟩ := Program.ofUnit_built hp
  have hsmall : p.toModule.encode.length < 0x100000000 := by
    have := p.length_encode_le g.manifest
    rw [← hmod] at this
    omega
  have hnames := nodup_exports hb hforms hentry
  refine ⟨p.machine, ?_, hb.valid hsmall hnames, ?_, ⟨p, hp, ?_, ?_⟩, hnames⟩
  · rw [hmod] at hsize ⊢
    exact hb.decode?_encode g.manifest hsize
  · intro funcs hfuncs t ht
    rw [Program.signatures?_machine (Program.length_types_le hsmall)] at hfuncs
    cases hfuncs
    have hlen : p.machine.importedFunctions.length =
        (p.layout.imports.filterMap Wanted.type?).length := by
      rw [Program.importedFunctions_machine hsmall, ← p.layout.length_funcImports]
      simpa using (congrArg List.length p.layout.map_func?_funcImports).symm
    rw [hlen, Program.signatures, List.drop_left] at ht
    obtain ⟨code, -, rfl⟩ := List.mem_map.1 ht
    rfl
  · intro n hn
    obtain ⟨f, hf, hn⟩ := Node.mem_flattenAll.1 hn
    exact hb.refers hsmall (Layout.Built.form_subset hf hn)
  · intro f hf n hn
    exact hb.refers hsmall (hb.layout.body_subset hf hn)

/-- Every generated module is valid. The forms come from analysis in namespaces whose names are not
empty and have no slash, no data symbol is named like an entry function, the preamble loads, and modules
are no larger than the 32-bit sizes of the binary format can say. So a backend never refuses what it has
generated: it fails only where generation fails. -/
theorem generate_valid {u : CompUnit} {preamble : Preamble} {fns : List Defn}
    (hforms : ∀ n ∈ u.forms, n.Analyzed) (hentry : u.LeavesEntries)
    (hload : preamble.load = .ok fns) :
    (∀ maxDepth g, generate u fns maxDepth = .ok g → g.module.encode.length < 0x100000000 →
      ∃ m, g.Valid u fns (effectiveDepth maxDepth) m) ∧
    ∀ b : Backend, b.preamble = preamble → b.validates = true →
      (∀ g, generate { u with target := b.target } fns b.maxDepth = .ok g →
        g.module.encode.length < 0x100000000) →
      b.build u = (generate { u with target := b.target } fns b.maxDepth).map fun g =>
        { manifest := some g.manifest, hash := g.manifest.hash, entrySymbol := g.manifest.entry
          bytes := g.module.encode, target := b.target } := by
  refine ⟨fun maxDepth g hgen hsize => generated_valid hforms hentry hgen hsize, ?_⟩
  intro b hpre hval hsize
  have hrun : b.runtime = .ok fns := by
    rw [Backend.runtime, hpre, hload]
    rfl
  show (b.runtime >>= fun fns => b.buildWith fns u) = _
  rw [hrun]
  show b.buildWith fns u = _
  unfold Backend.buildWith
  cases hgen : generate { u with target := b.target } fns b.maxDepth with
  | error e => rfl
  | ok g =>
    -- the target is no part of the forms, so they are still those of the unit
    obtain ⟨m, hm⟩ := generated_valid (u := { u with target := b.target }) hforms hentry hgen
      (hsize g hgen)
    have hloaded : Machine.Module.load? g.module.encode = some m := by
      simp only [Machine.Module.load?, hm.decoded, bind, Option.bind_some, hm.valid, if_true]
    simp only [bind, Except.bind, hval, hloaded, Bool.not_true, Option.isNone_some, Bool.or_self,
      Bool.false_eq_true, if_false]
    rfl

/-- A preamble function and a unit that defines a function which calls it. -/
def incPreamble : Preamble := { source := "(defn inc [x] (+ x 1))" }

def incFunction : Defn :=
  { ns := "core", name := "inc", params := ["x"], body := .prim "+" [.localVar "x", .const 1] }

def incUnit : CompUnit :=
  { forms := [.defn "user" "next" ["n"] (.invoke "core" "inc" [.localVar "n"])] }

theorem generate_valid_inc :
    (∃ g m, generate incUnit [incFunction] 0 = .ok g ∧
      g.Valid incUnit [incFunction] defaultMaxDepth m) ∧
      ((Backend.host incPreamble 0).build incUnit).isOk = true := by
  have hforms : ∀ n ∈ incUnit.forms, n.Analyzed := by
    refine List.forall_mem_singleton.2 ?_
    refine ⟨"(defn next [n] (inc n))", _, _, Preamble.declareAll [incFunction] .initial, "user",
      by cbv, List.mem_singleton_self _, by decide, by decide, by cbv⟩
  have hentry : incUnit.LeavesEntries := by
    intro name init hin
    simp [incUnit, CompUnit.nodes, Node.flattenAll, Node.flatten] at hin
  have hload : incPreamble.load = .ok [incFunction] := by cbv
  obtain ⟨hvalid, hbuild⟩ := generate_valid hforms hentry hload
  have hsize : (generate incUnit [incFunction] 0).toOption.all
      (fun g => g.module.encode.length < 0x100000000) = true := by cbv
  cases hgen : generate incUnit [incFunction] 0 with
  | error e =>
    have hok : (generate incUnit [incFunction] 0).isOk = true := rfl
    rw [hgen] at hok
    cases hok
  | ok g =>
    rw [hgen] at hsize
    have hlt : g.module.encode.length < 0x100000000 := by simpa [Except.toOption] using hsize
    obtain ⟨m, hm⟩ := hvalid 0 g hgen hlt
    refine ⟨⟨g, m, rfl, hm⟩, ?_⟩
    have hhost : generate { incUnit with target := (Backend.host incPreamble 0).target }
        [incFunction] (Backend.host incPreamble 0).maxDepth = .ok g := hgen
    rw [hbuild (Backend.host incPreamble 0) rfl rfl, hhost]
    · rfl
    · intro g' hg'
      rw [hhost] at hg'
      cases hg'
      exact hlt

/-- A function and a data symbol of one name, which analysis makes of two forms in the namespace that has
no name. -/
def clashUnit : CompUnit := { forms := [.defn "" "x" [] (.const 1), .defGlobal "/x" 2] }

theorem readAll_clash :
    Form.readAll "(defglobal /x 2)" =
      .ok [.list [.sym { name := "defglobal" } 1, .sym { name := "/x" } 1, .int 2 1] 1] := by
  have hscan : Token.scan "(defglobal /x 2)" = .ok [{ kind := .openParen, text := "(", line := 1 },
      { kind := .atom, text := "defglobal", line := 1 }, { kind := .atom, text := "/x", line := 1 },
      { kind := .atom, text := "2", line := 1 }, { kind := .closeParen, text := ")", line := 1 }] := by
    cbv
  have hword : Symbol.ofText "defglobal" = { name := "defglobal" } := rfl
  have hname : Symbol.ofText "/x" = { name := "/x" } := rfl
  have hatoms : Reader.atom "defglobal" 1 = .ok (.sym { name := "defglobal" } 1) ∧
      Reader.atom "/x" 1 = .ok (.sym { name := "/x" } 1) ∧ Reader.atom "2" 1 = .ok (.int 2 1) := by
    rw [← hword, ← hname]
    exact ⟨rfl, rfl, rfl⟩
  unfold Form.readAll Reader.read
  rw [hscan]
  simp only [Reader.forms, Reader.run, Reader.step, hatoms, bind, Except.bind, Except.map_ok]
  rfl

/-- Both definitions are what sources are analysed to. -/
theorem analyzed_clash : ∀ n ∈ clashUnit.forms, ∃ source forms f env,
    Form.readAll source = .ok forms ∧ f ∈ forms ∧ (f.analyze env "").2 = .ok n := by
  intro n hn
  rcases List.mem_pair.1 hn with rfl | rfl
  · exact ⟨"(defn x [] 1)", _, _, .initial, by cbv, List.mem_singleton_self _, by cbv⟩
  · exact ⟨_, _, _, .initial, readAll_clash, List.mem_singleton_self _, by cbv⟩

/-- In the namespace without a name, functions are not told from data symbols: the module exports one
name twice. It is not valid, and the backend refuses what it has generated. -/
theorem generate_invalid_clash :
    (∀ n ∈ clashUnit.forms, ∃ source forms f env, Form.readAll source = .ok forms ∧ f ∈ forms ∧
      (f.analyze env "").2 = .ok n) ∧
    clashUnit.LeavesEntries ∧ ({ source := "" } : Preamble).load = .ok [] ∧
    (∃ g, generate clashUnit [] 0 = .ok g ∧ g.module.encode.length < 0x100000000 ∧
      ∀ m, ¬ g.Valid clashUnit [] defaultMaxDepth m) ∧
    (Backend.host { source := "" } 0).build clashUnit = .error (.backend (some (.plain "invalid module"))
      "generated module for amd64 failed validation") := by
  have hload : ({ source := "" } : Preamble).load = .ok [] := by cbv
  have hgen : ∃ g, generate clashUnit [] 0 = .ok g ∧ g.module.encode.length < 0x100000000 ∧
      Machine.Module.load? g.module.encode = none := by
    have hinvalid : (generate clashUnit [] 0).toOption.any
        (fun g => decide (g.module.encode.length < 0x100000000) &&
          (Machine.Module.load? g.module.encode).isNone) = true := by decide +kernel
    cases hgen : generate clashUnit [] 0 with
    | error e =>
      rw [hgen] at hinvalid
      cases hinvalid
    | ok g =>
      rw [hgen] at hinvalid
      simpa [Except.toOption] using hinvalid
  obtain ⟨g, hg, hsize, hinvalid⟩ := hgen
  refine ⟨analyzed_clash, ?_, hload, ⟨g, hg, hsize, fun m hm => ?_⟩, ?_⟩
  · intro name init hin rest hname
    obtain ⟨rfl, -⟩ : name = "/x" ∧ init = 2 := by
      simpa [clashUnit, CompUnit.nodes, Node.flattenAll, Node.flatten] using hin
    have hfirst := congrArg (·.toList.head?) hname
    simp [CompUnit.entryMark] at hfirst
  · have hloaded : Machine.Module.load? g.module.encode = some m := by
      simp only [Machine.Module.load?, hm.decoded, bind, Option.bind_some, hm.valid, if_true]
    rw [hinvalid] at hloaded
    cases hloaded
  · have htarget : generate { clashUnit with target := (Backend.host { source := "" } 0).target } []
        (Backend.host { source := "" } 0).maxDepth = .ok g := hg
    have hdescribe : (Backend.host { source := "" } 0).target.describe = "amd64" := by decide +kernel
    unfold Backend.build Backend.runtime Backend.buildWith
    rw [show (Backend.host { source := "" } 0).preamble = { source := "" } from rfl, hload]
    simp only [Except.mapError, bind, Except.bind, htarget, hinvalid, Option.isNone_none, Bool.or_true,
      if_true, hdescribe]
    rfl

end Codegen

end WasmLisp
