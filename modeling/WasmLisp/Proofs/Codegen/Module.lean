import Mathlib
import WasmLisp.Proofs.Codegen.Typing

/-!
# The module that a program is written down as

* `Stands` and `Realizes`: what an import and a function of the module are, given its signatures;
* `Program.toModule_spec`: the module has the imports and functions of the program in order;
* `Program.decode?_encode`: its binary is decoded to it.
-/

namespace WasmLisp.Codegen

open Machine (Instr)
open Artifact (envModule varModule varDefModule)
open Binary (i64 FuncType)

/-! ## Signatures -/

/-- Adding a signature keeps the others where they are and gives the index of the new one. -/
theorem addType_spec (m : Binary.Module) (t : FuncType) :
    (m.addType t).2 = { m with types := (m.addType t).2.types } ∧
      m.types <+: (m.addType t).2.types ∧
      (∀ u ∈ (m.addType t).2.types, u ∈ m.types ∨ u = t) ∧
      ((m.addType t).2.types.length ≤ 0x100000000 →
        (m.addType t).2.types[(m.addType t).1.toNat]? = some t) := by
  unfold Binary.Module.addType
  split
  · rename_i i hi
    obtain ⟨hlt, heq, -⟩ := List.findIdx?_eq_some_iff_getElem.1 hi
    refine ⟨rfl, List.prefix_refl _, fun u hu => .inl hu, fun hl => ?_⟩
    have hidx : (UInt32.ofNat i).toNat = i := by
      rw [UInt32.toNat_ofNat']
      exact Nat.mod_eq_of_lt (Nat.lt_of_lt_of_le hlt hl)
    rw [hidx, List.getElem?_eq_getElem hlt]
    simpa using heq
  · refine ⟨rfl, List.prefix_append _ _, fun u hu => by simpa using hu, fun hl => ?_⟩
    simp only [List.length_append, List.length_singleton] at hl
    have hidx : (UInt32.ofNat m.types.length).toNat = m.types.length := by
      rw [UInt32.toNat_ofNat']
      exact Nat.mod_eq_of_lt (by omega)
    simp [hidx]

theorem getElem?_of_prefix {α : Type} {l l' : List α} (h : l <+: l') {i : Nat} {a : α}
    (hi : l[i]? = some a) : l'[i]? = some a := by
  obtain ⟨more, rfl⟩ := h
  rw [List.getElem?_append_left (List.getElem?_eq_some_iff.1 hi).1, hi]

/-- The import that stands for what a layout wants, given the signatures of the module. -/
def Stands (types : List FuncType) (w : Wanted) (i : Binary.Import) : Prop :=
  match w with
  | .func module name params results =>
    ∃ t, i = { module, name, desc := .func t } ∧ types[t.toNat]? = some (.ofCounts params results)
  | .global name =>
    i = { module := envModule, name
          desc := .global { valType := i64, mutable := true } }

/-- The function that code is written down as, given the signatures of the module. -/
structure Realizes (types : List FuncType) (code : Code) (f : Binary.Func) : Prop where
  type : types[f.typeIdx.toNat]? = some (.ofCounts code.params 1)
  locals : f.locals = List.replicate code.locals i64
  body : f.body = Instr.encodeAll code.body

/-- Signatures from and to counts of integers. -/
def Counted (types : List FuncType) : Prop := ∀ t ∈ types, ∃ p r, t = .ofCounts p r

theorem prefix_foldl_addWanted (ws : List Wanted) (m : Binary.Module) :
    m.types <+: (ws.foldl addWanted m).types := by
  induction ws generalizing m with
  | nil => exact List.prefix_refl _
  | cons w ws ih =>
    refine List.IsPrefix.trans ?_ (ih (addWanted m w))
    cases w with
    | func module name params results => exact (addType_spec m (.ofCounts params results)).2.1
    | global name => exact List.prefix_refl _

theorem prefix_foldl_addCode (codes : List Code) (m : Binary.Module) :
    m.types <+: (codes.foldl addCode m).types := by
  induction codes generalizing m with
  | nil => exact List.prefix_refl _
  | cons code codes ih =>
    exact (addType_spec m (.ofCounts code.params 1)).2.1.trans (ih (addCode m code))

/-- Imports go after those that are there, and their signatures too. -/
theorem foldl_addWanted (ws : List Wanted) (m : Binary.Module) (types : List FuncType)
    (hc : Counted m.types) (hp : (ws.foldl addWanted m).types <+: types)
    (hl : types.length ≤ 0x100000000) :
    ∃ is, ws.foldl addWanted m =
        { m with types := (ws.foldl addWanted m).types, imports := m.imports ++ is } ∧
      List.Forall₂ (Stands types) ws is ∧ Counted (ws.foldl addWanted m).types := by
  induction ws generalizing m with
  | nil => exact ⟨[], by simp, .nil, hc⟩
  | cons w ws ih =>
    rw [List.foldl_cons] at hp ⊢
    cases w with
    | func module name params results =>
      obtain ⟨heq, -, hmem, hidx⟩ := addType_spec m (.ofCounts params results)
      have hw : addWanted m (.func module name params results) =
          { m with
            types := (m.addType (.ofCounts params results)).2.types
            imports := m.imports ++
              [{ module, name, desc := .func (m.addType (.ofCounts params results)).1 }] } := by
        simp only [addWanted]
        rw [heq]
      have ht : (addWanted m (.func module name params results)).types =
          (m.addType (.ofCounts params results)).2.types := by rw [hw]
      have hc' : Counted (addWanted m (.func module name params results)).types := by
        rw [ht]
        intro t hin
        rcases hmem t hin with hin | rfl
        · exact hc t hin
        · exact ⟨params, results, rfl⟩
      obtain ⟨is, hend, hall, hcount⟩ := ih _ hc' hp
      have hpt := (prefix_foldl_addWanted ws _).trans hp
      rw [ht] at hpt
      refine ⟨_ :: is, hend.trans ?_,
        .cons ⟨(m.addType (.ofCounts params results)).1, rfl, ?_⟩ hall, hcount⟩
      · generalize (ws.foldl addWanted _).types = end'
        rw [hw]
        simp
      · exact getElem?_of_prefix hpt (hidx (Nat.le_trans hpt.length_le hl))
    | global name =>
      obtain ⟨is, hend, hall, hcount⟩ := ih (addWanted m (.global name)) hc hp
      refine ⟨_ :: is, hend.trans ?_, .cons rfl hall, hcount⟩
      simp [addWanted]

/-- Functions go after those that are there, and their signatures too. -/
theorem foldl_addCode (codes : List Code) (m : Binary.Module) (types : List FuncType)
    (hc : Counted m.types) (hp : (codes.foldl addCode m).types <+: types)
    (hl : types.length ≤ 0x100000000) :
    ∃ fs, codes.foldl addCode m =
        { m with types := (codes.foldl addCode m).types, funcs := m.funcs ++ fs } ∧
      List.Forall₂ (Realizes types) codes fs ∧ Counted (codes.foldl addCode m).types := by
  induction codes generalizing m with
  | nil => exact ⟨[], by simp, .nil, hc⟩
  | cons code codes ih =>
    rw [List.foldl_cons] at hp ⊢
    obtain ⟨heq, -, hmem, hidx⟩ := addType_spec m (.ofCounts code.params 1)
    have hw : addCode m code =
        { m with
          types := (m.addType (.ofCounts code.params 1)).2.types
          funcs := m.funcs ++
            [{ typeIdx := (m.addType (.ofCounts code.params 1)).1
               locals := List.replicate code.locals i64
               body := Instr.encodeAll code.body }] } := by
      simp only [addCode]
      rw [heq]
    have ht : (addCode m code).types = (m.addType (.ofCounts code.params 1)).2.types := by rw [hw]
    have hc' : Counted (addCode m code).types := by
      rw [ht]
      intro t hin
      rcases hmem t hin with hin | rfl
      · exact hc t hin
      · exact ⟨code.params, 1, rfl⟩
    obtain ⟨fs, hend, hall, hcount⟩ := ih _ hc' hp
    have hpt := (prefix_foldl_addCode codes _).trans hp
    rw [ht] at hpt
    refine ⟨{ typeIdx := (m.addType (.ofCounts code.params 1)).1
              locals := List.replicate code.locals i64
              body := Instr.encodeAll code.body } :: fs, hend.trans ?_,
      .cons ⟨?_, rfl, rfl⟩ hall, hcount⟩
    · generalize (codes.foldl addCode _).types = end'
      rw [hw]
      simp
    · exact getElem?_of_prefix hpt (hidx (Nat.le_trans hpt.length_le hl))

/-! ## Programs -/

theorem forall₂_getElem? {α β : Type} {R : α → β → Prop} {xs : List α} {ys : List β}
    (h : List.Forall₂ R xs ys) {i : Nat} {x : α} (hx : xs[i]? = some x) :
    ∃ y, ys[i]? = some y ∧ R x y := by
  obtain ⟨hlt, rfl⟩ := List.getElem?_eq_some_iff.1 hx
  have hlt' : i < ys.length := h.length_eq ▸ hlt
  exact ⟨ys[i], List.getElem?_eq_getElem hlt', (List.forall₂_iff_get.1 h).2 i hlt hlt'⟩

/-- The program of a unit, in which the preamble functions `new` are linked. -/
structure Program.Built (u : CompUnit) (fns : List Defn) (depth : Nat) (new : List Reached)
    (p : Program) : Prop where
  layout : p.layout.Built u fns new
  functions : List.Forall₂ (fun f code =>
    functionCode { layout := p.layout, maxDepth := depth } f.defn = .ok code)
    p.layout.funcs p.functions
  entry : entryCode { layout := p.layout, maxDepth := depth } u.forms = .ok p.entry
  name : p.entryName = u.entrySymbol

theorem Program.ofUnit_built {u : CompUnit} {fns : List Defn} {depth : Nat} {p : Program}
    (h : Program.ofUnit u fns depth = .ok p) : ∃ new, p.Built u fns depth new := by
  rw [Program.ofUnit] at h
  obtain ⟨layout, hl, h⟩ := Except.bind_eq_ok h
  obtain ⟨functions, hf, h⟩ := Except.bind_eq_ok h
  obtain ⟨entry, he, h⟩ := Except.bind_eq_ok h
  cases h
  obtain ⟨new, hnew⟩ := Codegen.ofUnit_built hl
  exact ⟨new, hnew, mapM_eq_ok hf, he, rfl⟩

theorem functionCode_eq_ok {c : Context} {d : Defn} {code : Code}
    (h : functionCode c d = .ok code) :
    ∃ k, expr c 0 (paramSlots d.params) d.params.length d.body = .ok (code.body, k) ∧
      code.params = d.params.length ∧ code.locals = k - d.params.length := by
  rw [functionCode] at h
  obtain ⟨⟨body, k⟩, hb, h⟩ := Except.bind_eq_ok h
  cases h
  exact ⟨k, hb, rfl, rfl⟩

theorem entryCode_eq_ok {c : Context} {forms : List Node} {code : Code}
    (h : entryCode c forms = .ok code) :
    sequence c 0 [] 0 forms = .ok (code.body, code.locals) ∧ code.params = 0 := by
  rw [entryCode] at h
  obtain ⟨⟨body, k⟩, hb, h⟩ := Except.bind_eq_ok h
  cases h
  exact ⟨hb, rfl⟩

theorem below_paramSlots (params : List String) : Below (paramSlots params) params.length := by
  intro p hp
  rw [paramSlots, List.mem_reverse] at hp
  have := List.snd_lt_of_mem_zipIdx hp
  omega

namespace Program

/-- The code of all functions that the module defines, the entry last. -/
def codes (p : Program) : List Code := p.functions ++ [p.entry]

/-- The module as the machine has it. -/
def machine (p : Program) : Machine.Module :=
  .ofBinary p.toModule (p.codes.map (·.body))

variable {p : Program}

theorem toModule_spec (h : p.toModule.types.length ≤ 0x100000000) :
    List.Forall₂ (Stands p.toModule.types) p.layout.imports p.toModule.imports ∧
      List.Forall₂ (Realizes p.toModule.types) p.codes p.toModule.funcs ∧
      Counted p.toModule.types ∧ p.toModule.customs = [] := by
  let m := p.layout.imports.foldl addWanted {}
  have hcounted : Counted ({} : Binary.Module).types := fun t ht => absurd ht List.not_mem_nil
  have hpre : m.types <+: p.toModule.types := prefix_foldl_addCode p.codes m
  obtain ⟨is, hm, himports, hc⟩ :=
    foldl_addWanted p.layout.imports {} p.toModule.types hcounted hpre h
  obtain ⟨fs, hf, hfuncs, hc'⟩ :=
    foldl_addCode p.codes m p.toModule.types hc (List.prefix_refl _) h
  have hi : p.toModule.imports = is :=
    (congrArg Binary.Module.imports hf).trans (congrArg Binary.Module.imports hm)
  have hfs : p.toModule.funcs = fs := by
    have hnil : m.funcs = [] := congrArg Binary.Module.funcs hm
    refine (congrArg Binary.Module.funcs hf).trans ?_
    simp only [hnil, List.nil_append]
  have hcustoms : p.toModule.customs = [] :=
    (congrArg Binary.Module.customs hf).trans (congrArg Binary.Module.customs hm)
  rw [hi, hfs]
  exact ⟨himports, hfuncs, hc', hcustoms⟩

/-! ## What the indices of the module lead to -/

end Program

/-- The signature of a function import. -/
def Wanted.type? : Wanted → Option FuncType
  | .func _ _ params results => some (.ofCounts params results)
  | .global _ => none

/-- The type of all globals of generated modules. -/
def cellType : Binary.GlobalType := { valType := i64, mutable := true }

/-- The signatures of all functions of the module, the imported ones first. -/
def Program.signatures (p : Program) : List FuncType :=
  p.layout.imports.filterMap Wanted.type? ++ p.codes.map fun c => .ofCounts c.params 1

theorem Layout.map_type?_funcImports (l : Layout) :
    l.funcImports.map Wanted.type? = (l.imports.filterMap Wanted.type?).map some := by
  unfold funcImports
  induction l.imports with
  | nil => rfl
  | cons w ws ih => cases w <;> simp [List.filterMap_cons, Wanted.type?, ih]

theorem Layout.length_funcImports (l : Layout) :
    l.funcImports.length = (l.imports.filterMap Wanted.type?).length := by
  have h := congrArg List.length l.map_type?_funcImports
  simpa using h

/-- The signatures behind the imports of a module. -/
theorem mapM_importTypes {types : List FuncType} {ws : List Wanted} {is : List Binary.Import}
    (h : List.Forall₂ (Stands types) ws is) :
    (is.filterMap (·.desc.func?)).mapM (fun i => types[i]?) =
      some (ws.filterMap Wanted.type?) := by
  induction h with
  | nil => rfl
  | @cons w i ws is hw _ ih =>
    cases w with
    | func module name params results =>
      obtain ⟨t, rfl, ht⟩ := hw
      show (t.toNat :: is.filterMap (·.desc.func?)).mapM (fun i => types[i]?) = _
      rw [List.mapM_cons, ht, ih]
      rfl
    | global name =>
      cases hw
      simpa [List.filterMap_cons, Binary.ImportDesc.func?, Wanted.type?] using ih

/-- The signatures behind the functions of a module. -/
theorem mapM_funcTypes {types : List FuncType} {codes : List Code} {fs : List Binary.Func}
    (h : List.Forall₂ (Realizes types) codes fs) :
    (fs.map (·.typeIdx.toNat)).mapM (fun i => types[i]?) =
      some (codes.map fun c => .ofCounts c.params 1) := by
  induction h with
  | nil => rfl
  | cons hf _ ih =>
    simp only [List.map_cons, List.mapM_cons, hf.type, ih]
    rfl

/-- The types behind the imported globals of a module. -/
theorem importedGlobals_eq {types : List FuncType} {ws : List Wanted} {is : List Binary.Import}
    (h : List.Forall₂ (Stands types) ws is) :
    is.filterMap (·.desc.global?) =
      List.replicate (ws.filterMap Wanted.global?).length cellType := by
  induction h with
  | nil => rfl
  | @cons w i ws is hw _ ih =>
    cases w with
    | func module name params results =>
      obtain ⟨t, rfl, -⟩ := hw
      simpa [List.filterMap_cons, Binary.ImportDesc.global?, Wanted.global?] using ih
    | global name =>
      cases hw
      show cellType :: is.filterMap (·.desc.global?) =
        List.replicate ((ws.filterMap Wanted.global?).length + 1) cellType
      rw [ih, List.replicate_succ]

namespace Program

variable {p : Program} {u : CompUnit} {fns : List Defn} {depth : Nat} {new : List Reached}

theorem signatures?_machine (h : p.toModule.types.length ≤ 0x100000000) :
    p.machine.signatures? = some p.signatures := by
  obtain ⟨hi, hf, -, -⟩ := toModule_spec h
  have h₁ := mapM_importTypes hi
  have h₂ := mapM_funcTypes hf
  simp only [Machine.Module.signatures?, machine, Machine.Module.ofBinary, List.mapM_append]
  rw [h₁, h₂]
  rfl

theorem globalTypes_machine (h : p.toModule.types.length ≤ 0x100000000) :
    p.machine.globalTypes = List.replicate p.layout.globalNames.length cellType := by
  obtain ⟨hi, -, -, -⟩ := toModule_spec h
  have h₁ := importedGlobals_eq hi
  have h₂ : p.machine.globals.map (·.type) = List.replicate p.layout.globals.length cellType := by
    simp only [machine, Machine.Module.ofBinary, toModule, List.map_map]
    exact List.map_const' ..
  simp only [Machine.Module.globalTypes, Machine.Module.importedGlobals]
  rw [h₂]
  show List.filterMap _ p.toModule.imports ++ _ = _
  rw [h₁, Layout.globalNames, Layout.globalImports_eq, List.length_append, List.length_map,
    List.replicate_add]

/-- The size of a module bounds the counts of what its indices lead to. -/
theorem counts_le (h : p.toModule.types.length ≤ 0x100000000) :
    p.signatures.length + p.layout.globalNames.length ≤ p.toModule.encode.length := by
  obtain ⟨hi, hf, -, -⟩ := toModule_spec h
  have hc := p.toModule.count_le_length_encode
  have hli : p.layout.imports.length = p.toModule.imports.length := hi.length_eq
  have hlf : p.codes.length = p.toModule.funcs.length := hf.length_eq
  have hlg : p.toModule.globals.length = p.layout.globals.length := by simp [toModule]
  have hsplit : (p.layout.imports.filterMap Wanted.type?).length
      + (p.layout.imports.filterMap Wanted.global?).length = p.layout.imports.length := by
    induction p.layout.imports with
    | nil => rfl
    | cons w ws ih =>
      cases w <;> simp [List.filterMap_cons, Wanted.type?, Wanted.global?] <;> omega
  simp only [signatures, Layout.globalNames, Layout.globalImports_eq, List.length_append,
    List.length_map]
  omega

/-! ## Bodies -/

/-- The code of a function leaves one integer. -/
theorem Built.moves (h : p.Built u fns depth new) {code : Code} (hc : code ∈ p.codes)
    {t : Machine.Context} (ht : Suits p.layout (code.params + code.locals) t) : Moves t 0 code.body 1 := by
  rcases List.mem_append.1 hc with hc | hc
  · obtain ⟨i, hi, rfl⟩ := List.getElem_of_mem hc
    have hlen := h.functions.length_eq
    have hf := List.forall₂_iff_get.1 h.functions |>.2 i (by omega) hi
    obtain ⟨k, hk, hparams, hlocals⟩ := functionCode_eq_ok hf
    simp only [List.get_eq_getElem] at hk hparams hlocals
    have hle := (expr_locals hk).1
    have hin : p.layout.funcs[i] ∈ p.layout.funcs := List.getElem_mem _
    refine expr_moves hk ht (fun m hm => ?_) (below_paramSlots _) (by omega)
    exact h.layout.places m (h.layout.body_subset hin hm)
  · rw [List.mem_singleton] at hc
    subst hc
    obtain ⟨hs, hp⟩ := entryCode_eq_ok h.entry
    refine sequence_moves hs ht (fun m hm => ?_) (fun q hq => absurd hq List.not_mem_nil) (by omega)
    obtain ⟨n, hn, hm⟩ := Node.mem_flattenAll.1 hm
    exact h.layout.places m (Layout.Built.form_subset hn hm)

/-- The locals of a function are no more than the bytes of its body. -/
theorem Built.locals_le (h : p.Built u fns depth new) {code : Code} (hc : code ∈ p.codes) :
    code.locals ≤ (Instr.encodeAll code.body).length := by
  rcases List.mem_append.1 hc with hc | hc
  · obtain ⟨i, hi, rfl⟩ := List.getElem_of_mem hc
    have hlen := h.functions.length_eq
    have hf := List.forall₂_iff_get.1 h.functions |>.2 i (by omega) hi
    obtain ⟨k, hk, hparams, hlocals⟩ := functionCode_eq_ok hf
    have hle := (expr_locals hk).2
    simp only [List.get_eq_getElem, bytesOf] at hle hlocals
    omega
  · rw [List.mem_singleton] at hc
    subst hc
    have hle := (sequence_locals (entryCode_eq_ok h.entry).1).2
    simpa [bytesOf] using hle

/-- The signature of a function that the layout places. -/
theorem Built.signature_func (h : p.Built u fns depth new) {i : Nat} {f : Linked}
    (hf : p.layout.funcs[i]? = some f) :
    p.signatures[p.layout.funcImports.length + i]? = some (.ofCounts f.defn.params.length 1) := by
  obtain ⟨code, hcode, hfun⟩ := forall₂_getElem? h.functions hf
  obtain ⟨k, -, hparams, -⟩ := functionCode_eq_ok hfun
  have hi : i < p.functions.length := (List.getElem?_eq_some_iff.1 hcode).1
  rw [signatures, p.layout.length_funcImports, List.getElem?_append_right (Nat.le_add_right _ _),
    Nat.add_sub_cancel_left, List.getElem?_map, codes, List.getElem?_append_left hi, hcode,
    Option.map_some, hparams]

theorem Built.signature_entry (h : p.Built u fns depth new) :
    p.signatures[p.layout.funcImports.length + p.layout.funcs.length]? =
      some (.ofCounts 0 1) := by
  have hlen := h.functions.length_eq
  obtain ⟨-, hparams⟩ := entryCode_eq_ok h.entry
  rw [signatures, p.layout.length_funcImports, List.getElem?_append_right (Nat.le_add_right _ _),
    Nat.add_sub_cancel_left, hlen]
  simp [codes, hparams]

/-- The signature of an imported function. -/
theorem Built.signature_import (h : p.Built u fns depth new) {module name : String}
    {params results : Nat} (hin : .func module name params results ∈ p.layout.imports) :
    p.signatures[p.layout.importIndex module name]? = some (.ofCounts params results) := by
  have hi := h.layout.tidy.importIndex_spec hin
  have hlt := (List.getElem?_eq_some_iff.1 hi).1
  have ht := congrArg (·[p.layout.importIndex module name]?) p.layout.map_type?_funcImports
  simp only [List.getElem?_map, hi, Option.map_some] at ht
  rw [signatures, List.getElem?_append_left (p.layout.length_funcImports ▸ hlt)]
  cases hs : (p.layout.imports.filterMap Wanted.type?)[p.layout.importIndex module name]? with
  | none => rw [hs] at ht; cases ht
  | some t =>
    rw [hs] at ht
    exact congrArg some (Option.some.inj (Option.some.inj ht)).symm

/-- The indices of a layout lead to what they should in its module. -/
theorem Built.suits (h : p.Built u fns depth new) (hsize : p.toModule.encode.length < 0x100000000)
    {total : Nat} (htotal : total ≤ 0x100000000) {t : Machine.Context} (hf : t.funcs = p.signatures)
    (hg : t.globals = p.machine.globalTypes) (hl : t.locals = List.replicate total i64) :
    Suits p.layout total t := by
  have hcount := p.toModule.count_le_length_encode
  have htypes : p.toModule.types.length ≤ 0x100000000 := by omega
  have hcounts := counts_le htypes
  rw [globalTypes_machine htypes] at hg
  refine ⟨h.layout.length_keys, ?_, ?_, ?_, hl, ?_, ?_, htotal⟩
  · intro module name params results hin
    rw [hf]
    exact h.signature_import hin
  · intro i f hi
    rw [hf]
    exact h.signature_func hi
  · intro name hin
    rw [hg, List.getElem?_replicate, if_pos]
    · rfl
    · exact (List.getElem?_eq_some_iff.1 (Layout.globalIndex_spec hin)).1
  · rw [hf]
    omega
  · rw [hg, List.length_replicate]
    omega

/-- The parameters and locals of a function are no more than 32 bits count. -/
theorem Built.locals_lt (h : p.Built u fns depth new)
    (hsize : p.toModule.encode.length < 0x100000000) {code : Code} (hc : code ∈ p.codes) :
    code.params + code.locals < 0x100000000 := by
  have hcount := p.toModule.count_le_length_encode
  obtain ⟨-, hf, -, -⟩ := toModule_spec (p := p) (by omega)
  obtain ⟨i, hi, rfl⟩ := List.getElem_of_mem hc
  obtain ⟨f, hfi, hr⟩ := forall₂_getElem? hf (List.getElem?_eq_getElem hi)
  have hle := p.toModule.length_params_add_body_le (List.mem_of_getElem? hr.type)
    (List.mem_of_getElem? hfi)
  have hlocals := h.locals_le hc
  rw [hr.body] at hle
  simp only [FuncType.ofCounts, List.length_replicate] at hle
  omega

/-- The exports: functions of the unit, data symbols, and the entry. -/
theorem mem_exports {e : Binary.Export} :
    e ∈ p.exports ↔
      (∃ i f, p.layout.funcs[i]? = some f ∧ f.exported = true ∧
        e = { name := f.defn.qualified, kind := Binary.kindFunc
              index := UInt32.ofNat (p.layout.funcImports.length + i) }) ∨
      (∃ i g, p.layout.globals[i]? = some g ∧
        e = { name := g.1, kind := Binary.kindGlobal
              index := UInt32.ofNat (p.layout.globalImports.length + i) }) ∨
      e = { name := p.entryName, kind := Binary.kindFunc
            index := UInt32.ofNat (p.layout.funcImports.length + p.layout.funcs.length) } := by
  simp only [exports, List.mem_append, List.mem_filterMap, List.mem_map, List.mem_singleton,
    or_assoc]
  constructor
  · rintro (⟨⟨f, i⟩, hf, he⟩ | ⟨⟨g, i⟩, hg, rfl⟩ | rfl)
    · dsimp only at he
      split at he
      · rename_i hexp
        cases he
        exact .inl ⟨i, f, List.mk_mem_zipIdx_iff_getElem?.1 hf, hexp, rfl⟩
      · cases he
    · exact .inr (.inl ⟨i, g, List.mk_mem_zipIdx_iff_getElem?.1 hg, rfl⟩)
    · exact .inr (.inr rfl)
  · rintro (⟨i, f, hf, hexp, rfl⟩ | ⟨i, g, hg, rfl⟩ | rfl)
    · refine .inl ⟨(f, i), List.mk_mem_zipIdx_iff_getElem?.2 hf, ?_⟩
      dsimp only
      rw [if_pos hexp]
    · exact .inr (.inl ⟨(g, i), List.mk_mem_zipIdx_iff_getElem?.2 hg, rfl⟩)
    · exact .inr (.inr rfl)

/-- A walk over the exports is one over the unit's own functions, one over the data symbols, and the
entry. -/
theorem filterMap_exports {β : Type} (p : Program) (f : Binary.Export → Option β) :
    p.exports.filterMap f =
      (p.layout.funcs.zipIdx.filterMap fun x =>
        if x.1.exported then
          f { name := x.1.defn.qualified, kind := Binary.kindFunc
              index := UInt32.ofNat (p.layout.funcImports.length + x.2) }
        else none) ++
      (p.layout.globals.zipIdx.filterMap fun x =>
        f { name := x.1.1, kind := Binary.kindGlobal
            index := UInt32.ofNat (p.layout.globalImports.length + x.2) }) ++
      [{ name := p.entryName, kind := Binary.kindFunc
         index := UInt32.ofNat (p.layout.funcImports.length + p.layout.funcs.length) }].filterMap
        f := by
  simp only [exports, List.filterMap_append, List.filterMap_filterMap, List.filterMap_map]
  congr 2
  refine List.filterMap_congr fun x _ => ?_
  split <;> rfl

/-- The module of a program can be written, whatever sections go with it. -/
theorem Built.writable (h : p.Built u fns depth new) {customs : List Binary.Custom}
    (hsize : { p.toModule with customs }.encode.length < 0x100000000)
    (hle : p.toModule.encode.length ≤ { p.toModule with customs }.encode.length) :
    Machine.Writable { p.toModule with customs } (p.codes.map (·.body)) := by
  have hcount := p.toModule.count_le_length_encode
  obtain ⟨hi, hf, hc, -⟩ := toModule_spec (p := p) (by omega)
  refine ⟨hsize, ?_, ?_, ?_, ?_, ?_, ?_, ?_⟩
  · intro t ht
    obtain ⟨params, results, rfl⟩ := hc t ht
    simp only [FuncType.ofCounts, List.all_eq_true, List.mem_append, List.mem_replicate]
    rintro v (⟨-, rfl⟩ | ⟨-, rfl⟩) <;> rfl
  · intro i hin
    obtain ⟨j, hj, rfl⟩ := List.getElem_of_mem hin
    obtain ⟨w, -, hw⟩ := forall₂_getElem? hi.flip (List.getElem?_eq_getElem hj)
    cases w with
    | func module name params results =>
      obtain ⟨t, ht, -⟩ := hw
      rw [ht]
      trivial
    | global name =>
      rw [show p.toModule.imports[j] = _ from hw]
      rfl
  · show p.toModule.funcs.map (·.body) = _
    rw [List.map_map, ← List.forall₂_eq_eq_eq, List.forall₂_map_left_iff,
      List.forall₂_map_right_iff]
    exact hf.flip.imp fun f code hr => hr.body
  · intro body hb
    obtain ⟨code, hcode, rfl⟩ := List.mem_map.1 hb
    have hlt := h.locals_lt (by omega) hcode
    let t : Machine.Context :=
      { types := [], funcs := p.signatures, globals := p.machine.globalTypes
        locals := List.replicate (code.params + code.locals) i64 }
    exact (h.moves hcode (h.suits (t := t) (by omega) (by omega) rfl rfl rfl)).fits
  · intro f hin
    obtain ⟨j, hj, rfl⟩ := List.getElem_of_mem hin
    obtain ⟨code, hcode, hr⟩ := forall₂_getElem? hf.flip (List.getElem?_eq_getElem hj)
    have hlt := h.locals_lt (by omega) (List.mem_of_getElem? hcode)
    rw [hr.locals]
    refine ⟨by rw [List.length_replicate]; omega, ?_⟩
    rw [List.all_eq_true]
    intro v hv
    rw [(List.mem_replicate.1 hv).2]
    rfl
  · intro g hg
    obtain ⟨q, -, rfl⟩ := List.mem_map.1 (show g ∈ p.layout.globals.map _ from hg)
    rfl
  · intro e he
    rcases mem_exports.1 he with ⟨i, f, -, -, rfl⟩ | ⟨i, g, -, rfl⟩ | rfl
    · show Binary.kindFunc ≤ 3
      decide
    · show Binary.kindGlobal ≤ 3
      decide
    · show Binary.kindFunc ≤ 3
      decide

end Program

/-! ## Generated modules -/

/-- The module of a program with its manifest. -/
def Program.withManifest (p : Program) (m : Manifest) : Binary.Module :=
  { p.toModule with
    customs := p.toModule.customs ++ [{ name := Manifest.sectionName, data := m.encode }] }

theorem Program.length_encode_le (p : Program) (m : Manifest) :
    p.toModule.encode.length ≤ (p.withManifest m).encode.length := by
  simp only [Binary.Module.encode, withManifest, List.flatMap_append, List.length_append]
  omega

theorem generate_eq_ok {u : CompUnit} {fns : List Defn} {maxDepth : Int} {g : Generated}
    (h : generate u fns maxDepth = .ok g) :
    ∃ p, Program.ofUnit u fns (effectiveDepth maxDepth) = .ok p ∧
      g.manifest = manifestOf u p.layout ∧ g.module = p.withManifest g.manifest := by
  rw [generate] at h
  obtain ⟨p, hp, h⟩ := Except.bind_eq_ok h
  cases h
  exact ⟨p, hp, rfl, rfl⟩

/-- The binary of a generated module is decoded to the module as the machine has it. -/
theorem Program.Built.decode?_encode {p : Program} {u : CompUnit} {fns : List Defn} {depth : Nat}
    {new : List Reached} (h : p.Built u fns depth new) (m : Manifest)
    (hsize : (p.withManifest m).encode.length < 0x100000000) :
    Machine.Module.decode? (p.withManifest m).encode = some p.machine :=
  Machine.Module.decode?_encode (h.writable hsize (p.length_encode_le m))

end WasmLisp.Codegen
