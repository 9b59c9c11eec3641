import Mathlib
import WasmLisp.Proofs.Codegen.Valid
import WasmLisp.Proofs.Machine.Instantiate

/-!
# Instances of generated modules, wherever their imports come from

* `LinkedAs`: what an import of a layout is linked to if its modules are others;
* `Placed`: what the indices and the exports of an instance of a program's module lead to;
* `placed_of_instantiate?`: every instance is so, and there is one if everything that the layout wants
  is provided (`instantiate?_isSome`).
-/

namespace WasmLisp.Codegen

open Machine (Instr Store Extern Callee Cell)
open Artifact (envModule varModule varDefModule)
open Binary (i64 FuncType)

variable {η : Type} {p : Program} {u : CompUnit} {fns : List Defn} {depth : Nat}
  {new : List Reached} {target : String → String → String} {s s' : Store η}

/-! ## Imports -/

/-- What an import is linked to: something of its kind and its type, which a live instance of its
module's name exports. -/
def LinkedAs (target : String → String → String) (s : Store η) : Wanted → Extern → Prop
  | .func module name params results, .func a =>
    s.export? (target module name) name = some (.func a) ∧
      (s.funcs[a]?).map Callee.type = some (.ofCounts params results)
  | .global name, .global a =>
    s.export? (target envModule name) name = some (.global a) ∧
      (s.globals[a]?).map Cell.type = some cellType
  | _, _ => False

theorem linkImport?_redirect {types : List FuncType} {m : Machine.Module} (hm : m.types = types)
    {w : Wanted} {i : Binary.Import} {e : Extern} (hw : Stands types w i) :
    s.linkImport? m (i.redirect target) = some e ↔ LinkedAs target s w e := by
  cases w with
  | func module name params results =>
    obtain ⟨t, rfl, ht⟩ := hw
    simp only [Store.linkImport?, Binary.Import.redirect, hm, bind, Option.bind_eq_some_iff]
    constructor
    · rintro ⟨ext, hext, h⟩
      cases ext with
      | func a =>
        dsimp only at h
        split at h
        · rename_i htype
          cases h
          exact ⟨hext, htype.trans ht⟩
        · cases h
      | global a => cases h
    · intro h
      cases e with
      | func a => exact ⟨.func a, h.1, if_pos (h.2.trans ht.symm)⟩
      | global a => exact h.elim
  | global name =>
    cases hw
    simp only [Store.linkImport?, Binary.Import.redirect, bind, Option.bind_eq_some_iff]
    constructor
    · rintro ⟨ext, hext, h⟩
      cases ext with
      | func a => cases h
      | global a =>
        dsimp only at h
        split at h
        · rename_i htype
          cases h
          exact ⟨hext, htype⟩
        · cases h
    · intro h
      cases e with
      | func a => exact h.elim
      | global a => exact ⟨.global a, h.1, if_pos h.2⟩

theorem forall₂_comp {α β γ : Type} {R : α → β → Prop} {S : β → γ → Prop} {xs : List α}
    {ys : List β} {zs : List γ} (h : List.Forall₂ R xs ys) (h' : List.Forall₂ S ys zs) :
    List.Forall₂ (fun x z => ∃ y, R x y ∧ S y z) xs zs := by
  induction h generalizing zs with
  | nil =>
    cases h'
    exact .nil
  | cons hr _ ih =>
    cases h' with
    | cons hs hrest => exact .cons ⟨_, hr, hs⟩ (ih hrest)

/-- The addresses of the imported functions and globals. -/
theorem linked_addresses {l : Layout} {linked : List Extern}
    (h : List.Forall₂ (LinkedAs target s) l.imports linked) :
    List.Forall₂ (fun w a => LinkedAs target s w (.func a)) l.funcImports
        (linked.filterMap Extern.func?) ∧
      List.Forall₂ (fun name a => LinkedAs target s (.global name) (.global a)) l.globalImports
        (linked.filterMap Extern.global?) := by
  unfold Layout.funcImports Layout.globalImports
  generalize l.imports = ws at h ⊢
  induction h with
  | nil => exact ⟨.nil, .nil⟩
  | @cons w e ws linked hhead _ ih =>
    cases w with
    | func module name params results =>
      cases e with
      | func a => exact ⟨.cons hhead ih.1, ih.2⟩
      | global a => exact hhead.elim
    | global name =>
      cases e with
      | func a => exact hhead.elim
      | global a => exact ⟨ih.1, .cons hhead ih.2⟩

/-! ## Instances -/

/-- What an export leads to in an instance. -/
def exported? (inst : Machine.Instance) (e : Binary.Export) : Option (String × Extern) :=
  if e.kind = Binary.kindFunc then
    (inst.funcs.toList[e.index.toNat]?).map fun a => (e.name, Extern.func a)
  else (inst.globals.toList[e.index.toNat]?).map fun a => (e.name, Extern.global a)

/-- What the indices and the exports of an instance of a program's module lead to, in the store that
it was added to. -/
structure Placed (p : Program) (target : String → String → String) (name : String)
    (s s' : Store η) (inst : Machine.Instance) : Prop where
  name : inst.name = name
  live : inst.live = true
  instances : s'.instances = s.instances.push inst
  imports : ∀ module name params results, .func module name params results ∈ p.layout.imports →
    ∃ a callee, s.export? (target module name) name = some (.func a) ∧
      inst.funcs[p.layout.importIndex module name]? = some a ∧
      s.funcs[a]? = some callee ∧ callee.type = .ofCounts params results
  funcs : ∀ i code, p.codes[i]? = some code →
    inst.funcs[p.layout.funcImports.length + i]? = some (s.funcs.size + i) ∧
      ∃ k, s'.funcs[s.funcs.size + i]? = some (.code s.instances.size k
        (.ofCounts code.params 1) code.locals code.body)
  globalImports : ∀ name, .global name ∈ p.layout.imports →
    ∃ a, s.export? (target envModule name) name = some (.global a) ∧ a < s.globals.size ∧
      inst.globals[p.layout.globalImports.idxOf name]? = some a
  globals : ∀ i g, p.layout.globals[i]? = some g →
    inst.globals[p.layout.globalImports.length + i]? = some (s.globals.size + i) ∧
      s'.globals[s.globals.size + i]? = some { type := cellType, value := g.2 }
  exports : inst.exports = p.exports.filterMap (exported? inst)

theorem placed_of_instantiate? {name : String} (h : p.Built u fns depth new)
    (hsize : p.toModule.encode.length < 0x100000000)
    (hs : s.instantiate? (p.machine.redirect target) name = some s') :
    ∃ inst, Placed p target name s s' inst := by
  obtain ⟨linked, inst, ha⟩ := Store.added_of_instantiate? hs
  obtain ⟨hi, hf, -, -⟩ := Program.toModule_spec (Program.length_types_le hsize)
  have hlinks : List.Forall₂ (LinkedAs target s) p.layout.imports linked := by
    have hall := ha.links
    rw [show (p.machine.redirect target).imports =
      p.toModule.imports.map (Binary.Import.redirect target) from rfl,
      List.forall₂_map_left_iff] at hall
    exact (forall₂_comp hi hall).imp fun w e ⟨i, hw, he⟩ => (linkImport?_redirect rfl hw).1 he
  obtain ⟨hfuncs, hglobals⟩ := linked_addresses hlinks
  have hcodes : (p.machine.funcTypes.zip p.machine.code).length = p.codes.length := by
    rw [List.length_zip, Program.length_funcTypes_machine hsize, Program.code_machine hsize,
      List.length_map, Nat.min_self]
  have hown : p.machine.globals.length = p.layout.globals.length := by
    simp [Program.machine, Machine.Module.ofBinary, Program.toModule]
  refine ⟨inst, ha.name, ha.live, ha.instances, ?_, ?_, ?_, ?_, ha.exports⟩
  · intro module name params results hin
    obtain ⟨a, ha', hexp, htype⟩ :=
      forall₂_getElem? hfuncs (h.layout.tidy.importIndex_spec hin)
    obtain ⟨callee, hcallee, htype⟩ := Option.map_eq_some_iff.1 htype
    refine ⟨a, callee, hexp, ?_, hcallee, htype⟩
    rw [← Array.getElem?_toList, ha.funcAddresses,
      List.getElem?_append_left (List.getElem?_eq_some_iff.1 ha').1, ha']
  · intro i code hcode
    have hlt : i < p.codes.length := (List.getElem?_eq_some_iff.1 hcode).1
    obtain ⟨f, hfi, hr⟩ := forall₂_getElem? hf hcode
    refine ⟨?_, (linked.filterMap Extern.func?).length + i, ?_⟩
    · rw [← Array.getElem?_toList, ha.funcAddresses, hfuncs.length_eq,
        List.getElem?_append_right (Nat.le_add_right _ _), Nat.add_sub_cancel_left,
        List.getElem?_map, List.getElem?_range (hcodes ▸ hlt), Option.map_some]
    · have hzip : (p.machine.funcTypes.zip p.machine.code)[i]? =
          some (f.typeIdx.toNat, List.replicate code.locals i64, code.body) := by
        rw [List.getElem?_zip_eq_some]
        refine ⟨?_, ?_⟩
        · show (p.toModule.funcs.map (·.typeIdx.toNat))[i]? = _
          rw [List.getElem?_map, hfi, Option.map_some]
        · rw [Program.code_machine hsize, List.getElem?_map, hcode, Option.map_some]
      rw [ha.funcs, Array.getElem?_append_right (Nat.le_add_right _ _), Nat.add_sub_cancel_left,
        List.getElem?_toArray, Store.callees, List.getElem?_map, List.getElem?_zipIdx]
      rw [show ((p.machine.redirect target).funcTypes.zip (p.machine.redirect target).code)[i]? = _
        from hzip]
      simp only [Option.map_some, Nat.zero_add, List.length_replicate,
        show (p.machine.redirect target).types[f.typeIdx.toNat]? = _ from hr.type, Option.getD_some]
  · intro name hin
    have hmem : name ∈ p.layout.globalImports := Layout.mem_globalImports.2 hin
    have hlt := List.idxOf_lt_length_of_mem hmem
    obtain ⟨a, ha', hexp, htype⟩ := forall₂_getElem? hglobals
      (show p.layout.globalImports[p.layout.globalImports.idxOf name]? = some name by
        rw [List.getElem?_eq_getElem hlt, List.getElem_idxOf hlt])
    obtain ⟨cell, hcell, -⟩ := Option.map_eq_some_iff.1 htype
    refine ⟨a, hexp, (Array.getElem?_eq_some_iff.1 hcell).1, ?_⟩
    rw [← Array.getElem?_toList, ha.globalAddresses,
      List.getElem?_append_left (List.getElem?_eq_some_iff.1 ha').1, ha']
  · intro i g hg
    have hlt : i < p.layout.globals.length := (List.getElem?_eq_some_iff.1 hg).1
    constructor
    · rw [← Array.getElem?_toList, ha.globalAddresses, hglobals.length_eq,
        List.getElem?_append_right (Nat.le_add_right _ _), Nat.add_sub_cancel_left,
        List.getElem?_map, List.getElem?_range (by rw [← hown] at hlt; exact hlt), Option.map_some]
    · rw [ha.globals, Array.getElem?_append_right (Nat.le_add_right _ _), Nat.add_sub_cancel_left]
      simp [Machine.Module.redirect, Program.machine, Machine.Module.ofBinary, Program.toModule, hg,
        Store.initValue, cellType]

/-- There is an instance if all that the layout wants is provided. -/
theorem instantiate?_isSome (hsize : p.toModule.encode.length < 0x100000000)
    (h : ∀ w ∈ p.layout.imports, ∃ e, LinkedAs target s w e) (name : String) :
    ∃ s', s.instantiate? (p.machine.redirect target) name = some s' := by
  obtain ⟨hi, -, -, -⟩ := Program.toModule_spec (Program.length_types_le hsize)
  have hlink : ∀ i ∈ (p.machine.redirect target).imports,
      ∃ e, s.linkImport? (p.machine.redirect target) i = some e := by
    intro i hin
    obtain ⟨j, hj, rfl⟩ := List.mem_map.1 hin
    obtain ⟨k, hk, rfl⟩ := List.getElem_of_mem hj
    obtain ⟨w, hw, hstands⟩ := forall₂_getElem? hi.flip (List.getElem?_eq_getElem hk)
    have hstands : Stands p.toModule.types w p.machine.imports[k] := hstands
    obtain ⟨e, he⟩ := h w (List.mem_of_getElem? hw)
    exact ⟨e, (linkImport?_redirect rfl hstands).2 he⟩
  have hall : ∃ linked, (p.machine.redirect target).imports.mapM
      (s.linkImport? (p.machine.redirect target)) = some linked := by
    generalize (p.machine.redirect target).imports = is at hlink
    induction is with
    | nil => exact ⟨[], rfl⟩
    | cons i is ih =>
      obtain ⟨e, he⟩ := hlink i List.mem_cons_self
      obtain ⟨es, hes⟩ := ih fun j hj => hlink j (List.mem_cons_of_mem _ hj)
      exact ⟨e :: es, by simp [he, hes]⟩
  obtain ⟨linked, hlinked⟩ := hall
  exact ⟨_, by simp only [Store.instantiate?, hlinked, bind, Option.bind_some]; rfl⟩

/-! ## Exports -/

theorem lookup_of_mem {α : Type} {l : List (String × α)} (hnodup : (l.map (·.1)).Nodup) {k : String}
    {v : α} (h : (k, v) ∈ l) : l.lookup k = some v := by
  induction l with
  | nil => cases h
  | cons entry l ih =>
    obtain ⟨k', v'⟩ := entry
    obtain ⟨hfresh, hnodup⟩ := List.nodup_cons.1 hnodup
    rw [List.lookup_cons]
    rcases List.mem_cons.1 h with heq | hmem
    · cases heq
      simp
    · have hne : (k == k') = false := by
        rw [beq_eq_false_iff_ne]
        rintro rfl
        exact hfresh (List.mem_map.2 ⟨_, hmem, rfl⟩)
      rw [hne]
      exact ih hnodup hmem

theorem fst_exported? {inst : Machine.Instance} {e : Binary.Export} {x : String × Extern}
    (h : exported? inst e = some x) : x.1 = e.name := by
  unfold exported? at h
  split at h
  all_goals
    obtain ⟨a, -, rfl⟩ := Option.map_eq_some_iff.1 h
    rfl

theorem sublist_exported (inst : Machine.Instance) (es : List Binary.Export) :
    ((es.filterMap (exported? inst)).map (·.1)).Sublist (es.map (·.name)) := by
  induction es with
  | nil => exact .slnil
  | cons e es ih =>
    cases hx : exported? inst e with
    | none =>
      rw [List.filterMap_cons_none hx]
      exact .cons _ ih
    | some x =>
      rw [List.filterMap_cons_some hx, List.map_cons, List.map_cons, fst_exported? hx]
      exact .cons_cons _ ih

theorem Program.Built.length_signatures (h : p.Built u fns depth new) :
    p.signatures.length = p.layout.funcImports.length + p.layout.funcs.length + 1 := by
  have hlen := h.functions.length_eq
  simp only [Program.signatures, Program.codes, List.length_append, List.length_map,
    List.length_singleton, p.layout.length_funcImports]
  omega

/-- At the place of a function is its code. -/
theorem Program.Built.code_of_func (h : p.Built u fns depth new) {i : Nat} {f : Linked}
    (hf : p.layout.funcs[i]? = some f) : ∃ code, p.codes[i]? = some code ∧
      functionCode { layout := p.layout, maxDepth := depth } f.defn = .ok code := by
  obtain ⟨code, hcode, hfunction⟩ := forall₂_getElem? h.functions hf
  refine ⟨code, ?_, hfunction⟩
  rw [Program.codes, List.getElem?_append_left (List.getElem?_eq_some_iff.1 hcode).1, hcode]

namespace Placed

variable {name : String} {inst : Machine.Instance}

/-- An export of the module is found in the instance. -/
theorem lookup_exports (h : Placed p target name s s' inst)
    (hnodup : (p.exports.map (·.name)).Nodup) {e : Binary.Export} (he : e ∈ p.exports)
    {x : String × Extern} (hx : exported? inst e = some x) :
    inst.exports.lookup e.name = some x.2 := by
  have hmem : (e.name, x.2) ∈ inst.exports := by
    rw [h.exports, ← fst_exported? hx]
    exact List.mem_filterMap.2 ⟨e, he, hx⟩
  refine lookup_of_mem ?_ hmem
  rw [h.exports]
  exact hnodup.sublist (sublist_exported inst p.exports)

/-- What an export of the function of a place leads to. -/
theorem exported?_func (h : Placed p target name s s' inst) (hb : p.Built u fns depth new)
    (hsize : p.toModule.encode.length < 0x100000000) {i : Nat} {f : Linked}
    (hf : p.layout.funcs[i]? = some f) (x : String) :
    exported? inst { name := x, kind := Binary.kindFunc
                     index := UInt32.ofNat (p.layout.funcImports.length + i) } =
      some (x, .func (s.funcs.size + i)) := by
  have hcount := Program.counts_le (Program.length_types_le hsize)
  have hsig := hb.length_signatures
  have hi : i < p.layout.funcs.length := (List.getElem?_eq_some_iff.1 hf).1
  obtain ⟨code, hcode, -⟩ := hb.code_of_func hf
  have hindex : (UInt32.ofNat (p.layout.funcImports.length + i)).toNat =
      p.layout.funcImports.length + i := by
    rw [UInt32.toNat_ofNat', Nat.mod_eq_of_lt (by omega)]
  simp only [exported?, if_true, hindex, Array.getElem?_toList, (h.funcs i code hcode).1,
    Option.map_some]

/-- The function of a place is found under its name, unless it is one of the preamble. -/
theorem lookup_func (h : Placed p target name s s' inst) (hb : p.Built u fns depth new)
    (hsize : p.toModule.encode.length < 0x100000000) (hnodup : (p.exports.map (·.name)).Nodup)
    {i : Nat} {f : Linked} (hf : p.layout.funcs[i]? = some f) (hexported : f.exported = true) :
    inst.exports.lookup f.defn.qualified = some (.func (s.funcs.size + i)) :=
  h.lookup_exports hnodup (Program.mem_exports.2 (.inl ⟨i, f, hf, hexported, rfl⟩))
    (h.exported?_func hb hsize hf _)

/-- The data symbol of a place is found under its name. -/
theorem lookup_global (h : Placed p target name s s' inst)
    (hsize : p.toModule.encode.length < 0x100000000) (hnodup : (p.exports.map (·.name)).Nodup)
    {i : Nat} {g : String × Int64} (hg : p.layout.globals[i]? = some g) :
    inst.exports.lookup g.1 = some (.global (s.globals.size + i)) := by
  have hcount := Program.counts_le (Program.length_types_le hsize)
  have hnames : p.layout.globalNames.length =
      p.layout.globalImports.length + p.layout.globals.length := by simp [Layout.globalNames]
  have hi : i < p.layout.globals.length := (List.getElem?_eq_some_iff.1 hg).1
  have hmem := Program.mem_exports.2 (.inr (.inl ⟨i, g, hg, rfl⟩))
  have hindex : (UInt32.ofNat (p.layout.globalImports.length + i)).toNat =
      p.layout.globalImports.length + i := by
    rw [UInt32.toNat_ofNat', Nat.mod_eq_of_lt (by omega)]
  refine h.lookup_exports hnodup hmem (x := (g.1, .global (s.globals.size + i))) ?_
  simp only [exported?, show Binary.kindGlobal ≠ Binary.kindFunc by decide, if_false, hindex,
    Array.getElem?_toList, (h.globals i g hg).1, Option.map_some]

/-- The entry is found under its name. -/
theorem exported?_entry (h : Placed p target name s s' inst) (hb : p.Built u fns depth new)
    (hsize : p.toModule.encode.length < 0x100000000) :
    exported? inst { name := p.entryName, kind := Binary.kindFunc
                     index := UInt32.ofNat (p.layout.funcImports.length + p.layout.funcs.length) } =
      some (p.entryName, .func (s.funcs.size + p.functions.length)) := by
  have hcount := Program.counts_le (Program.length_types_le hsize)
  have hsig := hb.length_signatures
  have hlen := hb.functions.length_eq
  have hcode : p.codes[p.functions.length]? = some p.entry := by simp [Program.codes]
  have hindex : (UInt32.ofNat (p.layout.funcImports.length + p.layout.funcs.length)).toNat =
      p.layout.funcImports.length + p.functions.length := by
    rw [UInt32.toNat_ofNat', Nat.mod_eq_of_lt (by omega), hlen]
  simp only [exported?, if_true, hindex, Array.getElem?_toList, (h.funcs _ _ hcode).1,
    Option.map_some]

theorem lookup_entry (h : Placed p target name s s' inst) (hb : p.Built u fns depth new)
    (hsize : p.toModule.encode.length < 0x100000000) (hnodup : (p.exports.map (·.name)).Nodup) :
    inst.exports.lookup p.entryName = some (.func (s.funcs.size + p.functions.length)) :=
  h.lookup_exports hnodup (Program.mem_exports.2 (.inr (.inr rfl))) (h.exported?_entry hb hsize)

/-- Whatever function is found under a name, it has one result. -/
theorem results_of_lookup (h : Placed p target name s s' inst) (hb : p.Built u fns depth new)
    (hsize : p.toModule.encode.length < 0x100000000) {x : String} {a : Nat}
    (hx : inst.exports.lookup x = some (.func a)) :
    ∃ callee, s'.funcs[a]? = some callee ∧ callee.type.results.length = 1 := by
  have hcallee : ∀ i code, p.codes[i]? = some code → ∃ callee,
      s'.funcs[s.funcs.size + i]? = some callee ∧ callee.type.results.length = 1 := by
    intro i code hcode
    obtain ⟨-, k, hfound⟩ := h.funcs i code hcode
    exact ⟨_, hfound, List.length_replicate⟩
  obtain ⟨before, after, hsplit, -⟩ := List.lookup_eq_some_iff.1 hx
  have hmem : (x, Extern.func a) ∈ p.exports.filterMap (exported? inst) := by
    rw [← h.exports, hsplit]
    simp
  obtain ⟨e, he, hexport⟩ := List.mem_filterMap.1 hmem
  rcases Program.mem_exports.1 he with ⟨i, f, hf, -, rfl⟩ | ⟨i, g, -, rfl⟩ | rfl
  · obtain ⟨code, hcode, -⟩ := hb.code_of_func hf
    rw [h.exported?_func hb hsize hf] at hexport
    cases hexport
    exact hcallee i code hcode
  · rw [exported?, if_neg (show Binary.kindGlobal ≠ Binary.kindFunc by decide)] at hexport
    obtain ⟨b, -, heq⟩ := Option.map_eq_some_iff.1 hexport
    cases heq
  · rw [h.exported?_entry hb hsize] at hexport
    cases hexport
    exact hcallee _ p.entry (by simp [Program.codes])

end Placed

end WasmLisp.Codegen
