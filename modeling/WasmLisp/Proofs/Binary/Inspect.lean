import Mathlib
import WasmLisp.Binary.Info
import WasmLisp.Proofs.Binary.Sections
import WasmLisp.Proofs.Results
import WasmLisp.Proofs.Text

/-!
# What a linker sees of a written module

* `Decode.Reads`: a reader takes what was written, and nothing of what comes after;
* `Info.inspect_encode`: the view of a written module is the view of the module.
-/

namespace WasmLisp.Binary

/-! ## Readers -/

namespace Decode

variable {α β : Type}

/-- The reader takes just these bytes and gives this value, whatever comes after them. -/
def Reads (d : Decode α) (bytes : List UInt8) (a : α) : Prop :=
  ∀ rest offset, d { rest := bytes ++ rest, offset } =
    .ok (a, { rest, offset := offset + bytes.length })

theorem Reads.pure (a : α) : Reads (Pure.pure a) [] a := fun _ _ => rfl

theorem Reads.bind {d : Decode α} {f : α → Decode β} {l r : List UInt8} {a : α} {b : β}
    (h : Reads d l a) (h' : Reads (f a) r b) : Reads (d >>= f) (l ++ r) b := by
  intro rest offset
  show Except.bind (d _) _ = _
  rw [List.append_assoc, h (r ++ rest) offset]
  show f a _ = _
  rw [h' rest, List.length_append, Nat.add_assoc]

/-- A reader whose value is only put in place. -/
theorem Reads.map {d : Decode α} {bytes : List UInt8} {a : α} (h : Reads d bytes a) (f : α → β) :
    Reads (d >>= fun a => Pure.pure (f a)) bytes (f a) := by
  have hr := h.bind (f := fun a => Pure.pure (f a)) (Reads.pure (f a))
  rwa [List.append_nil] at hr

theorem reads_byte (b : UInt8) : Reads byte [b] b := fun _ _ => rfl

theorem reads_take (bytes : List UInt8) : Reads (take bytes.length) bytes bytes := by
  intro rest offset
  simp [take]

theorem reads_encodeCount {n : Nat} (h : n < 0x100000000) :
    Reads u32 (encodeCount n) (UInt32.ofNat n) := fun rest offset => u32_encodeCount h offset rest

theorem reads_encodeIndex (i : UInt32) : Reads u32 (encodeIndex i) i := by
  have h := reads_encodeCount i.toNat_lt
  rwa [UInt32.ofNat_toNat, encodeCount, UInt32.ofNat_toNat] at h

/-- A block of bytes, and what is read after it. -/
theorem reads_encodeBlock {bytes more : List UInt8} (h : bytes.length < 0x100000000)
    {f : List UInt8 → Decode β} {b : β} (hf : Reads (f bytes) more b) :
    Reads (u32 >>= fun n => take n.toNat >>= f) (encodeBlock bytes ++ more) b := by
  rw [encodeBlock, List.append_assoc]
  refine (reads_encodeCount h).bind ?_
  rw [UInt32.toNat_ofNat', Nat.mod_eq_of_lt h]
  exact (reads_take bytes).bind hf

theorem reads_name {t : String} (h : t.toUTF8.toList.length < 0x100000000) :
    Reads name (encodeName t) t := by
  refine (reads_encodeCount h).bind ?_
  intro rest offset
  have hsize : (UInt32.ofNat t.toUTF8.toList.length).toNat = t.toUTF8.toList.length := by
    rw [UInt32.toNat_ofNat', Nat.mod_eq_of_lt h]
  simp only [Bind.bind, StateT.bind, Except.bind, get, getThe, MonadStateOf.get, StateT.get,
    Pure.pure, Except.pure, hsize, reads_take t.toUTF8.toList rest offset, Text.fromUTF8?_toUTF8,
    StateT.pure]

theorem reads_items {item : Decode β} {enc : α → List UInt8} {as : List α} {bs : List β}
    (h : List.Forall₂ (fun a b => Reads item (enc a) b) as bs) :
    Reads (items item as.length) (as.flatMap enc) bs := by
  induction h with
  | nil => exact Reads.pure []
  | @cons a b as bs hab _ ih =>
    rw [List.flatMap_cons]
    exact hab.bind (ih.map (b :: ·))

theorem reads_encodeVec {item : Decode β} {enc : α → List UInt8} {as : List α} {bs : List β}
    (h : List.Forall₂ (fun a b => Reads item (enc a) b) as bs) (hl : as.length < 0x100000000) :
    Reads (vec item) (encodeVec enc as) bs := by
  refine (reads_encodeCount hl).bind ?_
  rw [UInt32.toNat_ofNat', Nat.mod_eq_of_lt hl]
  exact reads_items h

/-! ## Parts of modules -/

theorem reads_funcType {t : FuncType} (hp : t.params.length < 0x100000000)
    (hr : t.results.length < 0x100000000) : Reads funcType t.encode t := by
  refine (reads_byte 0x60).bind ?_
  simp only [ne_eq, not_true_eq_false, if_false]
  refine reads_encodeBlock hp ?_
  rw [← List.append_nil (encodeBlock t.results)]
  exact reads_encodeBlock hr (.pure _)

theorem reads_globalType (t : GlobalType) : Reads globalType t.encode t := by
  obtain ⟨valType, mutable⟩ := t
  have h : Reads globalType ([valType] ++ [if mutable then 1 else 0])
      { valType, mutable := (if mutable then 1 else 0 : UInt8) = 1 } :=
    (reads_byte valType).bind ((reads_byte _).map fun flag =>
      ({ valType, mutable := flag = 1 } : GlobalType))
  cases mutable <;> exact h

theorem reads_importDesc {d : ImportDesc} (h : ∀ kind, d ≠ .other kind) :
    Reads importDesc d.encode d := by
  cases d with
  | func t =>
    refine (reads_byte kindFunc).bind ?_
    simp only [if_true]
    exact (reads_encodeIndex t).map ImportDesc.func
  | global t =>
    refine (reads_byte kindGlobal).bind ?_
    simp only [show kindGlobal ≠ kindFunc by decide, show kindGlobal ≠ kindTable by decide,
      show kindGlobal ≠ kindMemory by decide, if_false, if_true]
    exact (reads_globalType t).map ImportDesc.global
  | other kind => exact absurd rfl (h kind)

theorem reads_import {i : Import} (hm : i.module.toUTF8.toList.length < 0x100000000)
    (hn : i.name.toUTF8.toList.length < 0x100000000) (hd : ∀ kind, i.desc ≠ .other kind) :
    Reads import' i.encode i := by
  rw [Import.encode, List.append_assoc]
  refine (reads_name hm).bind ((reads_name hn).bind ?_)
  exact (reads_importDesc hd).map fun desc => ({ module := i.module, name := i.name, desc } : Import)

theorem reads_export {e : Export} (hn : e.name.toUTF8.toList.length < 0x100000000) :
    Reads export' e.encode e := by
  refine (reads_name hn).bind ((reads_byte e.kind).bind (r := encodeIndex e.index) ?_)
  exact (reads_encodeIndex e.index).map fun index =>
    ({ name := e.name, kind := e.kind, index } : Export)

theorem lebLength_append {bytes : List UInt8} (h : Leb bytes) (rest : List UInt8) :
    lebLength (bytes ++ rest) = some bytes.length := by
  induction h with
  | last hb => simp [lebLength, hb]
  | more hb _ ih =>
    have hlarge : ¬ _ < 128 := Nat.not_lt.mpr hb
    simp [lebLength, hlarge, ih]

theorem reads_skipLeb {bytes : List UInt8} (h : Leb bytes) : Reads skipLeb bytes () := by
  intro rest offset
  simp [skipLeb, lebLength_append h rest]

/-- The initializer of a global of a written module: one constant. -/
theorem reads_initializer (v : Int64) (fuel : Nat) :
    Reads (initializer (fuel + 2)) (opI64Const :: (encodeInt64 v ++ [opEnd])) () := by
  unfold initializer
  refine (reads_byte opI64Const).bind (r := encodeInt64 v ++ [opEnd]) ?_
  simp only [show opI64Const ≠ opEnd by decide, if_false, decide_true, Bool.true_or, if_true]
  refine (reads_skipLeb (leb_sleb v.toInt)).bind (r := [opEnd]) ?_
  unfold initializer
  exact (reads_byte opEnd).bind (r := []) (.pure ())

theorem reads_globalEntry (g : Global) : Reads globalEntry g.encode g.type := by
  rw [Global.encode]
  refine (reads_globalType g.type).bind ?_
  -- the fuel is what is left of the binary, which is more than the two instructions take
  intro rest offset
  have hfuel : ((opI64Const :: (encodeInt64 g.init ++ [opEnd])) ++ rest).length + 1 =
      ((encodeInt64 g.init).length + rest.length + 1) + 2 := by
    simp only [List.length_append, List.length_cons, List.length_nil]
    omega
  have h := (reads_initializer g.init ((encodeInt64 g.init).length + rest.length + 1)).map
    (fun _ => g.type) rest offset
  rw [← hfuel] at h
  exact h

/-- A section of items is read to its end. -/
theorem vec_encodeVec {item : Decode β} {enc : α → List UInt8} {f : α → β} {as : List α}
    (h : ∀ a ∈ as, Reads item (enc a) (f a)) (hpos : ∀ a ∈ as, 0 < (enc a).length)
    (hs : (encodeVec enc as).length < 0x100000000) :
    vec item { rest := encodeVec enc as } =
      .ok (as.map f, { rest := [], offset := (encodeVec enc as).length }) := by
  have hl : as.length < 0x100000000 := by
    have hle := count_le_length_flatMap hpos
    rw [encodeVec, List.length_append] at hs
    omega
  have has : List.Forall₂ (fun a b => Reads item (enc a) b) as (as.map f) :=
    List.forall₂_map_right_iff.mpr (List.forall₂_same.mpr h)
  have hr := reads_encodeVec has hl [] 0
  rwa [List.append_nil, Nat.zero_add] at hr

end Decode

/-! ## The view of a module -/

namespace Module

variable {m : Module}

/-- What linking needs to know of a module. -/
def info (m : Module) : Info :=
  { types := m.types, imports := m.imports, exports := m.exports, customs := m.customs
    globals := m.globals.map (·.type) }

/-- The module imports functions and globals, and nothing else. -/
def Plain (m : Module) : Prop := ∀ i ∈ m.imports, ∀ kind, i.desc ≠ .other kind

/-- A section of items that are read back as they are. -/
theorem read_items {α : Type} {item : Decode α} {enc : α → List UInt8} {as : List α}
    (h : ∀ a ∈ as, Decode.Reads item (enc a) a) (hpos : ∀ a ∈ as, 0 < (enc a).length)
    (hs : (encodeVec enc as).length < 0x100000000) :
    Decode.vec item { rest := encodeVec enc as } =
      .ok (as, { rest := [], offset := (encodeVec enc as).length }) := by
  have hr := Decode.vec_encodeVec (f := id) h hpos hs
  rwa [List.map_id] at hr

theorem read_types (hsize : m.encode.length < 0x100000000) :
    Decode.vec Decode.funcType { rest := encodeVec FuncType.encode m.types } =
      .ok (m.types, { rest := [], offset := (encodeVec FuncType.encode m.types).length }) := by
  have hs : (encodeVec FuncType.encode m.types).length < 0x100000000 :=
    items_lt hsize 1 fun p hp => by simp [sections, hp]
  refine read_items (fun t ht => ?_) (fun t _ => by simp [FuncType.encode]) hs
  have hlt := item_lt hs ht
  simp only [FuncType.encode, encodeBlock, List.length_cons, List.length_append] at hlt
  exact Decode.reads_funcType (by omega) (by omega)

/-- The names of an import are no longer than 32 bits count. -/
theorem import_lt (hsize : m.encode.length < 0x100000000) :
    (encodeVec Import.encode m.imports).length < 0x100000000 ∧
      ∀ i ∈ m.imports, i.module.toUTF8.toList.length < 0x100000000 ∧
        i.name.toUTF8.toList.length < 0x100000000 := by
  have hs : (encodeVec Import.encode m.imports).length < 0x100000000 :=
    items_lt hsize 2 fun p hp => by simp [sections, hp]
  refine ⟨hs, fun i hi => ?_⟩
  have hlt := item_lt hs hi
  simp only [Import.encode, encodeName, encodeBlock, List.length_append] at hlt
  omega

theorem read_imports (hplain : m.Plain) (hsize : m.encode.length < 0x100000000) :
    Decode.vec Decode.import' { rest := encodeVec Import.encode m.imports } =
      .ok (m.imports, { rest := [], offset := (encodeVec Import.encode m.imports).length }) := by
  obtain ⟨hs, hnames⟩ := import_lt hsize
  refine read_items (fun i hi => ?_) (fun i _ => i.length_encode_pos) hs
  exact Decode.reads_import (hnames i hi).1 (hnames i hi).2 (hplain i hi)

theorem read_globals (hsize : m.encode.length < 0x100000000) :
    Decode.vec Decode.globalEntry { rest := encodeVec Global.encode m.globals } =
      .ok (m.globals.map (·.type),
        { rest := [], offset := (encodeVec Global.encode m.globals).length }) := by
  have hs : (encodeVec Global.encode m.globals).length < 0x100000000 :=
    items_lt hsize 6 fun p hp => by simp [sections, hp]
  exact Decode.vec_encodeVec (fun g _ => Decode.reads_globalEntry g)
    (fun g _ => by simp [Global.encode, GlobalType.encode]) hs

theorem read_exports (hsize : m.encode.length < 0x100000000) :
    Decode.vec Decode.export' { rest := encodeVec Export.encode m.exports } =
      .ok (m.exports, { rest := [], offset := (encodeVec Export.encode m.exports).length }) := by
  have hs : (encodeVec Export.encode m.exports).length < 0x100000000 :=
    items_lt hsize 7 fun p hp => by simp [sections, hp]
  refine read_items (fun e he => ?_) (fun e _ => by simp [Export.encode]) hs
  have hlt := item_lt hs he
  simp only [Export.encode, encodeName, encodeBlock, List.length_append] at hlt
  exact Decode.reads_export (by omega)

end Module

namespace Info

/-- What a section is taken as by the view of a binary. -/
def step (info : Info) (p : UInt8 × List UInt8) : Except Fault Info :=
  addSection info { id := p.1, body := p.2, raw := encodeSection p.1 p.2 }

theorem step_custom (info : Info) (c : Custom)
    (h : c.name.toUTF8.toList.length < 0x100000000) :
    step info (0, encodeName c.name ++ c.data) =
      .ok { info with customs := info.customs ++ [c] } := by
  have hread : Decode.custom { rest := encodeName c.name ++ c.data } =
      .ok (c, { rest := c.data, offset := 0 + (encodeName c.name).length }) := by
    simp only [Decode.custom, bind, StateT.bind, Decode.reads_name h c.data 0, Except.bind, get,
      getThe, MonadStateOf.get, StateT.get, pure, Except.pure, StateT.pure]
  simp only [step, addSection, show (0 : UInt8).toNat = 0 from rfl, hread]

theorem foldlM_step_customs {customs : List Custom}
    (hnames : ∀ c ∈ customs, c.name.toUTF8.toList.length < 0x100000000) (info : Info) :
    (customs.map fun c => ((0 : UInt8), encodeName c.name ++ c.data)).foldlM step info =
      .ok { info with customs := info.customs ++ customs } := by
  induction customs generalizing info with
  | nil => simp [pure, Except.pure]
  | cons c customs ih =>
    rw [List.map_cons, List.foldlM_cons, step_custom info c (hnames c List.mem_cons_self)]
    show List.foldlM step _ _ = _
    rw [ih fun d hd => hnames d (List.mem_cons_of_mem _ hd)]
    simp

/-- A section of items that the view has no use for changes nothing. -/
theorem foldlM_step_skipped {α : Type} {id : UInt8} {enc : α → List UInt8} {as : List α}
    (hid : id.toNat ∉ [0, 1, 2, 6, 7]) (info : Info) :
    (itemSection id enc as).foldlM step info = .ok info := by
  refine foldlM_itemSection (fun _ => rfl) ?_
  unfold step addSection
  dsimp only
  split <;> simp_all

/-- The view of a written module is the view of the module. -/
theorem inspect_encode {m : Module} (hplain : m.Plain) (hsize : m.encode.length < 0x100000000) :
    inspect m.encode = .ok m.info := by
  have hcustoms : ∀ c ∈ m.customs, c.name.toUTF8.toList.length < 0x100000000 := by
    intro c hc
    have hmem : ((0 : UInt8), encodeName c.name ++ c.data) ∈ m.sections :=
      List.mem_append_right _ (List.mem_map_of_mem hc)
    have hlt := Module.section_lt hsize hmem
    simp only [encodeName, encodeBlock, List.length_append] at hlt
    omega
  have hfold : m.sections.foldlM step {} = .ok m.info := by
    refine foldlM_append_ok (foldlM_append_ok (foldlM_append_ok (foldlM_append_ok
      (foldlM_append_ok (foldlM_append_ok
        (foldlM_itemSection (t := { types := m.types }) (fun h => by rw [h]) ?_)
        (foldlM_itemSection (t := { types := m.types, imports := m.imports })
          (fun h => by rw [h]) ?_))
        (foldlM_step_skipped (by decide) _))
        (foldlM_itemSection (t := { m.info with exports := [], customs := [] })
          (fun h => by simp [Module.info, h]) ?_))
        (foldlM_itemSection (t := { m.info with customs := [] })
          (fun h => by simp [Module.info, h]) ?_))
        (foldlM_step_skipped (by decide) _))
      (foldlM_step_customs hcustoms _)
    · simp only [step, addSection, show (1 : UInt8).toNat = 1 from rfl, Module.read_types hsize]
    · simp only [step, addSection, show (2 : UInt8).toNat = 2 from rfl,
        Module.read_imports hplain hsize]
    · simp only [step, addSection, show (6 : UInt8).toNat = 6 from rfl, Module.read_globals hsize]
      rfl
    · simp only [step, addSection, show (7 : UInt8).toNat = 7 from rfl, Module.read_exports hsize]
      rfl
  simp only [inspect, Module.encode_eq, checkHeader_append, bind, Except.bind]
  rw [foldSections_encode addSection {} m.sections fun p hp => Module.section_lt hsize hp]
  exact hfold

end Info

end WasmLisp.Binary
