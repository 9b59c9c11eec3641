import Mathlib
import WasmLisp.Binary.Info
import WasmLisp.Proofs.Binary.Leb128

/-!
# Sections of a written module

* `foldSections_encode`: going through sections that were written one after the other takes each
  of them with its code and contents;
* `Module.sections` and `Module.encode_eq`: a module is written as a header and its sections.
-/

namespace WasmLisp.Binary

/-! ## Reading a number -/

theorem Decode.u32From_append {bs : List UInt8} (h : Leb bs) {left : Nat} (hl : bs.length ≤ left)
    (shift acc offset : Nat) (rest : List UInt8) :
    u32From left shift acc { rest := bs ++ rest, offset } =
      .ok (acc + ulebValue bs * 2 ^ shift, { rest, offset := offset + bs.length }) := by
  induction h generalizing left shift acc offset with
  | @last b hb =>
    obtain ⟨left, rfl⟩ := Nat.exists_eq_add_one_of_ne_zero (Nat.one_le_iff_ne_zero.1 hl)
    simp only [u32From, bind, StateT.bind, byte, List.cons_append, List.nil_append, Except.bind,
      hb, if_true, pure, StateT.pure, Except.pure, ulebValue, List.length_singleton]
    simp
  | @more b bs hb _ ih =>
    obtain ⟨left, rfl⟩ : ∃ k, left = k + 1 := ⟨left - 1, by simp at hl; omega⟩
    have hb' : ¬ b.toNat < 128 := by omega
    simp only [u32From, bind, StateT.bind, byte, List.cons_append, Except.bind, hb', if_false]
    rw [ih (by simpa using hl)]
    have hv : acc + b.toNat % 128 * Nat.pow 2 shift + ulebValue bs * 2 ^ (shift + 7) =
        acc + ulebValue (b :: bs) * 2 ^ shift := by
      rw [ulebValue, pow_add, Nat.pow_eq]
      ring
    rw [hv, List.length_cons, Nat.add_right_comm, Nat.add_assoc]

/-- A number of five bytes at most is read modulo two to the power 32. -/
theorem Decode.u32_append {bs : List UInt8} (h : Leb bs) (hl : bs.length ≤ 5) (offset : Nat)
    (rest : List UInt8) :
    u32 { rest := bs ++ rest, offset } =
      .ok (UInt32.ofNat (ulebValue bs), { rest, offset := offset + bs.length }) := by
  simp only [u32, bind, StateT.bind, u32From_append h hl, Except.bind, pure, StateT.pure,
    Except.pure]
  simp

/-- A count is read back. -/
theorem Decode.u32_encodeCount {n : Nat} (h : n < 0x100000000) (offset : Nat)
    (rest : List UInt8) :
    u32 { rest := encodeCount n ++ rest, offset } =
      .ok (UInt32.ofNat n, { rest, offset := offset + (encodeCount n).length }) := by
  have hn : encodeCount n = uleb n := by
    rw [encodeCount, UInt32.toNat_ofNat', Nat.mod_eq_of_lt h]
  have hl : (uleb n).length ≤ 5 := length_uleb_le (by decide) (by omega)
  rw [hn, u32_append (leb_uleb n) hl, ulebValue_uleb]

/-! ## Reading sections -/

theorem RawSection.read_encodeSection (id : UInt8) {body : List UInt8}
    (h : body.length < 0x100000000) (rest : List UInt8) :
    RawSection.read (encodeSection id body ++ rest) =
      .ok ({ id, body, raw := encodeSection id body }, rest) := by
  have hsize : (UInt32.ofNat body.length).toNat = body.length := by
    rw [UInt32.toNat_ofNat', Nat.mod_eq_of_lt h]
  have hlen : (encodeSection id body).length = 1 + (encodeCount body.length).length + body.length := by
    simp only [encodeSection, encodeBlock, List.length_cons, List.length_append]
    omega
  have hbytes : encodeSection id body ++ rest =
      id :: (encodeCount body.length ++ (body ++ rest)) := by
    simp [encodeSection, encodeBlock]
  have hread : RawSection.read (encodeSection id body ++ rest) =
      .ok ({ id, body, raw := (encodeSection id body ++ rest).take (encodeSection id body).length },
        (encodeSection id body ++ rest).drop (max 1 (encodeSection id body).length)) := by
    rw [hlen]
    simp only [RawSection.read, hbytes, bind, Except.bind, Decode.byte, Decode.u32_encodeCount h,
      Decode.take, hsize, List.take_left', List.drop_left', if_true, pure, Except.pure, Nat.zero_add]
  rw [hread, List.take_left, Nat.max_eq_right (by omega), List.drop_left]

theorem foldSections_nil {σ : Type} (step : σ → RawSection → Except Fault σ) (s : σ) :
    foldSections step s [] = .ok s := by
  rw [foldSections]
  rfl

/-- The first section is taken, then those after it. -/
theorem foldSections_of_read {σ : Type} (step : σ → RawSection → Except Fault σ) (s : σ)
    {bytes rest : List UInt8} {r : RawSection} (h : RawSection.read bytes = .ok (r, rest)) :
    foldSections step s bytes = step s r >>= fun t => foldSections step t rest := by
  rw [foldSections]
  have hne : bytes.isEmpty = false := by
    cases bytes with
    | nil => cases h
    | cons => rfl
  rw [hne]
  simp only [Bool.false_eq_true, if_false]
  split
  · rename_i e heq
    rw [h] at heq
    cases heq
  · rename_i r' rest' heq
    rw [h] at heq
    cases heq
    rfl

/-- The section is read from its bytes, whatever comes after them. -/
def RawSection.Readable (s : RawSection) : Prop := ∀ rest, read (s.raw ++ rest) = .ok (s, rest)

/-- Sections one after the other are read one after the other. -/
theorem foldSections_readable {σ : Type} (step : σ → RawSection → Except Fault σ) (s : σ)
    {sections : List RawSection} (h : ∀ r ∈ sections, r.Readable) :
    foldSections step s (sections.flatMap (·.raw)) = sections.foldlM step s := by
  induction sections generalizing s with
  | nil => exact foldSections_nil step s
  | cons r sections ih =>
    rw [List.flatMap_cons, foldSections_of_read step s (h r List.mem_cons_self _), List.foldlM_cons]
    congr 1
    funext t
    exact ih t fun q hq => h q (List.mem_cons_of_mem _ hq)

/-- The section that is written of a code and contents. -/
def RawSection.written (p : UInt8 × List UInt8) : RawSection :=
  { id := p.1, body := p.2, raw := encodeSection p.1 p.2 }

/-- Sections that were written one after the other are read one after the other. -/
theorem foldSections_encode {σ : Type} (step : σ → RawSection → Except Fault σ) (s : σ)
    (sections : List (UInt8 × List UInt8)) (h : ∀ p ∈ sections, p.2.length < 0x100000000) :
    foldSections step s (sections.flatMap fun p => encodeSection p.1 p.2) =
      sections.foldlM (fun s p => step s (.written p)) s := by
  have hbytes : (sections.flatMap fun p => encodeSection p.1 p.2) =
      (sections.map RawSection.written).flatMap (·.raw) := by rw [List.flatMap_map]; rfl
  rw [hbytes, foldSections_readable step s, List.foldlM_map]
  intro r hr
  obtain ⟨p, hp, rfl⟩ := List.mem_map.mp hr
  exact RawSection.read_encodeSection p.1 (h p hp)

/-! ## Modules -/

/-- The header is accepted, and what follows it is left. -/
theorem checkHeader_append (bytes : List UInt8) :
    checkHeader { rest := header ++ bytes } = .ok ((), { rest := bytes, offset := 8 }) := by
  simp [checkHeader, Decode.take, header, littleEndian, bind, StateT.bind, Except.bind, pure,
    StateT.pure, Except.pure]

/-- The contents of a section of items, which is left out when there are none. -/
def itemSection {α : Type} (id : UInt8) (item : α → List UInt8) (items : List α) :
    List (UInt8 × List UInt8) :=
  if items.isEmpty then [] else [(id, encodeVec item items)]

theorem fst_of_mem_itemSection {α : Type} {id : UInt8} {enc : α → List UInt8} {as : List α}
    {p : UInt8 × List UInt8} (h : p ∈ itemSection id enc as) : p.1 = id := by
  unfold itemSection at h
  split at h <;> simp_all

theorem encodeItems_eq {α : Type} (id : UInt8) (item : α → List UInt8) (items : List α) :
    encodeItems id item items =
      (itemSection id item items).flatMap fun p => encodeSection p.1 p.2 := by
  unfold encodeItems itemSection
  split <;> simp

/-- The codes and contents of a module's sections. -/
def Module.sections (m : Module) : List (UInt8 × List UInt8) :=
  itemSection 1 FuncType.encode m.types
    ++ itemSection 2 Import.encode m.imports
    ++ itemSection 3 (fun f => encodeIndex f.typeIdx) m.funcs
    ++ itemSection 6 Global.encode m.globals
    ++ itemSection 7 Export.encode m.exports
    ++ itemSection 10 Func.encode m.funcs
    ++ m.customs.map fun c => (0, encodeName c.name ++ c.data)

theorem Module.encode_eq (m : Module) :
    m.encode = header ++ m.sections.flatMap fun p => encodeSection p.1 p.2 := by
  have hc : m.customs.flatMap Custom.encode =
      (m.customs.map fun c => ((0 : UInt8), encodeName c.name ++ c.data)).flatMap
        fun p => encodeSection p.1 p.2 := by
    rw [List.flatMap_map]
    rfl
  simp only [Module.encode, Module.sections, encodeItems_eq, hc, List.flatMap_append,
    List.append_assoc]

/-- What is written of one item is no longer than what is written of all. -/
theorem length_le_length_flatMap {α : Type} (f : α → List UInt8) {a : α} {l : List α}
    (h : a ∈ l) : (f a).length ≤ (l.flatMap f).length := by
  obtain ⟨before, after, rfl⟩ := List.append_of_mem h
  simp only [List.flatMap_append, List.flatMap_cons, List.length_append]
  omega

/-- What is written of a section is no longer than the module. -/
theorem Module.length_section_le (m : Module) {p : UInt8 × List UInt8} (h : p ∈ m.sections) :
    p.2.length ≤ m.encode.length := by
  rw [Module.encode_eq, List.length_append]
  have hp : p.2.length ≤ (encodeSection p.1 p.2).length := by
    simp only [encodeSection, encodeBlock, List.length_cons, List.length_append]
    omega
  have hf := length_le_length_flatMap (fun p : UInt8 × List UInt8 => encodeSection p.1 p.2) h
  omega

theorem Module.section_lt {m : Module} (hsize : m.encode.length < 0x100000000)
    {p : UInt8 × List UInt8} (hp : p ∈ m.sections) : p.2.length < 0x100000000 :=
  Nat.lt_of_le_of_lt (m.length_section_le hp) hsize

theorem Module.items_lt {m : Module} (hsize : m.encode.length < 0x100000000) {α : Type} (id : UInt8)
    {enc : α → List UInt8} {as : List α} (hin : itemSection id enc as ⊆ m.sections) :
    (encodeVec enc as).length < 0x100000000 := by
  cases as with
  | nil =>
    simp only [encodeVec, List.length_nil, List.flatMap_nil, List.append_nil]
    decide +kernel
  | cons a as =>
    have hmem : (id, encodeVec enc (a :: as)) ∈ itemSection id enc (a :: as) := by
      simp [itemSection]
    exact section_lt hsize (hin hmem)

/-- An item is written in fewer bytes than 32 bits count if the section of its items is. -/
theorem item_lt {α : Type} {enc : α → List UInt8} {as : List α}
    (hs : (encodeVec enc as).length < 0x100000000) {a : α} (ha : a ∈ as) :
    (enc a).length < 0x100000000 := by
  have hl := length_le_length_flatMap enc ha
  rw [encodeVec, List.length_append] at hs
  omega

/-! ## Going through the sections of a module -/

theorem foldlM_append_ok {σ α : Type} {step : σ → α → Except Fault σ} {xs ys : List α} {s t u : σ}
    (hx : xs.foldlM step s = .ok t) (hy : ys.foldlM step t = .ok u) :
    (xs ++ ys).foldlM step s = .ok u := by
  rw [List.foldlM_append, hx]
  exact hy

/-- Items that each leave a state alone leave it alone together. -/
theorem foldlM_unchanged {σ α : Type} {step : σ → α → Except Fault σ} {xs : List α} {s : σ}
    (h : ∀ x ∈ xs, step s x = .ok s) : xs.foldlM step s = .ok s := by
  induction xs with
  | nil => rfl
  | cons x xs ih =>
    rw [List.foldlM_cons, h x List.mem_cons_self]
    exact ih fun y hy => h y (List.mem_cons_of_mem _ hy)

/-- A section of items, or its absence, sets the part of the state that it is about. -/
theorem foldlM_itemSection {σ α : Type} {id : UInt8} {enc : α → List UInt8} {as : List α}
    {step : σ → UInt8 × List UInt8 → Except Fault σ} {s t : σ} (hnil : as = [] → t = s)
    (h : step s (id, encodeVec enc as) = .ok t) :
    (itemSection id enc as).foldlM step s = .ok t := by
  rw [itemSection]
  cases as with
  | nil =>
    rw [hnil rfl]
    rfl
  | cons a as =>
    rw [List.isEmpty_cons, if_neg (by simp), List.foldlM_cons, h]
    rfl

/-! ## Counts -/

/-- Items that take a byte at the least are no more than their bytes. -/
theorem count_le_length_flatMap {α : Type} {enc : α → List UInt8} {as : List α}
    (h : ∀ a ∈ as, 0 < (enc a).length) : as.length ≤ (as.flatMap enc).length := by
  induction as with
  | nil => simp
  | cons a as ih =>
    have ha := h a List.mem_cons_self
    have hs := ih fun b hb => h b (List.mem_cons_of_mem _ hb)
    rw [List.flatMap_cons, List.length_append, List.length_cons]
    omega

theorem length_flatMap_le_encodeItems {α : Type} (id : UInt8) (enc : α → List UInt8)
    (as : List α) : (as.flatMap enc).length ≤ (encodeItems id enc as).length := by
  unfold encodeItems encodeSection encodeBlock encodeVec
  cases as with
  | nil => simp
  | cons a as =>
    simp only [List.isEmpty_cons, Bool.false_eq_true, if_false, List.length_cons,
      List.length_append]
    omega

theorem count_le_length_encodeItems {α : Type} (id : UInt8) {enc : α → List UInt8}
    (as : List α) (h : ∀ a ∈ as, 0 < (enc a).length) :
    as.length ≤ (encodeItems id enc as).length := by
  exact Nat.le_trans (count_le_length_flatMap h) (length_flatMap_le_encodeItems id enc as)

theorem Import.length_encode_pos (i : Import) : 0 < i.encode.length := by
  have hd : 0 < i.desc.encode.length := by cases i.desc <;> simp [ImportDesc.encode]
  simp only [Import.encode, List.length_append]
  omega

/-- A module has no more parts than its binary has bytes. -/
theorem Module.count_le_length_encode (m : Module) :
    m.types.length + m.imports.length + m.funcs.length + m.globals.length + m.exports.length
      ≤ m.encode.length := by
  have h₁ := count_le_length_encodeItems 1 m.types
    fun t _ => show 0 < t.encode.length by simp [FuncType.encode]
  have h₂ := count_le_length_encodeItems 2 m.imports fun i _ => i.length_encode_pos
  have h₃ := count_le_length_encodeItems 3 m.funcs
    fun f _ => show 0 < (encodeIndex f.typeIdx).length from (leb_uleb _).length_pos
  have h₄ := count_le_length_encodeItems 6 m.globals
    fun g _ => show 0 < g.encode.length by simp [Global.encode, GlobalType.encode]
  have h₅ := count_le_length_encodeItems 7 m.exports
    fun e _ => show 0 < e.encode.length by simp [Export.encode]
  simp only [Module.encode, List.length_append]
  omega

/-- The parameters of a function and its body are no longer than the binary. -/
theorem Module.length_params_add_body_le (m : Module) {t : FuncType} (ht : t ∈ m.types) {f : Func}
    (hf : f ∈ m.funcs) : t.params.length + f.body.length ≤ m.encode.length := by
  have h₁ : t.params.length ≤ t.encode.length := by
    simp only [FuncType.encode, encodeBlock, List.length_cons, List.length_append]
    omega
  have h₂ : f.body.length ≤ f.encode.length := by
    simp only [Func.encode, encodeBlock, List.length_append]
    omega
  have h₃ := length_le_length_flatMap FuncType.encode ht
  have h₄ := length_le_length_flatMap Func.encode hf
  have h₅ := length_flatMap_le_encodeItems 1 FuncType.encode m.types
  have h₆ := length_flatMap_le_encodeItems 10 Func.encode m.funcs
  simp only [Module.encode, List.length_append]
  omega

end WasmLisp.Binary
