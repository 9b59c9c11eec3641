import Mathlib
import WasmLisp.Machine.Decode
import WasmLisp.Machine.Validate
import WasmLisp.Proofs.Binary.Code
import WasmLisp.Proofs.Binary.Redirect

/-!
# Decoding what was encoded

* `Decode.Reads`: a reader takes exactly some bytes, whatever follows them;
* `Decode.instrs_encodeAll`: instructions are read back;
* `Module.decode?_encode`: a written module is decoded to the module that it was written from;
* `Module.redirect`: a module that imports from elsewhere is written, decoded and valid like the module
  itself.
-/

namespace WasmLisp.Machine

open Binary (Leb uleb sleb ulebValue encodeCount encodeIndex encodeBlock encodeName encodeVec)

namespace Decode

/-- The reader takes exactly these bytes, whatever follows them, and gives `a`. -/
abbrev Reads {α : Type} (r : Reader α) (bytes : List UInt8) (a : α) : Prop :=
  ∀ rest, r (bytes ++ rest) = some (a, rest)

/-! ## Numbers -/

theorem reads_lebBytes {bs : List UInt8} (h : Leb bs) {most : Nat} (hl : bs.length ≤ most) :
    Reads (lebBytes most) bs bs := by
  intro rest
  induction h generalizing most with
  | last hb =>
    obtain ⟨most, rfl⟩ : ∃ k, most = k + 1 := ⟨most - 1, by simp at hl; omega⟩
    simp [lebBytes, hb]
  | more hb _ ih =>
    obtain ⟨most, rfl⟩ : ∃ k, most = k + 1 := ⟨most - 1, by simp at hl; omega⟩
    simp [lebBytes, Nat.not_lt.2 hb, ih (by simpa using hl)]

theorem reads_u32 {n : Nat} (h : n < 0x100000000) : Reads u32 (uleb n) n := by
  intro rest
  have hl : (uleb n).length ≤ 5 := Binary.length_uleb_le (by decide) (by omega)
  have hb := reads_lebBytes (Binary.leb_uleb n) hl rest
  simp only [u32, hb, bind, Option.bind, Binary.ulebValue_uleb, h, if_true]

theorem reads_encodeCount {n : Nat} (h : n < 0x100000000) : Reads u32 (encodeCount n) n := by
  rw [encodeCount, UInt32.toNat_ofNat', Nat.mod_eq_of_lt h]
  exact reads_u32 h

theorem reads_encodeIndex (i : UInt32) : Reads u32 (encodeIndex i) i.toNat :=
  reads_u32 i.toNat_lt

/-- A number that fits in some bits is read back from as many. -/
theorem reads_signed {bits : Nat} (hb : 0 < bits) {v : Int} (hlo : -(2 ^ (bits - 1) : Int) ≤ v)
    (hhi : v < 2 ^ (bits - 1)) : Reads (signed bits) (sleb v) v := by
  intro rest
  obtain ⟨k, hk⟩ : ∃ k, (bits + 6) / 7 = k + 1 := ⟨(bits + 6) / 7 - 1, by omega⟩
  have hpow : (2 : Int) ^ (bits - 1) ≤ 64 * 128 ^ k := by
    have hle : bits - 1 ≤ 6 + 7 * k := by omega
    calc (2 : Int) ^ (bits - 1) ≤ 2 ^ (6 + 7 * k) := pow_le_pow_right₀ (by decide) hle
      _ = 64 * 128 ^ k := by
        rw [pow_add, pow_mul]
        rfl
  have hl : (sleb v).length ≤ (bits + 6) / 7 := by
    rw [hk]
    exact Binary.length_sleb_le (by omega) (by omega)
  have hread := reads_lebBytes (Binary.leb_sleb v) hl rest
  have hcast : ((Nat.pow 2 (bits - 1) : Nat) : Int) = 2 ^ (bits - 1) := by simp
  have hv := Binary.bmod_ulebValue_sleb v
  rw [← Nat.pow_eq] at hv
  simp only [signed, hread, bind, Option.bind, hcast, hv, hlo, hhi, decide_true, Bool.and_self,
    if_true]

theorem reads_sleb64 (v : Int64) : Reads (signed 64) (sleb v.toInt) v.toInt :=
  reads_signed (by decide) v.le_toInt v.toInt_lt

theorem reads_sleb32 (v : Int32) : Reads (signed 32) (sleb v.toInt) v.toInt :=
  reads_signed (by decide) v.le_toInt v.toInt_lt

end Decode

/-! ## Instructions -/

/-- What a block type says can be written: a value type, or an index of 32 bits. -/
def BlockType.Fits : BlockType → Prop
  | .empty => True
  | .value t => Decode.isValType t = true
  | .signature i => i < 0x100000000

mutual

/-- Every index in an instruction fits in 32 bits. -/
def Instr.Fits : Instr → Prop
  | .block t body => t.Fits ∧ Instr.FitsAll body
  | .loop t body => t.Fits ∧ Instr.FitsAll body
  | .ifElse t thenB elseB => t.Fits ∧ Instr.FitsAll thenB ∧ Instr.FitsAll elseB
  | .br i => i < 0x100000000
  | .brIf i => i < 0x100000000
  | .call i => i < 0x100000000
  | .localGet i => i < 0x100000000
  | .localSet i => i < 0x100000000
  | .localTee i => i < 0x100000000
  | .globalGet i => i < 0x100000000
  | .globalSet i => i < 0x100000000
  | _ => True

/-- Every index in a sequence of instructions fits in 32 bits. -/
def Instr.FitsAll : List Instr → Prop
  | [] => True
  | i :: rest => i.Fits ∧ Instr.FitsAll rest

end

namespace Decode

theorem reads_blockType {t : BlockType} (h : t.Fits) : Reads blockType t.encode t := by
  intro rest
  cases t with
  | empty => rfl
  | value t =>
    simp only [BlockType.Fits, isValType, List.contains_iff_mem, List.mem_cons, List.not_mem_nil,
      or_false] at h
    rcases h with rfl | rfl | rfl | rfl <;> rfl
  | signature i =>
    have hi : (i : Int) < 2 ^ (33 - 1) := by
      simp only [BlockType.Fits] at h
      omega
    have hr := @reads_signed 33 (by decide) i (by omega) hi rest
    simp only [blockType, BlockType.encode, hr, bind, Option.bind, Int.natCast_nonneg, if_true,
      Int.toNat_natCast]

/-- The codes that do not stand for a block, its parts or its end. -/
def IsPlain (op : UInt8) : Prop := op ∉ [0x0b, 0x05, 0x02, 0x03, 0x04]

/-- Puts an instruction before those that were read after it. -/
def consInstr (i : Instr) : (List Instr × Ending) × List UInt8 → (List Instr × Ending) × List UInt8
  | ((more, ending), rest) => ((i :: more, ending), rest)

theorem instrs_plain {op : UInt8} (hop : IsPlain op) {input rest : List UInt8} {i : Instr}
    (h : plain op input = some (i, rest)) (fuel : Nat) :
    instrs (fuel + 1) (op :: input) = (instrs fuel rest).map (consInstr i) := by
  simp only [IsPlain, List.mem_cons, List.not_mem_nil, or_false, not_or] at hop
  simp only [instrs, hop, h, Bool.or_self, decide_false, if_false, bind, Option.bind,
    Bool.false_eq_true]
  cases instrs fuel rest <;> rfl

/-- The byte that ends a sequence of instructions. -/
def Ending.byte : Ending → UInt8
  | .end => 0x0b
  | .otherwise => 0x05

theorem instrs_ending (e : Ending) (fuel : Nat) (rest : List UInt8) :
    instrs (fuel + 1) (e.byte :: rest) = some (([], e), rest) := by
  cases e <;> rfl

set_option maxRecDepth 2000 in
private theorem plain_rel (w : Width) (op : Rel) (input : List UInt8) :
    plain (op.code w) input = some (.rel w op, input) ∧ IsPlain (op.code w) := by
  cases w <;> cases op <;> exact ⟨rfl, by unfold IsPlain; decide⟩

set_option maxRecDepth 2000 in
private theorem plain_bin (w : Width) (op : Bin) (input : List UInt8) :
    plain (op.code w) input = some (.bin w op, input) ∧ IsPlain (op.code w) := by
  cases w <;> cases op <;> exact ⟨rfl, by unfold IsPlain; decide⟩

private theorem ofInt_toInt32 (v : UInt32) : UInt32.ofInt v.toInt32.toInt = v := by
  have h : v.toInt32.toInt = Int.bmod v.toNat (2 ^ 32) := BitVec.toInt_eq_toNat_bmod _
  have hlt := v.toNat_lt
  rw [h, UInt32.ofInt, ← UInt32.toNat_inj, UInt32.toNat_ofNat',
    show (2 : Int) ^ 32 = ((2 ^ 32 : Nat) : Int) from rfl, Int.bmod_emod]
  omega

theorem encode_length_pos (i : Instr) : 0 < i.encode.length := by
  cases i with
  | eqz w => cases w <;> simp [Instr.encode]
  | _ => simp [Instr.encode]

/-! Blocks: the instructions inside are read up to their end, then those after it. -/

theorem instrs_block {t : BlockType} (ht : t.Fits) {body : List Instr} {fuel : Nat}
    {rest : List UInt8}
    (hbody : instrs fuel (Instr.encodeAll body ++ Ending.end.byte :: rest) =
      some ((body, .end), rest)) :
    instrs (fuel + 1) ((Instr.block t body).encode ++ rest) =
      (instrs fuel rest).map (consInstr (.block t body)) := by
  have hread := reads_blockType ht (Instr.encodeAll body ++ Ending.end.byte :: rest)
  simp only [Ending.byte] at hread hbody
  simp only [Instr.encode, List.cons_append, List.append_assoc, List.nil_append, instrs,
    show ((0x02 : UInt8) = 0x0b) = False by decide, show ((0x02 : UInt8) = 0x05) = False by decide,
    hread, hbody, bind, Option.bind, if_false, if_true, decide_true, Bool.true_or]
  cases instrs fuel rest <;> rfl

theorem instrs_loop {t : BlockType} (ht : t.Fits) {body : List Instr} {fuel : Nat}
    {rest : List UInt8}
    (hbody : instrs fuel (Instr.encodeAll body ++ Ending.end.byte :: rest) =
      some ((body, .end), rest)) :
    instrs (fuel + 1) ((Instr.loop t body).encode ++ rest) =
      (instrs fuel rest).map (consInstr (.loop t body)) := by
  have hread := reads_blockType ht (Instr.encodeAll body ++ Ending.end.byte :: rest)
  simp only [Ending.byte] at hread hbody
  simp only [Instr.encode, List.cons_append, List.append_assoc, List.nil_append, instrs,
    show ((0x03 : UInt8) = 0x0b) = False by decide, show ((0x03 : UInt8) = 0x05) = False by decide,
    show ((0x03 : UInt8) = 0x02) = False by decide,
    hread, hbody, bind, Option.bind, if_false, if_true, decide_true, Bool.or_true]
  cases instrs fuel rest <;> rfl

theorem instrs_ifElse {t : BlockType} (ht : t.Fits) {thenB elseB : List Instr} {fuel : Nat}
    {rest : List UInt8}
    (hthen : ∀ e rest, instrs fuel (Instr.encodeAll thenB ++ Ending.byte e :: rest) =
      some ((thenB, e), rest))
    (helse : instrs fuel (Instr.encodeAll elseB ++ Ending.end.byte :: rest) =
      some ((elseB, .end), rest)) :
    instrs (fuel + 1) ((Instr.ifElse t thenB elseB).encode ++ rest) =
      (instrs fuel rest).map (consInstr (.ifElse t thenB elseB)) := by
  cases elseB with
  | nil =>
    have hread := reads_blockType ht (Instr.encodeAll thenB ++ Ending.end.byte :: rest)
    have hthen := hthen .end rest
    simp only [Ending.byte] at hread hthen
    simp only [Instr.encode, List.isEmpty_nil, List.append_nil, List.cons_append,
      List.append_assoc, List.nil_append, instrs,
      show ((0x04 : UInt8) = 0x0b) = False by decide, show ((0x04 : UInt8) = 0x05) = False by decide,
      show ((0x04 : UInt8) = 0x02) = False by decide, show ((0x04 : UInt8) = 0x03) = False by decide,
      hread, hthen, bind, Option.bind, if_false, if_true, decide_false, Bool.or_self,
      Bool.false_eq_true]
    cases instrs fuel rest <;> rfl
  | cons i elseB =>
    have hread := reads_blockType ht (Instr.encodeAll thenB ++ Ending.otherwise.byte ::
      (Instr.encodeAll (i :: elseB) ++ Ending.end.byte :: rest))
    have hthen := hthen .otherwise (Instr.encodeAll (i :: elseB) ++ Ending.end.byte :: rest)
    simp only [Ending.byte] at hread hthen helse
    simp only [Instr.encode, List.isEmpty_cons, List.cons_append,
      List.append_assoc, List.nil_append, instrs,
      show ((0x04 : UInt8) = 0x0b) = False by decide, show ((0x04 : UInt8) = 0x05) = False by decide,
      show ((0x04 : UInt8) = 0x02) = False by decide, show ((0x04 : UInt8) = 0x03) = False by decide,
      hread, hthen, helse, bind, Option.bind, if_false, if_true, decide_false, Bool.or_self,
      Bool.false_eq_true, reduceCtorEq]
    cases instrs fuel rest <;> rfl

mutual

/-- An instruction is read back before those that follow it. -/
theorem instrs_cons : ∀ {i : Instr}, i.Fits → ∀ {fuel : Nat}, i.encode.length ≤ fuel →
    ∀ rest : List UInt8,
      instrs (fuel + 1) (i.encode ++ rest) = (instrs fuel rest).map (consInstr i)
  | .unreachable, _, fuel, _, _ | .nop, _, fuel, _, _ | .ret, _, fuel, _, _
  | .drop, _, fuel, _, _ | .select, _, fuel, _, _ | .wrap, _, fuel, _, _
  | .extendS, _, fuel, _, _ | .extendU, _, fuel, _, _ | .eqz .w32, _, fuel, _, _
  | .eqz .w64, _, fuel, _, _ => instrs_plain (by unfold IsPlain; decide) rfl fuel
  | .br n, h, fuel, _, rest | .brIf n, h, fuel, _, rest | .call n, h, fuel, _, rest
  | .localGet n, h, fuel, _, rest | .localSet n, h, fuel, _, rest
  | .localTee n, h, fuel, _, rest | .globalGet n, h, fuel, _, rest
  | .globalSet n, h, fuel, _, rest => by
    refine instrs_plain (by unfold IsPlain; decide) ?_ fuel
    simp only [Instr.Fits] at h
    simp [plain, reads_encodeCount h rest]
  | .i32Const v, _, fuel, _, rest => by
    refine instrs_plain (by unfold IsPlain; decide) ?_ fuel
    simp [plain, reads_sleb32 v.toInt32 rest, ofInt_toInt32]
  | .i64Const v, _, fuel, _, rest => by
    refine instrs_plain (by unfold IsPlain; decide) ?_ fuel
    simp [plain, reads_sleb64 v rest]
  | .rel w op, _, fuel, _, rest =>
    instrs_plain (plain_rel w op rest).2 (plain_rel w op rest).1 fuel
  | .bin w op, _, fuel, _, rest =>
    instrs_plain (plain_bin w op rest).2 (plain_bin w op rest).1 fuel
  | .block t body, h, fuel, hf, rest => by
    simp only [Instr.encode, List.length_cons, List.length_append] at hf
    exact instrs_block h.1 (instrs_encodeAll h.2 (by omega) .end rest)
  | .loop t body, h, fuel, hf, rest => by
    simp only [Instr.encode, List.length_cons, List.length_append] at hf
    exact instrs_loop h.1 (instrs_encodeAll h.2 (by omega) .end rest)
  | .ifElse t thenB elseB, h, fuel, hf, rest => by
    simp only [Instr.encode, List.length_cons, List.length_append] at hf
    have helse : (Instr.encodeAll elseB).length < fuel := by
      cases elseB with
      | nil =>
        simp only [Instr.encodeAll, List.length_nil]
        omega
      | cons i elseB =>
        simp only [List.isEmpty_cons, Bool.false_eq_true, if_false, List.length_cons] at hf
        omega
    exact instrs_ifElse h.1 (fun e rest => instrs_encodeAll h.2.1 (by omega) e rest)
      (instrs_encodeAll h.2.2 helse .end rest)

/-- Instructions are read back up to the byte that ends them. -/
theorem instrs_encodeAll : ∀ {is : List Instr}, Instr.FitsAll is → ∀ {fuel : Nat},
    (Instr.encodeAll is).length < fuel → ∀ (e : Ending) (rest : List UInt8),
      instrs fuel (Instr.encodeAll is ++ e.byte :: rest) = some ((is, e), rest)
  | [], _, fuel, hf, e, rest => by
    obtain ⟨fuel, rfl⟩ : ∃ k, fuel = k + 1 := ⟨fuel - 1, by omega⟩
    exact instrs_ending e fuel rest
  | i :: is, h, fuel, hf, e, rest => by
    obtain ⟨fuel, rfl⟩ : ∃ k, fuel = k + 1 := ⟨fuel - 1, by omega⟩
    simp only [Instr.encodeAll, List.length_append] at hf
    have hpos := encode_length_pos i
    rw [Instr.encodeAll, List.append_assoc, instrs_cons h.1 (by omega),
      instrs_encodeAll h.2 (by omega) e rest]
    rfl

end

/-! ## Items and sections -/

section Items

variable {α β : Type} {item : Reader β} {enc : α → List UInt8} {f : α → β} {as : List α}

theorem reads_items (h : ∀ a ∈ as, Reads item (enc a) (f a)) :
    Reads (items item as.length) (as.flatMap enc) (as.map f) := by
  intro rest
  induction as with
  | nil => rfl
  | cons a as ih =>
    have ha := h a List.mem_cons_self (as.flatMap enc ++ rest)
    have hs := ih fun b hb => h b (List.mem_cons_of_mem _ hb)
    simp only [List.length_cons, items, List.flatMap_cons, List.append_assoc, ha, bind,
      Option.bind, hs]
    rfl

/-- Items that take a byte at the least are read back after their count. -/
theorem reads_vec (h : ∀ a ∈ as, Reads item (enc a) (f a)) (hpos : ∀ a ∈ as, 0 < (enc a).length)
    (hl : as.length < 0x100000000) : Reads (vec item) (encodeVec enc as) (as.map f) := by
  intro rest
  have hle := Binary.count_le_length_flatMap hpos
  have hn : ¬ (as.flatMap enc ++ rest).length < as.length := by
    rw [List.length_append]
    omega
  simp only [vec, encodeVec, List.append_assoc, reads_encodeCount hl, bind, Option.bind, hn,
    if_false, reads_items h rest]

theorem whole_of_reads {r : Reader β} {bytes : List UInt8} {b : β} (h : Reads r bytes b) :
    whole r bytes = some b := by
  have hr := h []
  rw [List.append_nil] at hr
  simp only [whole, hr, bind, Option.bind, List.isEmpty_nil, if_true]

end Items

theorem reads_bytes (bs : List UInt8) : Reads (bytes bs.length) bs bs := by
  intro rest
  simp [bytes]

theorem reads_name {t : String} (h : t.toUTF8.toList.length < 0x100000000) :
    Reads name (encodeName t) t := by
  intro rest
  simp only [name, encodeName, encodeBlock, List.append_assoc, reads_encodeCount h,
    reads_bytes t.toUTF8.toList rest, bind, Option.bind, Text.fromUTF8?_toUTF8]
  rfl

theorem reads_valTypes {ts : List UInt8} (hl : ts.length < 0x100000000)
    (h : ts.all isValType = true) : Reads valTypes (encodeBlock ts) ts := by
  intro rest
  simp only [valTypes, encodeBlock, List.append_assoc, reads_encodeCount hl, reads_bytes ts rest,
    bind, Option.bind, h, if_true]

theorem reads_funcType {t : Binary.FuncType} (hp : t.params.length < 0x100000000)
    (hr : t.results.length < 0x100000000) (h : (t.params ++ t.results).all isValType = true) :
    Reads funcType t.encode t := by
  intro rest
  rw [List.all_append, Bool.and_eq_true] at h
  simp only [funcType, Binary.FuncType.encode, List.cons_append, byte, List.append_assoc,
    reads_valTypes hp h.1 (encodeBlock t.results ++ rest), reads_valTypes hr h.2 rest, bind,
    Option.bind, ne_eq, not_true_eq_false, if_false]
  rfl

theorem reads_globalType {t : Binary.GlobalType} (h : isValType t.valType = true) :
    Reads globalType t.encode t := by
  intro rest
  obtain ⟨v, m⟩ := t
  dsimp only at h
  cases m
  · simp only [globalType, Binary.GlobalType.encode, List.cons_append, List.nil_append, byte, bind,
      Option.bind, h]
    rfl
  · simp only [globalType, Binary.GlobalType.encode, List.cons_append, List.nil_append, byte, bind,
      Option.bind, h]
    rfl

/-- What an import asks for can be written for the machine. -/
def ImportFits : Binary.ImportDesc → Prop
  | .func _ => True
  | .global t => isValType t.valType = true
  | .other _ => False

theorem reads_import {i : Binary.Import} (hm : i.module.toUTF8.toList.length < 0x100000000)
    (hn : i.name.toUTF8.toList.length < 0x100000000) (hd : ImportFits i.desc) :
    Reads import' i.encode i := by
  intro rest
  obtain ⟨module, nm, desc⟩ := i
  cases desc with
  | func t =>
    simp only [import', Binary.Import.encode, Binary.ImportDesc.encode, List.append_assoc,
      List.cons_append, reads_name hm, reads_name hn, byte, bind, Option.bind, if_true,
      reads_encodeIndex t rest]
    simp
  | global t =>
    have hk : (Binary.kindGlobal = Binary.kindFunc) = False := by decide
    simp only [import', Binary.Import.encode, Binary.ImportDesc.encode, List.append_assoc,
      List.cons_append, reads_name hm, reads_name hn, byte, bind, Option.bind, if_true, hk,
      if_false, reads_globalType hd rest]
    rfl
  | other k => exact hd.elim

theorem reads_global {g : Binary.Global} (h : isValType g.type.valType = true) :
    Reads globalDef g.encode { type := g.type, init := .i64 g.init } := by
  intro rest
  have hi := reads_sleb64 g.init (Binary.opEnd :: rest)
  simp only [globalDef, Binary.Global.encode, Binary.encodeInt64, List.append_assoc,
    List.cons_append, List.nil_append, reads_globalType h, constExpr, byte, bind, Option.bind,
    show Binary.opI64Const.toNat = 0x42 from rfl, hi, pure, if_true, Int64.ofInt_toInt]

theorem reads_export {e : Binary.Export} (hn : e.name.toUTF8.toList.length < 0x100000000)
    (hk : e.kind ≤ 3) : Reads export' e.encode e := by
  intro rest
  simp only [export', Binary.Export.encode, List.append_assoc, List.cons_append, reads_name hn,
    byte, reads_encodeIndex e.index rest, bind, Option.bind, hk, if_true, UInt32.ofNat_toNat]

/-! ## Functions -/

theorem foldl_runs (ts : List UInt8) :
    (Binary.runs ts).foldl (fun n run => n + run.1) 0 = ts.length := by
  conv_rhs => rw [← Binary.flatMap_runs ts]
  rw [List.length_flatMap, List.sum_eq_foldl, List.foldl_map]
  simp

theorem reads_localRun {p : Nat × UInt8} (hn : p.1 < 0x100000000) (ht : isValType p.2 = true) :
    Reads localRun (encodeCount p.1 ++ [p.2]) p := by
  intro rest
  simp only [localRun, List.append_assoc, reads_encodeCount hn, List.cons_append, List.nil_append,
    byte, bind, Option.bind, ht, if_true]

/-- The entry of a function is read back: its locals and its instructions. -/
theorem reads_codeEntry {f : Binary.Func} {body : List Instr}
    (hsize : f.encode.length < 0x100000000) (hlocals : f.locals.length < 0x100000000)
    (htypes : f.locals.all isValType = true) (hbody : f.body = Instr.encodeAll body)
    (hfits : Instr.FitsAll body) : Reads codeEntry f.encode (f.locals, body) := by
  intro rest
  let raw := encodeVec (fun p : Nat × UInt8 => encodeCount p.1 ++ [p.2]) (Binary.runs f.locals)
    ++ (Instr.encodeAll body ++ [Binary.opEnd])
  have henc : f.encode = encodeBlock raw := by
    simp only [raw, Binary.Func.encode, hbody, List.append_assoc]
  have hraw : raw.length < 0x100000000 := by
    rw [henc, encodeBlock, List.length_append] at hsize
    omega
  have hruns : (Binary.runs f.locals).length < 0x100000000 := by
    have hle : (Binary.runs f.locals).length ≤ f.locals.length := by
      have h := @Binary.count_le_length_flatMap _ (fun p : Nat × UInt8 => List.replicate p.1 p.2)
        (Binary.runs f.locals) fun p hp => by
          rw [List.length_replicate]
          exact (Binary.mem_runs hp).2.1
      rwa [Binary.flatMap_runs] at h
    omega
  have hvec : Reads (vec localRun) (encodeVec (fun p : Nat × UInt8 => encodeCount p.1 ++ [p.2])
      (Binary.runs f.locals)) ((Binary.runs f.locals).map id) := by
    refine reads_vec (fun p hp => ?_) (by simp) hruns
    have hp := Binary.mem_runs hp
    exact reads_localRun (by omega) (List.all_eq_true.1 htypes _ hp.1)
  rw [List.map_id] at hvec
  have hsum : ¬ 0x100000000 ≤ (Binary.runs f.locals).foldl (fun n run => n + run.1) 0 := by
    rw [foldl_runs]
    omega
  have hinstrs : instrs ((Instr.encodeAll body ++ [Binary.opEnd]).length + 1)
      (Instr.encodeAll body ++ [Binary.opEnd]) = some ((body, .end), []) := by
    exact instrs_encodeAll hfits (by rw [List.length_append]; omega) .end []
  rw [henc]
  simp only [codeEntry, encodeBlock, List.append_assoc, reads_encodeCount hraw,
    reads_bytes raw rest, bind, Option.bind]
  simp only [raw, hvec (Instr.encodeAll body ++ [Binary.opEnd]), hsum, if_false, hinstrs,
    Binary.flatMap_runs, List.isEmpty_nil, decide_true, Bool.and_self, if_true]

end Decode

/-! ## Modules -/

/-- The module that a binary is decoded to, given the instructions of its functions. -/
def Module.ofBinary (m : Binary.Module) (bodies : List (List Instr)) : Module :=
  { types := m.types
    imports := m.imports
    funcTypes := m.funcs.map (·.typeIdx.toNat)
    code := (m.funcs.zip bodies).map fun (f, body) => (f.locals, body)
    globals := m.globals.map fun g => { type := g.type, init := .i64 g.init }
    exports := m.exports }

/-- A binary that the machine can decode: its value types are some of the machine, its counts fit
in 32 bits and its functions are written from instructions. -/
structure Writable (m : Binary.Module) (bodies : List (List Instr)) : Prop where
  size : m.encode.length < 0x100000000
  types : ∀ t ∈ m.types, (t.params ++ t.results).all Decode.isValType = true
  imports : ∀ i ∈ m.imports, Decode.ImportFits i.desc
  written : m.funcs.map (·.body) = bodies.map Instr.encodeAll
  fits : ∀ body ∈ bodies, Instr.FitsAll body
  locals : ∀ f ∈ m.funcs, f.locals.length < 0x100000000 ∧ f.locals.all Decode.isValType = true
  globals : ∀ g ∈ m.globals, Decode.isValType g.type.valType = true
  exports : ∀ e ∈ m.exports, e.kind ≤ 3

namespace Writable

variable {m : Binary.Module} {bodies : List (List Instr)}

open Decode (Reads)

/-- A section of items is decoded to all of them. -/
theorem whole_vec {α β : Type} (item : Decode.Reader β) (enc : α → List UInt8) (f : α → β)
    {as : List α} (h : ∀ a ∈ as, Reads item (enc a) (f a)) (hpos : ∀ a, 0 < (enc a).length)
    (hs : (encodeVec enc as).length < 0x100000000) :
    Decode.whole (Decode.vec item) (encodeVec enc as) = some (as.map f) := by
  have hl : as.length < 0x100000000 := by
    have hle := @Binary.count_le_length_flatMap _ enc as fun a _ => hpos a
    rw [encodeVec, List.length_append] at hs
    omega
  exact Decode.whole_of_reads (Decode.reads_vec h (fun a _ => hpos a) hl)

/-- Items that are read back as they are. -/
theorem whole_vec_self {α : Type} (item : Decode.Reader α) (enc : α → List UInt8)
    {as : List α} (h : ∀ a ∈ as, Reads item (enc a) a) (hpos : ∀ a, 0 < (enc a).length)
    (hs : (encodeVec enc as).length < 0x100000000) :
    Decode.whole (Decode.vec item) (encodeVec enc as) = some as := by
  have hw := whole_vec item enc id h hpos hs
  rwa [List.map_id] at hw

theorem whole_types (h : Writable m bodies)
    (hs : (encodeVec Binary.FuncType.encode m.types).length < 0x100000000) :
    Decode.whole (Decode.vec Decode.funcType) (encodeVec Binary.FuncType.encode m.types) =
      some m.types := by
  refine whole_vec_self _ _ (fun t ht => ?_) (fun t => by simp [Binary.FuncType.encode]) hs
  have hlt := Binary.item_lt hs ht
  simp only [Binary.FuncType.encode, encodeBlock, List.length_cons, List.length_append] at hlt
  exact Decode.reads_funcType (by omega) (by omega) (h.types t ht)

theorem whole_imports (h : Writable m bodies)
    (hs : (encodeVec Binary.Import.encode m.imports).length < 0x100000000) :
    Decode.whole (Decode.vec Decode.import') (encodeVec Binary.Import.encode m.imports) =
      some m.imports := by
  refine whole_vec_self _ _ (fun i hi => ?_) Binary.Import.length_encode_pos hs
  have hlt := Binary.item_lt hs hi
  simp only [Binary.Import.encode, encodeName, encodeBlock, List.length_append] at hlt
  exact Decode.reads_import (by omega) (by omega) (h.imports i hi)

theorem whole_funcs (_h : Writable m bodies)
    (hs : (encodeVec (fun f : Binary.Func => encodeIndex f.typeIdx) m.funcs).length < 0x100000000) :
    Decode.whole (Decode.vec Decode.u32)
        (encodeVec (fun f : Binary.Func => encodeIndex f.typeIdx) m.funcs) =
      some (m.funcs.map (·.typeIdx.toNat)) :=
  whole_vec Decode.u32 (fun f : Binary.Func => encodeIndex f.typeIdx) (·.typeIdx.toNat)
    (fun f _ => Decode.reads_encodeIndex f.typeIdx) (fun _ => (Binary.leb_uleb _).length_pos) hs

theorem whole_globals (h : Writable m bodies)
    (hs : (encodeVec Binary.Global.encode m.globals).length < 0x100000000) :
    Decode.whole (Decode.vec Decode.globalDef) (encodeVec Binary.Global.encode m.globals) =
      some (m.globals.map fun g => { type := g.type, init := .i64 g.init }) :=
  whole_vec Decode.globalDef Binary.Global.encode
    (fun g => { type := g.type, init := .i64 g.init })
    (fun g hg => Decode.reads_global (h.globals g hg))
    (fun g => by simp [Binary.Global.encode, Binary.GlobalType.encode]) hs

theorem whole_exports (h : Writable m bodies)
    (hs : (encodeVec Binary.Export.encode m.exports).length < 0x100000000) :
    Decode.whole (Decode.vec Decode.export') (encodeVec Binary.Export.encode m.exports) =
      some m.exports := by
  refine whole_vec_self _ _ (fun e he => ?_) (fun e => by simp [Binary.Export.encode]) hs
  have hlt := Binary.item_lt hs he
  simp only [Binary.Export.encode, encodeName, encodeBlock, List.length_append] at hlt
  exact Decode.reads_export (by omega) (h.exports e he)

theorem whole_code (h : Writable m bodies)
    (hs : (encodeVec Binary.Func.encode m.funcs).length < 0x100000000) :
    Decode.whole (Decode.vec Decode.codeEntry) (encodeVec Binary.Func.encode m.funcs) =
      some ((m.funcs.zip bodies).map fun (f, body) => (f.locals, body)) := by
  -- the functions with their instructions beside them
  have hlen : m.funcs.length = bodies.length := by simpa using congrArg List.length h.written
  have hfst : (m.funcs.zip bodies).map (·.1) = m.funcs :=
    List.map_fst_zip (Nat.le_of_eq hlen)
  have henc : encodeVec Binary.Func.encode m.funcs =
      encodeVec (fun p : Binary.Func × List Instr => p.1.encode) (m.funcs.zip bodies) := by
    conv_lhs => rw [← hfst]
    simp only [encodeVec, List.length_map, List.flatMap_map]
  rw [henc]
  refine whole_vec Decode.codeEntry (fun p : Binary.Func × List Instr => p.1.encode)
    (fun p => (p.1.locals, p.2)) (fun p hp => ?_) (fun p => ?_) (henc ▸ hs)
  · have hf : p.1 ∈ m.funcs := (List.of_mem_zip hp).1
    have hl := h.locals p.1 hf
    refine Decode.reads_codeEntry (Binary.item_lt hs hf) hl.1 hl.2 ?_ (h.fits p.2 (List.of_mem_zip hp).2)
    obtain ⟨i, hi, rfl⟩ := List.getElem_of_mem hp
    rw [List.length_zip] at hi
    have hw := congrArg (·[i]?) h.written
    simpa [List.getElem?_map, List.getElem?_eq_getElem (show i < m.funcs.length by omega),
      List.getElem?_eq_getElem (show i < bodies.length by omega)] using hw
  · simp [Binary.Func.encode, encodeBlock]

end Writable

/-- How decoding takes a section into account. -/
def Decode.sectionStep (m : Module) (p : UInt8 × List UInt8) : Except Binary.Fault Module :=
  match Decode.addSection m { id := p.1, body := p.2, raw := Binary.encodeSection p.1 p.2 } with
  | some m => .ok m
  | none => .error .truncated

/-- Sections that the machine has no use for change nothing. -/
private theorem foldlM_customs (customs : List Binary.Custom) (m : Module)
    (h : ∀ c ∈ customs, (encodeName c.name ++ c.data).length < 0x100000000) :
    (customs.map fun c => ((0 : UInt8), encodeName c.name ++ c.data)).foldlM
      Decode.sectionStep m = .ok m := by
  induction customs with
  | nil => rfl
  | cons c customs ih =>
    have hc := h c List.mem_cons_self
    rw [encodeName, encodeBlock, List.length_append, List.length_append] at hc
    have hname := Decode.reads_name (t := c.name) (by omega) c.data
    have hstep : Decode.sectionStep m (0, encodeName c.name ++ c.data) = .ok m := by
      simp only [Decode.sectionStep, Decode.addSection, show (0 : UInt8).toNat = 0 from rfl, hname,
        bind, Option.bind, pure]
    rw [List.map_cons, List.foldlM_cons, hstep]
    exact ih fun d hd => h d (List.mem_cons_of_mem _ hd)

/-- The sections of a module make up the module. -/
private theorem Writable.foldlM_sections {m : Binary.Module} {bodies : List (List Instr)}
    (h : Writable m bodies) :
    m.sections.foldlM Decode.sectionStep {} = .ok (Module.ofBinary m bodies) := by
  have htypes :=
    h.whole_types (Binary.Module.items_lt h.size 1 fun p hp => by simp [Binary.Module.sections, hp])
  have himports :=
    h.whole_imports (Binary.Module.items_lt h.size 2 fun p hp => by simp [Binary.Module.sections, hp])
  have hfuncs :=
    h.whole_funcs (Binary.Module.items_lt h.size 3 fun p hp => by simp [Binary.Module.sections, hp])
  have hglobals :=
    h.whole_globals (Binary.Module.items_lt h.size 6 fun p hp => by simp [Binary.Module.sections, hp])
  have hexports :=
    h.whole_exports (Binary.Module.items_lt h.size 7 fun p hp => by simp [Binary.Module.sections, hp])
  have hcode :=
    h.whole_code (Binary.Module.items_lt h.size 10 fun p hp => by simp [Binary.Module.sections, hp])
  have hcustoms : ∀ c ∈ m.customs, (encodeName c.name ++ c.data).length < 0x100000000 :=
    fun c hc => Binary.Module.section_lt h.size (p := (0, encodeName c.name ++ c.data)) (by
      simp only [Binary.Module.sections, List.mem_append, List.mem_map]
      exact .inr ⟨c, hc, rfl⟩)
  refine Binary.foldlM_append_ok (Binary.foldlM_append_ok (Binary.foldlM_append_ok (Binary.foldlM_append_ok
    (Binary.foldlM_append_ok (Binary.foldlM_append_ok
      (Binary.foldlM_itemSection (t := { types := m.types }) ?_ ?_)
      (Binary.foldlM_itemSection (t := { types := m.types, imports := m.imports }) ?_ ?_))
      (Binary.foldlM_itemSection
        (t := { Module.ofBinary m bodies with globals := [], exports := [], code := [] }) ?_ ?_))
      (Binary.foldlM_itemSection (t := { Module.ofBinary m bodies with exports := [], code := [] }) ?_ ?_))
      (Binary.foldlM_itemSection (t := { Module.ofBinary m bodies with code := [] }) ?_ ?_))
      (Binary.foldlM_itemSection (t := Module.ofBinary m bodies) ?_ ?_))
    (foldlM_customs m.customs _ hcustoms)
  · intro hnil
    rw [hnil]
  · simp only [Decode.sectionStep, Decode.addSection, show (1 : UInt8).toNat = 1 from rfl, htypes]
    rfl
  · intro hnil
    rw [hnil]
  · simp only [Decode.sectionStep, Decode.addSection, show (2 : UInt8).toNat = 2 from rfl, himports]
    rfl
  · intro hnil
    simp only [Module.ofBinary, hnil, List.map_nil]
  · simp only [Decode.sectionStep, Decode.addSection, show (3 : UInt8).toNat = 3 from rfl, hfuncs]
    rfl
  · intro hnil
    simp only [Module.ofBinary, hnil, List.map_nil]
  · simp only [Decode.sectionStep, Decode.addSection, show (6 : UInt8).toNat = 6 from rfl, hglobals]
    rfl
  · intro hnil
    simp only [Module.ofBinary, hnil]
  · simp only [Decode.sectionStep, Decode.addSection, show (7 : UInt8).toNat = 7 from rfl, hexports]
    rfl
  · intro hnil
    simp only [Module.ofBinary, hnil, List.zip_nil_left, List.map_nil]
  · simp only [Decode.sectionStep, Decode.addSection, show (10 : UInt8).toNat = 10 from rfl, hcode]
    rfl

/-- A written module is decoded to the module that it was written from. -/
theorem Module.decode?_encode {m : Binary.Module} {bodies : List (List Instr)}
    (h : Writable m bodies) : Module.decode? m.encode = some (Module.ofBinary m bodies) := by
  simp only [Module.decode?, Binary.Module.encode_eq, Binary.checkHeader_append]
  rw [Binary.foldSections_encode _ _ _ fun p hp => Binary.Module.section_lt h.size hp]
  generalize hread : List.foldlM (m := Except Binary.Fault) _ _ m.sections = read
  have hmodule : read = .ok (Module.ofBinary m bodies) := hread.symm.trans h.foldlM_sections
  rw [hmodule]

/-! ## Other module names -/

/-- The module with imports from other modules. -/
def Module.redirect (target : String → String → String) (m : Module) : Module :=
  { m with imports := m.imports.map (Binary.Import.redirect target) }

theorem Writable.redirect {m : Binary.Module} {bodies : List (List Instr)}
    {target : String → String → String} (h : Writable m bodies)
    (hsize : (m.redirect target).encode.length < 0x100000000) :
    Writable (m.redirect target) bodies := by
  refine ⟨hsize, h.types, fun i hi => ?_, h.written, h.fits, h.locals, h.globals, h.exports⟩
  obtain ⟨j, hj, rfl⟩ := List.mem_map.1 hi
  exact h.imports j hj

/-- Whether a module keeps to the rules has nothing to do with where its imports come from. -/
theorem Module.valid_redirect (target : String → String → String) (m : Module) :
    (m.redirect target).valid = m.valid := by
  have hfuncs : (m.redirect target).imports.filterMap (·.desc.func?) =
      m.imports.filterMap (·.desc.func?) := List.filterMap_map
  have hglobals : (m.redirect target).importedGlobals = m.importedGlobals := List.filterMap_map
  have htypes : (m.redirect target).globalTypes = m.globalTypes := by
    unfold globalTypes
    rw [hglobals]
    rfl
  have hinits : (m.redirect target).initFits = m.initFits := by
    unfold initFits
    rw [hglobals]
  have hexports : (m.redirect target).exportFits = m.exportFits := by
    unfold exportFits
    rw [htypes]
  unfold valid signatures?
  rw [hfuncs, htypes, hinits, hexports]
  rfl

end WasmLisp.Machine
