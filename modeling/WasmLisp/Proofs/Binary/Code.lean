import Mathlib
import WasmLisp.Proofs.Binary.Local

/-!
# What is read back of a written module

* `flatMap_runs`, `isChain_runs`: runs stand for the list they were made from, and neighbouring runs are
  of different items;
* `CodeEntry`, `codeEntries`: the entries of the code section of a binary, as a machine reads them;
* `Module.encode_read_back`: the view of a written module and the entries of its code.
-/

namespace WasmLisp.Binary

/-! ## Runs -/

/-- Runs of equal neighbours stand for the neighbours. -/
theorem flatMap_runs (ts : List UInt8) :
    (runs ts).flatMap (fun (n, t) => List.replicate n t) = ts := by
  induction ts with
  | nil => rfl
  | cons t ts ih =>
    rw [runs]
    split
    · rename_i n u more heq
      rw [heq, List.flatMap_cons] at ih
      split
      · rename_i htu
        subst htu
        simpa [List.replicate_succ] using ih
      · simpa using ih
    · rename_i heq
      rw [heq] at ih
      simpa using ih

/-- Equal neighbours are in one run. -/
theorem isChain_runs (ts : List UInt8) : (runs ts).IsChain fun p q => p.2 ≠ q.2 := by
  induction ts with
  | nil => exact .nil
  | cons t ts ih =>
    rw [runs]
    split
    · rename_i n u more heq
      rw [heq] at ih
      split
      · cases ih with
        | singleton => exact .singleton _
        | cons_cons h hs => exact .cons_cons h hs
      · rename_i htu
        exact .cons_cons htu ih
    · exact .singleton _

theorem pos_of_mem_runs {ts : List UInt8} {p : Nat × UInt8} (h : p ∈ runs ts) : 0 < p.1 := by
  induction ts generalizing p with
  | nil => simp [runs] at h
  | cons t ts ih =>
    rw [runs] at h
    split at h
    · rename_i n u more heq
      rw [heq] at ih
      split at h
      · rcases List.mem_cons.mp h with rfl | h
        · exact Nat.succ_pos n
        · exact ih (List.mem_cons_of_mem _ h)
      · rcases List.mem_cons.mp h with rfl | h
        · exact Nat.one_pos
        · exact ih h
    · rw [List.mem_singleton.mp h]
      exact Nat.one_pos

theorem mem_runs {ts : List UInt8} {p : Nat × UInt8} (h : p ∈ runs ts) :
    p.2 ∈ ts ∧ 0 < p.1 ∧ p.1 ≤ ts.length := by
  have hpos := pos_of_mem_runs h
  refine ⟨?_, hpos, ?_⟩
  · rw [← flatMap_runs ts]
    exact List.mem_flatMap.2 ⟨p, h, List.mem_replicate.mpr ⟨by omega, rfl⟩⟩
  · have hl := length_le_length_flatMap (fun p : Nat × UInt8 => List.replicate p.1 p.2) h
    rwa [List.length_replicate, flatMap_runs] at hl

/-- Equal items are one run. -/
theorem runs_replicate (n : Nat) (t : UInt8) :
    runs (List.replicate (n + 1) t) = [(n + 1, t)] := by
  induction n with
  | zero => rfl
  | succ n ih =>
    rw [List.replicate_succ, runs, ih]
    exact if_pos rfl

/-! ## Entries -/

/-- An entry of the code section: how many locals of which type follow each other, and all bytes after
these declarations. -/
structure CodeEntry where
  declarations : List (UInt32 × UInt8)
  code : List UInt8
  deriving DecidableEq, Repr

/-- The locals that the declarations stand for. -/
def CodeEntry.locals (e : CodeEntry) : List UInt8 :=
  e.declarations.flatMap fun (n, t) => List.replicate n.toNat t

namespace Decode

def declaration : Decode (UInt32 × UInt8) := do
  let n ← u32
  return (n, ← byte)

/-- An entry, which is as long as its size says. -/
def codeEntry : Decode CodeEntry := do
  let raw ← take (← u32).toNat
  match vec declaration { rest := raw } with
  | .ok (declarations, c) => return { declarations, code := c.rest }
  | .error e => fail e

end Decode

/-- Takes the entries of a section of code. -/
def addEntries (entries : List CodeEntry) (s : RawSection) : Except Fault (List CodeEntry) :=
  if s.id ≠ 10 then .ok entries else
    match Decode.vec Decode.codeEntry { rest := s.body } with
    | .ok (more, _) => .ok (entries ++ more)
    | .error e => .error (.inSection s.id e)

/-- The entries of the code of a binary. -/
def codeEntries (bin : List UInt8) : Except Fault (List CodeEntry) := do
  let ((), c) ← checkHeader { rest := bin }
  foldSections addEntries [] c.rest

/-! ## The entry of a function -/

/-- What is written of a function. A run of locals is counted in 32 bits. -/
def Func.codeEntry (f : Func) : CodeEntry :=
  { declarations := (runs f.locals).map fun (n, t) => (UInt32.ofNat n, t)
    code := f.body ++ [opEnd] }

namespace Func

variable {f : Func}

/-- Neighbouring declarations are of different types. -/
theorem isChain_declarations (f : Func) :
    f.codeEntry.declarations.IsChain fun p q => p.2 ≠ q.2 := by
  rw [codeEntry, List.isChain_map]
  exact isChain_runs f.locals

theorem reads_declaration (p : Nat × UInt8) :
    Decode.Reads Decode.declaration (encodeCount p.1 ++ [p.2]) (UInt32.ofNat p.1, p.2) :=
  (Decode.reads_encodeIndex (UInt32.ofNat p.1)).bind
    ((Decode.reads_byte p.2).map fun t => (UInt32.ofNat p.1, t))

theorem reads_encode (hsize : f.encode.length < 0x100000000) :
    Decode.Reads Decode.codeEntry f.encode f.codeEntry := by
  let item := fun (p : Nat × UInt8) => encodeCount p.1 ++ [p.2]
  have hencode : f.encode = encodeBlock (encodeVec item (runs f.locals) ++ f.body ++ [opEnd]) := rfl
  rw [hencode, encodeBlock] at hsize
  simp only [List.length_append, encodeVec] at hsize
  have hcount : (runs f.locals).length < 0x100000000 := by
    have hle : (runs f.locals).length ≤ ((runs f.locals).flatMap item).length :=
      count_le_length_flatMap fun p _ => by simp [item]
    omega
  have hitems : List.Forall₂ (fun a b => Decode.Reads Decode.declaration (item a) b)
      (runs f.locals) f.codeEntry.declarations :=
    List.forall₂_map_right_iff.mpr (List.forall₂_same.mpr fun p _ => reads_declaration p)
  have hdeclarations := Decode.reads_encodeVec hitems hcount (f.body ++ [opEnd]) 0
  rw [hencode, ← List.append_nil (encodeBlock _)]
  refine Decode.reads_encodeBlock ?_ ?_
  · simp only [List.length_append, encodeVec]
    omega
  · rw [List.append_assoc, hdeclarations]
    exact .pure _

/-- The declarations stand for the locals unless a run of them is longer than 32 bits count. -/
theorem locals_codeEntry (f : Func) :
    f.codeEntry.locals = f.locals ↔ ∀ p ∈ runs f.locals, p.1 < 0x100000000 := by
  have hlocals : f.codeEntry.locals =
      (runs f.locals).flatMap fun p => List.replicate (p.1 % 0x100000000) p.2 := by
    rw [CodeEntry.locals, codeEntry, List.flatMap_map]
    rfl
  rw [hlocals]
  constructor
  · intro h p hp
    by_contra hlarge
    have hlost : ((runs f.locals).map fun p => p.1 % 0x100000000).sum <
        ((runs f.locals).map fun p => p.1).sum :=
      List.sum_lt_sum _ _ (fun q _ => Nat.mod_le _ _) ⟨p, hp, by omega⟩
    have hlength := congrArg List.length (h.trans (flatMap_runs f.locals).symm)
    simp only [List.length_flatMap, List.length_replicate] at hlength
    omega
  · intro h
    conv_rhs => rw [← flatMap_runs f.locals]
    exact List.flatMap_congr fun p hp => by rw [Nat.mod_eq_of_lt (h p hp)]

end Func

/-! ## Modules -/

namespace Module

variable {m : Module}

theorem read_code (hsize : m.encode.length < 0x100000000) :
    Decode.vec Decode.codeEntry { rest := encodeVec Func.encode m.funcs } =
      .ok (m.funcs.map Func.codeEntry,
        { rest := [], offset := (encodeVec Func.encode m.funcs).length }) := by
  have hs : (encodeVec Func.encode m.funcs).length < 0x100000000 :=
    items_lt hsize 10 fun p hp => by simp [sections, hp]
  refine Decode.vec_encodeVec (fun f hf => Func.reads_encode (item_lt hs hf)) (fun f _ => ?_) hs
  simp only [Func.encode, encodeBlock, List.length_append, List.length_singleton]
  omega

theorem codeEntries_encode (hsize : m.encode.length < 0x100000000) :
    codeEntries m.encode = .ok (m.funcs.map Func.codeEntry) := by
  let step := fun (entries : List CodeEntry) (p : UInt8 × List UInt8) =>
    addEntries entries (.written p)
  have hskip : ∀ (p : UInt8 × List UInt8) (entries : List CodeEntry), p.1 ≠ 10 →
      step entries p = .ok entries := fun p entries hp => if_pos hp
  have hcode : step [] (10, encodeVec Func.encode m.funcs) = .ok (m.funcs.map Func.codeEntry) := by
    simp [step, RawSection.written, addEntries, read_code hsize]
  have hfold : m.sections.foldlM step [] = .ok (m.funcs.map Func.codeEntry) := by
    refine foldlM_append_ok (foldlM_append_ok (foldlM_unchanged fun p hp => ?_)
      (foldlM_itemSection (fun h => by rw [h, List.map_nil]) hcode))
      (foldlM_unchanged fun p hp => ?_)
    · refine hskip p [] ?_
      simp only [List.mem_append] at hp
      rcases hp with (((hp | hp) | hp) | hp) | hp <;> rw [fst_of_mem_itemSection hp] <;> decide
    · obtain ⟨c, -, rfl⟩ := List.mem_map.mp hp
      exact hskip _ _ (show (0 : UInt8) ≠ 10 by decide)
  simp only [codeEntries, encode_eq, checkHeader_append, bind, Except.bind]
  rw [foldSections_encode addEntries [] m.sections fun p hp => section_lt hsize hp]
  exact hfold

/-- A written module is read back: linking sees its types, imports, exports, custom sections in order and
the types of its globals, and the code has an entry for each function, in order. An entry consists of
declarations, neighbouring ones of which are of different types, and of the body with one end byte.
The declarations count equal neighbours in 32 bits, so they stand for the locals of the function
exactly if it has no more of one type in a row than these bits count. -/
theorem encode_read_back (hplain : m.Plain) (hsize : m.encode.length < 0x100000000) :
    Info.inspect m.encode = .ok
      { types := m.types, imports := m.imports, exports := m.exports, customs := m.customs
        globals := m.globals.map (·.type) } ∧
    ∃ entries, codeEntries m.encode = .ok entries ∧
      List.Forall₂ (fun f e => e.code = f.body ++ [opEnd] ∧
        (e.declarations.IsChain fun p q => p.2 ≠ q.2) ∧
        (e.locals = f.locals ↔ ∀ p ∈ runs f.locals, p.1 < 0x100000000)) m.funcs entries := by
  refine ⟨Info.inspect_encode hplain hsize, _, codeEntries_encode hsize, ?_⟩
  rw [List.forall₂_map_right_iff, List.forall₂_same]
  exact fun f _ => ⟨rfl, f.isChain_declarations, f.locals_codeEntry⟩

/-- A module that imports a function and a global, with a function that has three locals. -/
def threeLocals : Module :=
  { types := [.ofCounts 1 1]
    imports := [⟨"env", "f", .func 0⟩, ⟨"env", "g", .global ⟨i64, true⟩⟩]
    funcs := [{ typeIdx := 0, locals := [i64, i64, i32], body := [0x20, 0] }]
    globals := [⟨⟨i64, false⟩, -65⟩]
    exports := [⟨"main", kindFunc, 1⟩]
    customs := [⟨"note", [1, 2, 3]⟩] }

theorem encode_read_back_threeLocals :
    (threeLocals.Plain ∧ threeLocals.encode.length < 0x100000000) ∧
      Info.inspect threeLocals.encode = .ok
        { types := [.ofCounts 1 1]
          imports := [⟨"env", "f", .func 0⟩, ⟨"env", "g", .global ⟨i64, true⟩⟩]
          exports := [⟨"main", kindFunc, 1⟩], customs := [⟨"note", [1, 2, 3]⟩]
          globals := [⟨i64, false⟩] } ∧
      ∃ e, codeEntries threeLocals.encode = .ok [e] ∧ e.code = [0x20, 0, opEnd] ∧
        e.locals = [i64, i64, i32] := by
  have hplain : threeLocals.Plain := by
    simp [Plain, threeLocals]
  have hsize : threeLocals.encode.length < 0x100000000 := by
    have hlength : threeLocals.encode.length = 81 := by cbv
    omega
  obtain ⟨hview, entries, hentries, hwritten⟩ := encode_read_back hplain hsize
  obtain ⟨e, rest, ⟨hcode, -, hlocals⟩, hrest, rfl⟩ := List.forall₂_cons_left_iff.mp hwritten
  cases hrest
  exact ⟨⟨hplain, hsize⟩, hview, e, hentries, hcode, hlocals.mpr (by decide)⟩

/-- A module that exports its only function, which takes nothing. -/
def single (f : Func) : Module :=
  { types := [.ofCounts 0 1], funcs := [f], exports := [⟨"init", kindFunc, 0⟩] }

theorem encode_single (f : Func) :
    (single f).encode = header ++ [1, 5, 1, 0x60, 0, 1, 0x7e] ++
      encodeSection 3 (1 :: encodeIndex f.typeIdx) ++
      [7, 8, 1, 4, 0x69, 0x6e, 0x69, 0x74, 0, 0] ++ encodeSection 10 (1 :: f.encode) := by
  have htypes : encodeItems 1 FuncType.encode [.ofCounts 0 1] = [1, 5, 1, 0x60, 0, 1, 0x7e] := by cbv
  have hexports : encodeItems 7 Export.encode [⟨"init", kindFunc, 0⟩] =
      [7, 8, 1, 4, 0x69, 0x6e, 0x69, 0x74, 0, 0] := by cbv
  have hone : encodeCount 1 = [1] := by cbv
  rw [encode, single, htypes, hexports]
  simp [encodeItems, encodeVec, hone]

/-- A function with one local more than 32 bits count. -/
def manyLocals : Func :=
  { typeIdx := 0, locals := List.replicate 0x100000000 i64, body := [opI64Const, 0] }

/-- The binary of a module is short although a function of it has so many locals, and the entry of the
function declares none of them. -/
theorem manyLocals_lost :
    (single manyLocals).Plain ∧
      (single manyLocals).encode = header ++
        [1, 5, 1, 0x60, 0, 1, 0x7e, 3, 2, 1, 0, 7, 8, 1, 4, 0x69, 0x6e, 0x69, 0x74, 0, 0,
          10, 8, 1, 6, 1, 0, 0x7e, 0x42, 0, 0x0b] ∧
      ∃ e, codeEntries (single manyLocals).encode = .ok [e] ∧
        e.locals = [] ∧ manyLocals.locals.length = 0x100000000 := by
  have hruns : runs manyLocals.locals = [(0x100000000, i64)] := runs_replicate 0xffffffff i64
  have hfunc : manyLocals.encode = [6, 1, 0, 0x7e, 0x42, 0, 0x0b] := by
    have hbody : manyLocals.body = [opI64Const, 0] := rfl
    rw [Func.encode, hruns, hbody]
    cbv
  have hencode : (single manyLocals).encode = header ++
      [1, 5, 1, 0x60, 0, 1, 0x7e, 3, 2, 1, 0, 7, 8, 1, 4, 0x69, 0x6e, 0x69, 0x74, 0, 0,
        10, 8, 1, 6, 1, 0, 0x7e, 0x42, 0, 0x0b] := by
    have hindex : manyLocals.typeIdx = 0 := rfl
    rw [encode_single, hfunc, hindex]
    cbv
  have hsize : (single manyLocals).encode.length < 0x100000000 := by
    rw [hencode]
    decide
  refine ⟨?_, hencode, manyLocals.codeEntry, codeEntries_encode hsize, ?_, List.length_replicate⟩
  · simp [Plain, single]
  · rw [CodeEntry.locals, Func.codeEntry, hruns]
    rfl

end Module

end WasmLisp.Binary
