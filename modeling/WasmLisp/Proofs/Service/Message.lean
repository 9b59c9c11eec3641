import Mathlib
import WasmLisp.Service.Message
import WasmLisp.Proofs.Cbor.Accepted
import WasmLisp.Proofs.Manifest

/-!
# Messages are read back as they were written

* `Service.receive_encode`: bytes that are one message are received as that message, or as none;
* `Service.Request.Sendable.received`, `Service.Response.Sendable.received`: they are received as it if
  its lists and its size are within the limits.
-/

namespace WasmLisp

open Cbor (Accepts Recovers Restores readItem)

/-! ## Records with fields that can be left out -/

namespace Cbor

/-- The fields that are there. -/
def present (fields : List (String × Option Cbor)) : List (String × Cbor) :=
  fields.flatMap fun f => f.2.toList.map (f.1, ·)

/-- A text, unless it is empty. -/
def ofText (s : String) : Option Cbor := if s = "" then none else some (text s)

/-- Bytes, unless there are none. -/
def ofBytes (data : List UInt8) : Option Cbor := if data.isEmpty then none else some (bytes data)

/-- A list, unless it is empty. -/
def ofItems {α : Type} (write : α → Cbor) (as : List α) : Option Cbor :=
  if as.isEmpty then none else some (array (as.map write))

theorem textUnlessEmpty_eq (name s : String) :
    textUnlessEmpty name s = (ofText s).toList.map (name, ·) := by
  unfold textUnlessEmpty ofText
  split <;> rfl

theorem arrayUnlessEmpty_eq {α : Type} (name : String) (write : α → Cbor) (as : List α) :
    arrayUnlessEmpty name (as.map write) = (ofItems write as).toList.map (name, ·) := by
  cases as <;> rfl

section

variable {fields : List (String × Option Cbor)}

theorem map_fst_present (fields : List (String × Option Cbor)) :
    ((present fields).map Prod.fst).Sublist (fields.map Prod.fst) := by
  induction fields with
  | nil => exact .refl _
  | cons f fields ih =>
    obtain ⟨key, _ | c⟩ := f
    · exact ih.cons _
    · exact ih.cons_cons _

theorem lookup_present (h : (fields.map Prod.fst).Nodup) (key : String) :
    (present fields).lookup key = (fields.lookup key).join := by
  induction fields with
  | nil => rfl
  | cons f fields ih =>
    obtain ⟨name, c⟩ := f
    rw [List.map_cons, List.nodup_cons] at h
    have hrest : (present ((name, c) :: fields)).lookup key =
        (c.toList.map (name, ·) ++ present fields).lookup key := rfl
    rw [hrest, List.lookup_append, ih h.2, List.lookup_cons]
    by_cases hkey : key = name
    · subst hkey
      have hnone : fields.lookup key = none := by
        rw [List.lookup_eq_none_iff]
        intro f hf
        have hne : key ≠ f.1 := fun heq => h.1 (List.mem_map.mpr ⟨f, hf, heq.symm⟩)
        simpa using hne
      cases c <;> simp [hnone]
    · cases c <;> simp [List.lookup_cons, beq_false_of_ne hkey]

/-- A record is read back as the fields that it was written from. -/
theorem asRecord_present {names : List String} (keys : List String) (hkeys : fields.map Prod.fst = keys)
    (hnodup : keys.Nodup) (hnames : keys ⊆ names) :
    ∃ r, asRecord names (record (present fields)).sorted = .ok r ∧
      ∀ name, r.lookup name = (fields.lookup name).join.map sorted := by
  subst hkeys
  obtain ⟨r, hr, hlookup⟩ := asRecord_of_sublist (map_fst_present fields) hnodup hnames
  exact ⟨r, hr, fun name => by rw [hlookup, lookup_present hnodup]⟩

theorem mem_present {f : String × Cbor} (h : f ∈ present fields) : ∃ g ∈ fields, f.2 ∈ g.2 := by
  obtain ⟨g, hg, hmem⟩ := List.mem_flatMap.mp h
  obtain ⟨c, hc, rfl⟩ := List.mem_map.mp hmem
  exact ⟨g, hg, Option.mem_toList.mp hc⟩

theorem regular_present (h : ∀ f ∈ fields, ∀ c ∈ f.2, c.Regular) :
    (record (present fields)).Regular := by
  apply regular_record
  intro f hf
  obtain ⟨g, hg, hmem⟩ := mem_present hf
  exact h g hg f.2 hmem

/-- A record is accepted one level above its fields. -/
theorem accepts_present {limits : Limits} {levels : Nat} (hlimit : fields.length ≤ limits.mapEntries)
    (hsize : limits.mapEntries < 0x10000000000000000)
    (h : ∀ f ∈ fields, ∀ c ∈ f.2, Accepts (readItem limits levels) c) :
    Accepts (readItem limits (levels + 1)) (record (present fields)) := by
  have hle : (present fields).length ≤ fields.length := by
    simpa using (map_fst_present fields).length_le
  refine accepts_record (hle.trans hlimit) hsize fun f hf => ?_
  obtain ⟨g, hg, hmem⟩ := mem_present hf
  exact h g hg f.2 hmem

end

section

variable {P : Cbor → Prop}

theorem forall_mem_some {c : Cbor} (h : P c) : ∀ d ∈ some c, P d := by
  rintro _ ⟨rfl⟩
  exact h

theorem forall_mem_ofText {s : String} (h : P (text s)) : ∀ c ∈ ofText s, P c := by
  unfold ofText
  split
  · rintro _ ⟨⟩
  · exact forall_mem_some h

theorem forall_mem_ofBytes {data : List UInt8} (h : P (bytes data)) : ∀ c ∈ ofBytes data, P c := by
  unfold ofBytes
  split
  · rintro _ ⟨⟩
  · exact forall_mem_some h

theorem forall_mem_ofItems {α : Type} {write : α → Cbor} {as : List α} (h : P (array (as.map write))) :
    ∀ c ∈ ofItems write as, P c := by
  unfold ofItems
  split
  · rintro _ ⟨⟩
  · exact forall_mem_some h

end

/-- An array is accepted one level above what was written of its items. -/
theorem accepts_array_map {α : Type} {limits : Limits} {levels : Nat} {write : α → Cbor} {as : List α}
    (hlimit : as.length ≤ limits.arrayItems) (hsize : limits.arrayItems < 0x10000000000000000)
    (h : ∀ a ∈ as, Accepts (readItem limits levels) (write a)) :
    Accepts (readItem limits (levels + 1)) (array (as.map write)) := by
  refine accepts_array (by rw [List.length_map]; exact hlimit) hsize fun c hc => ?_
  obtain ⟨a, ha, rfl⟩ := List.mem_map.mp hc
  exact h a ha

theorem bytesField_eq_ok {r : List (String × Cbor)} {name : String} {data : List UInt8}
    (hlookup : r.lookup name = (ofBytes data).map sorted) : field r name asBytes = .ok data := by
  rw [field, hlookup]
  cases data with
  | nil => rfl
  | cons b data => exact restores_bytes _

end Cbor

/-! ## Targets -/

namespace Target

/-- The fields of a target. -/
def cborFields (t : Target) : List (String × Option Cbor) :=
  [("arch", some (.text t.arch)), ("sysroot", Cbor.ofText t.sysroot),
    ("abi_flags", Cbor.ofItems .text t.abiFlags)]

theorem toCbor_eq (t : Target) : t.toCbor = Cbor.record (Cbor.present t.cborFields) := by
  simp [toCbor, cborFields, Cbor.present, Cbor.textUnlessEmpty_eq, Cbor.arrayUnlessEmpty_eq]

theorem regular_toCbor (t : Target) : t.toCbor.Regular := by
  rw [toCbor_eq]
  apply Cbor.regular_present
  simp only [cborFields, List.forall_mem_cons]
  exact ⟨Cbor.forall_mem_some trivial, Cbor.forall_mem_ofText trivial,
    Cbor.forall_mem_ofItems (Cbor.regular_array .text (fun _ => trivial) _), nofun⟩

theorem asRecord_cborFields (t : Target) :
    ∃ r, Cbor.asRecord ["arch", "sysroot", "abi_flags"]
        (Cbor.record (Cbor.present t.cborFields)).sorted = .ok r ∧
      ∀ name, r.lookup name = (t.cborFields.lookup name).join.map Cbor.sorted :=
  Cbor.asRecord_present ["arch", "sysroot", "abi_flags"] rfl (by decide) (by decide)

theorem restores (t : Target) : Restores ofCbor toCbor t := by
  obtain ⟨r, hr, hlookup⟩ := t.asRecord_cborFields
  have harch : Cbor.field r "arch" Cbor.asText = .ok t.arch :=
    Cbor.field_eq_ok _ (hlookup "arch") (Cbor.restores_text _)
  have hsysroot : Cbor.field r "sysroot" Cbor.asText = .ok t.sysroot :=
    Cbor.textField_eq_ok (hlookup "sysroot")
  have habi : Cbor.field r "abi_flags" (Cbor.asList Cbor.asText) = .ok t.abiFlags :=
    Cbor.listField_eq_ok .text (hlookup "abi_flags") fun s _ => Cbor.restores_text s
  rw [Restores, toCbor_eq]
  simp only [ofCbor, hr, harch, hsysroot, habi, bind, Except.bind, pure, Except.pure]

theorem accepts {t : Target} (h : t.abiFlags.length ≤ Service.limits.arrayItems) (levels : Nat) :
    Accepts (readItem Service.limits (levels + 2)) t.toCbor := by
  rw [toCbor_eq]
  refine Cbor.accepts_present (show 3 ≤ 1024 by decide) (by decide) ?_
  simp only [cborFields, List.forall_mem_cons]
  exact ⟨Cbor.forall_mem_some (Cbor.accepts_text _), Cbor.forall_mem_ofText (Cbor.accepts_text _),
    Cbor.forall_mem_ofItems (Cbor.accepts_array_map h (by decide) fun s _ => Cbor.accepts_text s), nofun⟩

end Target

namespace Service

/-- The numbers of messages have 64 bits. -/
theorem idOfCbor_eq (n : Nat) : idOfCbor (Cbor.int n).sorted =
    if n < 0x10000000000000000 then .ok n else .error .mismatch := by
  have hread : Cbor.asInt 0 0xffffffffffffffff (Cbor.int n).sorted =
      if n < 0x10000000000000000 then .ok (n : Int) else .error .mismatch := by
    rw [Cbor.sorted_int]
    show (if _ then _ else _) = _
    congr 1
    rw [Bool.and_eq_true, decide_eq_true_eq, decide_eq_true_eq]
    exact propext ⟨fun h => by omega, fun h => by omega⟩
  rw [idOfCbor, hread]
  split <;> rfl

/-! ## Requests -/

namespace Request

/-- The fields of a request. -/
def cborFields (r : Request) : List (String × Option Cbor) :=
  [("op", some (.text r.op)), ("id", some (.int r.id)), ("ns", Cbor.ofText r.ns),
    ("source", Cbor.ofText r.source), ("module", Cbor.ofText r.module),
    ("target", r.target.map Target.toCbor)]

theorem toCbor_eq (r : Request) : r.toCbor = Cbor.record (Cbor.present r.cborFields) := by
  have htarget : (r.target.map Target.toCbor).toList = r.target.toList.map Target.toCbor := by
    cases r.target <;> rfl
  simp [toCbor, cborFields, Cbor.present, Cbor.textUnlessEmpty_eq, htarget, Function.comp_def]

theorem regular_toCbor (r : Request) : r.toCbor.Regular := by
  rw [toCbor_eq]
  apply Cbor.regular_present
  have htarget : ∀ c ∈ r.target.map Target.toCbor, c.Regular := by
    intro c hc
    obtain ⟨t, -, rfl⟩ := Option.map_eq_some_iff.mp hc
    exact t.regular_toCbor
  simp only [cborFields, List.forall_mem_cons]
  exact ⟨Cbor.forall_mem_some trivial, Cbor.forall_mem_some trivial, Cbor.forall_mem_ofText trivial,
    Cbor.forall_mem_ofText trivial, Cbor.forall_mem_ofText trivial, htarget, nofun⟩

theorem asRecord_cborFields (r : Request) :
    ∃ fs, Cbor.asRecord ["target", "op", "ns", "source", "module", "id"]
        (Cbor.record (Cbor.present r.cborFields)).sorted = .ok fs ∧
      ∀ name, fs.lookup name = (r.cborFields.lookup name).join.map Cbor.sorted :=
  Cbor.asRecord_present ["op", "id", "ns", "source", "module", "target"] rfl (by decide) (by decide)

theorem targetField_eq_ok {fs : List (String × Cbor)} {t : Option Target}
    (hlookup : fs.lookup "target" = (t.map Target.toCbor).map Cbor.sorted) :
    Cbor.field fs "target" targetOfCbor = .ok t := by
  rw [Cbor.field, hlookup]
  cases t with
  | none => rfl
  | some t =>
    have hmap : targetOfCbor t.toCbor.sorted = some <$> Target.ofCbor t.toCbor.sorted := by
      rw [Target.toCbor_eq, Cbor.record_eq, Cbor.sorted]
      rfl
    have hread : Target.ofCbor t.toCbor.sorted = .ok t := t.restores
    show targetOfCbor t.toCbor.sorted = _
    rw [hmap, hread]
    rfl

/-- A request is read back, if its number is. -/
theorem ofCbor_sorted (r : Request) :
    ofCbor r.toCbor.sorted = (fun id => { r with id }) <$> idOfCbor (Cbor.int r.id).sorted := by
  obtain ⟨fs, hfs, hlookup⟩ := r.asRecord_cborFields
  have hop : Cbor.field fs "op" Cbor.asText = .ok r.op :=
    Cbor.field_eq_ok _ (hlookup "op") (Cbor.restores_text _)
  have hid : Cbor.field fs "id" idOfCbor = idOfCbor (Cbor.int r.id).sorted := by
    rw [Cbor.field, hlookup]
    rfl
  have hns : Cbor.field fs "ns" Cbor.asText = .ok r.ns := Cbor.textField_eq_ok (hlookup "ns")
  have hsource : Cbor.field fs "source" Cbor.asText = .ok r.source :=
    Cbor.textField_eq_ok (hlookup "source")
  have hmodule : Cbor.field fs "module" Cbor.asText = .ok r.module :=
    Cbor.textField_eq_ok (hlookup "module")
  have htarget : Cbor.field fs "target" targetOfCbor = .ok r.target :=
    targetField_eq_ok (hlookup "target")
  rw [toCbor_eq]
  simp only [ofCbor, hfs, hop, hid, hns, hsource, hmodule, htarget, bind, Except.bind, pure, Except.pure]
  cases idOfCbor (Cbor.int r.id).sorted <;> rfl

theorem restores {r : Request} (hid : r.id < 0x10000000000000000) : Restores ofCbor toCbor r := by
  rw [Restores, ofCbor_sorted, idOfCbor_eq, if_pos hid]
  rfl

theorem recovers : Recovers ofCbor toCbor := by
  intro r r' h
  rw [ofCbor_sorted, idOfCbor_eq] at h
  split at h <;> cases h
  rfl

end Request

/-! ## Responses -/

namespace Module

/-- The fields of a compiled module. -/
def cborFields (m : Module) : List (String × Option Cbor) :=
  [("name", some (.text m.name)), ("entry_symbol", some (.text m.entrySymbol)),
    ("hash", some (.text m.hash)), ("artifact", some (.bytes m.artifact))]

theorem toCbor_eq (m : Module) : m.toCbor = Cbor.record (Cbor.present m.cborFields) := rfl

theorem regular_toCbor (m : Module) : m.toCbor.Regular := by
  rw [toCbor_eq]
  apply Cbor.regular_present
  simp only [cborFields, List.forall_mem_cons]
  exact ⟨Cbor.forall_mem_some trivial, Cbor.forall_mem_some trivial, Cbor.forall_mem_some trivial,
    Cbor.forall_mem_some trivial, nofun⟩

theorem asRecord_cborFields (m : Module) :
    ∃ fs, Cbor.asRecord ["name", "entry_symbol", "hash", "artifact"]
        (Cbor.record (Cbor.present m.cborFields)).sorted = .ok fs ∧
      ∀ name, fs.lookup name = (m.cborFields.lookup name).join.map Cbor.sorted :=
  Cbor.asRecord_present ["name", "entry_symbol", "hash", "artifact"] rfl (by decide) (by decide)

theorem restores (m : Module) : Restores ofCbor toCbor m := by
  obtain ⟨fs, hfs, hlookup⟩ := m.asRecord_cborFields
  have hname : Cbor.field fs "name" Cbor.asText = .ok m.name :=
    Cbor.field_eq_ok _ (hlookup "name") (Cbor.restores_text _)
  have hentry : Cbor.field fs "entry_symbol" Cbor.asText = .ok m.entrySymbol :=
    Cbor.field_eq_ok _ (hlookup "entry_symbol") (Cbor.restores_text _)
  have hhash : Cbor.field fs "hash" Cbor.asText = .ok m.hash :=
    Cbor.field_eq_ok _ (hlookup "hash") (Cbor.restores_text _)
  have hartifact : Cbor.field fs "artifact" Cbor.asBytes = .ok m.artifact :=
    Cbor.field_eq_ok _ (hlookup "artifact") (Cbor.restores_bytes _)
  rw [Restores, toCbor_eq]
  simp only [ofCbor, hfs, hname, hentry, hhash, hartifact, bind, Except.bind, pure, Except.pure]

theorem accepts (m : Module) (levels : Nat) : Accepts (readItem limits (levels + 1)) m.toCbor := by
  rw [toCbor_eq]
  refine Cbor.accepts_present (show 4 ≤ 1024 by decide) (by decide) ?_
  simp only [cborFields, List.forall_mem_cons]
  exact ⟨Cbor.forall_mem_some (Cbor.accepts_text _), Cbor.forall_mem_some (Cbor.accepts_text _),
    Cbor.forall_mem_some (Cbor.accepts_text _), Cbor.forall_mem_some (Cbor.accepts_bytes _), nofun⟩

end Module

namespace Response

/-- The fields of a response. -/
def cborFields (r : Response) : List (String × Option Cbor) :=
  [("op", some (.text r.op)), ("id", some (.int r.id)),
    ("entry_symbol", Cbor.ofText r.compiled.entrySymbol), ("hash", Cbor.ofText r.compiled.hash),
    ("module", Cbor.ofText r.compiled.name), ("ns", Cbor.ofText r.ns), ("phase", Cbor.ofText r.phase),
    ("kind", Cbor.ofText r.kind), ("symbol", Cbor.ofText r.symbol),
    ("message", Cbor.ofText r.message), ("artifact", Cbor.ofBytes r.compiled.artifact),
    ("modules", Cbor.ofItems Module.toCbor r.modules), ("skipped", Cbor.ofItems .text r.skipped)]

theorem toCbor_eq (r : Response) : r.toCbor = Cbor.record (Cbor.present r.cborFields) := by
  have hartifact : (if r.compiled.artifact.isEmpty then []
      else [("artifact", Cbor.bytes r.compiled.artifact)]) =
      (Cbor.ofBytes r.compiled.artifact).toList.map ("artifact", ·) := by
    unfold Cbor.ofBytes
    split <;> rfl
  unfold toCbor
  dsimp only
  rw [hartifact]
  simp [cborFields, Cbor.present, Cbor.textUnlessEmpty_eq, Cbor.arrayUnlessEmpty_eq]

theorem regular_toCbor (r : Response) : r.toCbor.Regular := by
  rw [toCbor_eq]
  apply Cbor.regular_present
  have htext : ∀ s, ∀ c ∈ Cbor.ofText s, c.Regular := fun s => Cbor.forall_mem_ofText trivial
  simp only [cborFields, List.forall_mem_cons]
  exact ⟨Cbor.forall_mem_some trivial, Cbor.forall_mem_some trivial, htext _, htext _, htext _, htext _,
    htext _, htext _, htext _, htext _, Cbor.forall_mem_ofBytes trivial,
    Cbor.forall_mem_ofItems (Cbor.regular_array _ Module.regular_toCbor _),
    Cbor.forall_mem_ofItems (Cbor.regular_array .text (fun _ => trivial) _), nofun⟩

theorem asRecord_cborFields (r : Response) :
    ∃ fs, Cbor.asRecord ["op", "entry_symbol", "hash", "module", "ns", "phase", "kind", "symbol",
          "message", "artifact", "modules", "skipped", "id"]
        (Cbor.record (Cbor.present r.cborFields)).sorted = .ok fs ∧
      ∀ name, fs.lookup name = (r.cborFields.lookup name).join.map Cbor.sorted :=
  Cbor.asRecord_present ["op", "id", "entry_symbol", "hash", "module", "ns", "phase", "kind", "symbol",
    "message", "artifact", "modules", "skipped"] rfl (by decide) (by decide)

/-- A response is read back, if its number is. -/
theorem ofCbor_sorted (r : Response) :
    ofCbor r.toCbor.sorted = (fun id => { r with id }) <$> idOfCbor (Cbor.int r.id).sorted := by
  obtain ⟨fs, hfs, hlookup⟩ := r.asRecord_cborFields
  have hop : Cbor.field fs "op" Cbor.asText = .ok r.op :=
    Cbor.field_eq_ok _ (hlookup "op") (Cbor.restores_text _)
  have hid : Cbor.field fs "id" idOfCbor = idOfCbor (Cbor.int r.id).sorted := by
    rw [Cbor.field, hlookup]
    rfl
  have hentry : Cbor.field fs "entry_symbol" Cbor.asText = .ok r.compiled.entrySymbol :=
    Cbor.textField_eq_ok (hlookup "entry_symbol")
  have hhash : Cbor.field fs "hash" Cbor.asText = .ok r.compiled.hash :=
    Cbor.textField_eq_ok (hlookup "hash")
  have hname : Cbor.field fs "module" Cbor.asText = .ok r.compiled.name :=
    Cbor.textField_eq_ok (hlookup "module")
  have hns : Cbor.field fs "ns" Cbor.asText = .ok r.ns := Cbor.textField_eq_ok (hlookup "ns")
  have hphase : Cbor.field fs "phase" Cbor.asText = .ok r.phase := Cbor.textField_eq_ok (hlookup "phase")
  have hkind : Cbor.field fs "kind" Cbor.asText = .ok r.kind := Cbor.textField_eq_ok (hlookup "kind")
  have hsymbol : Cbor.field fs "symbol" Cbor.asText = .ok r.symbol :=
    Cbor.textField_eq_ok (hlookup "symbol")
  have hmessage : Cbor.field fs "message" Cbor.asText = .ok r.message :=
    Cbor.textField_eq_ok (hlookup "message")
  have hartifact : Cbor.field fs "artifact" Cbor.asBytes = .ok r.compiled.artifact :=
    Cbor.bytesField_eq_ok (hlookup "artifact")
  have hmodules : Cbor.field fs "modules" (Cbor.asList Module.ofCbor) = .ok r.modules :=
    Cbor.listField_eq_ok Module.toCbor (hlookup "modules") fun m _ => m.restores
  have hskipped : Cbor.field fs "skipped" (Cbor.asList Cbor.asText) = .ok r.skipped :=
    Cbor.listField_eq_ok .text (hlookup "skipped") fun s _ => Cbor.restores_text s
  rw [toCbor_eq]
  simp only [ofCbor, hfs, hop, hid, hentry, hhash, hname, hns, hphase, hkind, hsymbol, hmessage,
    hartifact, hmodules, hskipped, bind, Except.bind, pure, Except.pure]
  cases idOfCbor (Cbor.int r.id).sorted <;> rfl

theorem restores {r : Response} (hid : r.id < 0x10000000000000000) : Restores ofCbor toCbor r := by
  rw [Restores, ofCbor_sorted, idOfCbor_eq, if_pos hid]
  rfl

theorem recovers : Recovers ofCbor toCbor := by
  intro r r' h
  rw [ofCbor_sorted, idOfCbor_eq] at h
  split at h <;> cases h
  rfl

end Response

/-! ## Streams of one message -/

section

variable {α : Type} {read : Cbor → Except Cbor.Fault α} {write : α → Cbor} {m : α}

theorem receiveUpTo_nil (read : Cbor → Except Cbor.Fault α) (fuel : Nat) :
    receiveUpTo read fuel [] = {} := by
  cases fuel <;> rfl

/-- What is made of the bytes of one item. -/
theorem receive_encode_eq (hm : (write m).Regular) : receive read (write m).encode =
    match Cbor.decodeFirst limits (write m).encode with
    | .error .truncated => { unread := (write m).encode }
    | .error _ => { malformed := true }
    | .ok (item, rest) =>
      match read item with
      | .error _ => { malformed := true }
      | .ok m' =>
        let r := receiveUpTo read ((write m).encode.length - 1) rest
        { r with messages := m' :: r.messages } := by
  obtain ⟨n, hn⟩ : ∃ n, (write m).encode.length = n + 1 := by
    have hhead := hm.headed.encode_eq
    rw [Cbor.head_eq, List.cons_append] at hhead
    exact ⟨_, congrArg List.length hhead⟩
  have hempty : (write m).encode.isEmpty = false := by
    rw [List.isEmpty_eq_false_iff_exists_mem]
    exact List.exists_mem_of_length_pos (by omega)
  unfold receive
  rw [hn, receiveUpTo, hempty]
  rfl

/-- Bytes that are one message are received as it, or as none: then they are taken for the beginning of
one, or for no message. -/
theorem receive_encode (h : Recovers read write) (hm : (write m).Regular) :
    receive read (write m).encode = { messages := [m] } ∨
      receive read (write m).encode = { malformed := true } ∨
      receive read (write m).encode = { unread := (write m).encode } := by
  rw [receive_encode_eq hm]
  cases hdecode : Cbor.decodeFirst limits (write m).encode with
  | error fault => cases fault <;> simp
  | ok out =>
    obtain ⟨item, rest⟩ := out
    have hread : Cbor.readItem limits limits.nesting ((write m).encode ++ []) = .ok (item, rest) := by
      rw [List.append_nil]
      exact hdecode
    obtain ⟨rfl, rfl⟩ := Cbor.Reads.readItem limits limits.nesting hm hread
    dsimp only
    cases hm' : read (write m).sorted with
    | error fault => exact .inr (.inl rfl)
    | ok m' =>
      obtain rfl := h hm'
      dsimp only
      rw [receiveUpTo_nil]
      exact .inl rfl

/-- They are received as it if it is accepted and restored. -/
theorem receive_encode_of_accepts (h : Restores read write m)
    (haccepts : Accepts (readItem limits limits.nesting) (write m))
    (hlen : (write m).encode.length < 0x10000000000000000) :
    receive read (write m).encode = { messages := [m] } := by
  have hdecode : Cbor.decodeFirst limits (write m).encode = .ok ((write m).sorted, []) := by
    have hread := haccepts.2 hlen []
    rw [List.append_nil] at hread
    exact hread
  have hrestored : read (write m).sorted = .ok m := h
  rw [receive_encode_eq haccepts.1, hdecode]
  dsimp only
  rw [hrestored, receiveUpTo_nil]

end

/-- The number, the lists and the size of a request are within the limits. -/
structure Request.Sendable (r : Request) : Prop where
  id : r.id < 0x10000000000000000
  flags : ∀ t ∈ r.target, t.abiFlags.length ≤ limits.arrayItems
  size : r.encode.length < 0x10000000000000000

theorem Request.Sendable.received {r : Request} (h : r.Sendable) :
    receive Request.ofCbor r.encode = { messages := [r] } := by
  refine receive_encode_of_accepts (Request.restores h.id) ?_ h.size
  rw [Request.toCbor_eq]
  refine Cbor.accepts_present (show 6 ≤ 1024 by decide) (by decide) ?_
  have htarget : ∀ c ∈ r.target.map Target.toCbor, Accepts (readItem limits 31) c := by
    intro c hc
    obtain ⟨t, ht, rfl⟩ := Option.map_eq_some_iff.mp hc
    exact Target.accepts (h.flags t ht) 29
  have hid := h.id
  have htext : ∀ s, ∀ c ∈ Cbor.ofText s, Accepts (readItem limits 31) c :=
    fun s => Cbor.forall_mem_ofText (Cbor.accepts_text s)
  simp only [Request.cborFields, List.forall_mem_cons]
  exact ⟨Cbor.forall_mem_some (Cbor.accepts_text _),
    Cbor.forall_mem_some (Cbor.accepts_int (by omega) (by omega)), htext _, htext _, htext _, htarget,
    nofun⟩

/-- The number, the lists and the size of a response are within the limits. -/
structure Response.Sendable (r : Response) : Prop where
  id : r.id < 0x10000000000000000
  modules : r.modules.length ≤ limits.arrayItems
  skipped : r.skipped.length ≤ limits.arrayItems
  size : r.encode.length < 0x10000000000000000

theorem Response.Sendable.received {r : Response} (h : r.Sendable) :
    receive Response.ofCbor r.encode = { messages := [r] } := by
  refine receive_encode_of_accepts (Response.restores h.id) ?_ h.size
  rw [Response.toCbor_eq]
  refine Cbor.accepts_present (show 13 ≤ 1024 by decide) (by decide) ?_
  have hid := h.id
  have htext : ∀ s, ∀ c ∈ Cbor.ofText s, Accepts (readItem limits 31) c :=
    fun s => Cbor.forall_mem_ofText (Cbor.accepts_text s)
  simp only [Response.cborFields, List.forall_mem_cons]
  exact ⟨Cbor.forall_mem_some (Cbor.accepts_text _),
    Cbor.forall_mem_some (Cbor.accepts_int (by omega) (by omega)), htext _, htext _, htext _, htext _,
    htext _, htext _, htext _, htext _, Cbor.forall_mem_ofBytes (Cbor.accepts_bytes _),
    Cbor.forall_mem_ofItems (Cbor.accepts_array_map h.modules (by decide) fun m _ => m.accepts 29),
    Cbor.forall_mem_ofItems (Cbor.accepts_array_map h.skipped (by decide) fun s _ => Cbor.accepts_text s),
    nofun⟩

end Service

end WasmLisp
