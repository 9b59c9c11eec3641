import Mathlib
import WasmLisp.Manifest
import WasmLisp.Proofs.Cbor.Decode

/-!
# Manifests are read back as they were written

* `Manifest.decode_encode`: whatever is read from the section of a manifest is the manifest.
-/

namespace WasmLisp

open Cbor (Recovers)

/-! ## Fields that can be left out -/

namespace Cbor

theorem lookup_arrayUnlessEmpty (key name : String) (items : List Cbor) :
    (arrayUnlessEmpty name items).lookup key =
      if key = name then if items.isEmpty then none else some (array items) else none := by
  unfold arrayUnlessEmpty
  split
  · simp
  · by_cases hkey : key = name <;> simp [hkey]

theorem lookup_textUnlessEmpty (key name s : String) :
    (textUnlessEmpty name s).lookup key =
      if key = name then if s = "" then none else some (text s) else none := by
  unfold textUnlessEmpty
  split
  · simp
  · by_cases hkey : key = name <;> simp [hkey]

theorem map_fst_arrayUnlessEmpty (name : String) (items : List Cbor) :
    ((arrayUnlessEmpty name items).map Prod.fst).Sublist [name] := by
  unfold arrayUnlessEmpty
  split <;> simp

theorem map_fst_textUnlessEmpty (name s : String) :
    ((textUnlessEmpty name s).map Prod.fst).Sublist [name] := by
  unfold textUnlessEmpty
  split <;> simp

theorem mem_arrayUnlessEmpty {name : String} {items : List Cbor} {f : String × Cbor}
    (h : f ∈ arrayUnlessEmpty name items) : f = (name, array items) := by
  unfold arrayUnlessEmpty at h
  split at h <;> simp_all

theorem mem_textUnlessEmpty {name s : String} {f : String × Cbor}
    (h : f ∈ textUnlessEmpty name s) : f = (name, text s) := by
  unfold textUnlessEmpty at h
  split at h <;> simp_all

/-- A record whose fields may be left out is read back as the fields that it was written from. -/
theorem asRecord_of_sublist {fields : List (String × Cbor)} {keys names : List String}
    (h : (fields.map Prod.fst).Sublist keys) (hnodup : keys.Nodup) (hnames : keys ⊆ names) :
    ∃ r, asRecord names (record fields).sorted = .ok r ∧
      ∀ name, r.lookup name = (fields.lookup name).map sorted :=
  asRecord_sorted (fun _ hf => hnames (h.subset (List.mem_map_of_mem hf))) (h.nodup hnodup)

theorem regular_array {α : Type} (write : α → Cbor) (h : ∀ a, (write a).Regular) (as : List α) :
    (array (as.map write)).Regular := by
  rw [Regular, allRegular_iff]
  intro c hc
  obtain ⟨a, -, rfl⟩ := List.mem_map.mp hc
  exact h a

variable {r : List (String × Cbor)} {name : String}

theorem recovers_field {α : Type} {read : Cbor → Except Fault α} {write : α → Cbor}
    (h : Recovers read write) {a b : α} (hlookup : r.lookup name = some (write a).sorted)
    (hread : field r name read = .ok b) : b = a := by
  unfold field at hread
  rw [hlookup] at hread
  exact h hread

theorem recovers_textField {s t : String}
    (hlookup : r.lookup name = (if s = "" then none else some (text s)).map sorted)
    (hread : field r name asText = .ok t) : t = s := by
  unfold field at hread
  rw [hlookup] at hread
  by_cases hs : s = ""
  · rw [if_pos hs] at hread
    cases hread
    exact hs.symm
  · rw [if_neg hs] at hread
    exact recovers_text hread

theorem recovers_listField {α : Type} {read : Cbor → Except Fault α} {write : α → Cbor}
    (h : Recovers read write) {as bs : List α}
    (hlookup : r.lookup name =
      (if as.isEmpty then none else some (array (as.map write))).map sorted)
    (hread : field r name (asList read) = .ok bs) : bs = as := by
  unfold field at hread
  rw [hlookup] at hread
  cases as with
  | nil =>
    cases hread
    rfl
  | cons a as => exact h.list hread

end Cbor

/-! ## Effects -/

namespace Effect

theorem regular_toCbor (e : Effect) : e.toCbor.Regular := by
  apply Cbor.regular_record
  intro f hf
  simp only [List.mem_append, List.mem_cons, List.not_mem_nil, or_false] at hf
  rcases hf with ((rfl | rfl) | hf) | hf
  · trivial
  · trivial
  · rw [Cbor.mem_textUnlessEmpty hf]
    trivial
  · rw [Cbor.mem_textUnlessEmpty hf]
    trivial

/-- The fields that an effect is written as. -/
def fields (e : Effect) : List (String × Cbor) :=
  [("ns", .text e.ns), ("kind", .int e.kind.code.toNat)]
    ++ Cbor.textUnlessEmpty "name" e.name ++ Cbor.textUnlessEmpty "target" e.target

/-- The fields of an effect are read back. -/
theorem asRecord_toCbor (e : Effect) :
    ∃ r, Cbor.asRecord ["ns", "name", "target", "kind"] e.toCbor.sorted = .ok r ∧
      ∀ name, r.lookup name = (e.fields.lookup name).map Cbor.sorted := by
  have hsub : (e.fields.map Prod.fst).Sublist ["ns", "kind", "name", "target"] := by
    simp only [fields, List.map_append]
    exact ((List.Sublist.refl _).append (Cbor.map_fst_textUnlessEmpty _ _)).append
      (Cbor.map_fst_textUnlessEmpty _ _)
  exact Cbor.asRecord_of_sublist hsub (by decide) (by decide)

theorem recovers : Recovers ofCbor toCbor := by
  intro e e' h
  obtain ⟨r, hr, hlookup⟩ := e.asRecord_toCbor
  simp only [ofCbor, Except.bind_eq_ok_iff] at h
  obtain ⟨_, hr', code, hcode, ns, hns, name, hname, target, htarget, hend⟩ := h
  cases hr.symm.trans hr'
  cases hend
  have h₁ : code = e.kind.code.toNat :=
    Cbor.recovers_field (Cbor.recovers_int _ _)
      (by rw [hlookup]; simp [fields, List.lookup_cons]) hcode
  have h₂ : ns = e.ns :=
    Cbor.recovers_field Cbor.recovers_text (by rw [hlookup]; simp [fields]) hns
  have h₃ : name = e.name := by
    apply Cbor.recovers_textField _ hname
    rw [hlookup]
    simp [fields, List.lookup_append, List.lookup_cons, Cbor.lookup_textUnlessEmpty]
  have h₄ : target = e.target := by
    apply Cbor.recovers_textField _ htarget
    rw [hlookup]
    simp [fields, List.lookup_append, List.lookup_cons, Cbor.lookup_textUnlessEmpty]
  subst h₁ h₂ h₃ h₄
  simp

end Effect

/-! ## Manifests -/

/-- The reader of a name with a value, as manifests list them. -/
def Cbor.namedWith {α : Type} (key : String) (read : Cbor → Except Cbor.Fault α) (c : Cbor) :
    Except Cbor.Fault (String × α) := do
  let r ← Cbor.asRecord ["name", key] c
  return (← Cbor.field r "name" Cbor.asText, ← Cbor.field r key read)

theorem Cbor.recovers_namedWith {α : Type} {key : String} (hkey : "name" ≠ key)
    {read : Cbor → Except Cbor.Fault α} {write : α → Cbor} (h : Recovers read write) :
    Recovers (Cbor.namedWith key read)
      fun p => Cbor.record [("name", .text p.1), (key, write p.2)] := by
  rintro ⟨name, a⟩ ⟨name', a'⟩ hread
  have hnames : ∀ f ∈ [("name", Cbor.text name), (key, write a)], f.1 ∈ ["name", key] := by simp
  have hnodup : ([("name", Cbor.text name), (key, write a)].map Prod.fst).Nodup := by
    simpa using hkey
  obtain ⟨r, hr, hlookup⟩ := Cbor.asRecord_sorted hnames hnodup
  simp only [Cbor.namedWith, Except.bind_eq_ok_iff] at hread
  obtain ⟨_, hr', _, hname, _, ha, hend⟩ := hread
  cases hr.symm.trans hr'
  cases hend
  have h₁ : name' = name :=
    Cbor.recovers_field Cbor.recovers_text (by rw [hlookup]; simp) hname
  have h₂ : a' = a :=
    Cbor.recovers_field h
      (by rw [hlookup]; simp [List.lookup_cons, beq_false_of_ne (Ne.symm hkey)]) ha
  rw [h₁, h₂]

namespace Manifest

/-- The fields that a manifest is written as. -/
def fields (m : Manifest) : List (String × Cbor) :=
  [("hash", .text m.hash), ("entry", .text m.entry), ("target", .text m.target),
    ("version", .int m.version)]
  ++ Cbor.arrayUnlessEmpty "functions"
      (m.functions.map fun p => Cbor.record [("name", .text p.1), ("arity", .int p.2)])
  ++ Cbor.arrayUnlessEmpty "globals"
      (m.globals.map fun p => Cbor.record [("name", .text p.1), ("init", .int p.2.toInt)])
  ++ Cbor.arrayUnlessEmpty "vars" (m.vars.map .text)
  ++ Cbor.arrayUnlessEmpty "effects" (m.effects.map Effect.toCbor)
  ++ Cbor.arrayUnlessEmpty "deps" (m.deps.map .text)

theorem toCbor_eq (m : Manifest) : m.toCbor = Cbor.record m.fields := rfl

theorem map_fst_fields (m : Manifest) : (m.fields.map Prod.fst).Sublist
    ["hash", "entry", "target", "version", "functions", "globals", "vars", "effects", "deps"] := by
  simp only [fields, List.map_append]
  exact (((((List.Sublist.refl _).append (Cbor.map_fst_arrayUnlessEmpty _ _)).append
    (Cbor.map_fst_arrayUnlessEmpty _ _)).append (Cbor.map_fst_arrayUnlessEmpty _ _)).append
    (Cbor.map_fst_arrayUnlessEmpty _ _)).append (Cbor.map_fst_arrayUnlessEmpty _ _)

theorem regular_toCbor (m : Manifest) : m.toCbor.Regular := by
  rw [toCbor_eq]
  apply Cbor.regular_record
  intro f hf
  simp only [fields, List.mem_append, List.mem_cons, List.not_mem_nil, or_false] at hf
  rcases hf with (((((rfl | rfl | rfl | rfl) | hf) | hf) | hf) | hf) | hf
  · trivial
  · trivial
  · trivial
  · trivial
  · rw [Cbor.mem_arrayUnlessEmpty hf]
    exact Cbor.regular_array _ (fun p => by simp [Cbor.record, Cbor.Regular, Cbor.EntriesRegular]) _
  · rw [Cbor.mem_arrayUnlessEmpty hf]
    exact Cbor.regular_array _ (fun p => by simp [Cbor.record, Cbor.Regular, Cbor.EntriesRegular]) _
  · rw [Cbor.mem_arrayUnlessEmpty hf]
    exact Cbor.regular_array .text (fun s => trivial) _
  · rw [Cbor.mem_arrayUnlessEmpty hf]
    exact Cbor.regular_array _ Effect.regular_toCbor _
  · rw [Cbor.mem_arrayUnlessEmpty hf]
    exact Cbor.regular_array .text (fun s => trivial) _

/-- The fields of a manifest are read back. -/
theorem asRecord_toCbor (m : Manifest) :
    ∃ r, Cbor.asRecord ["hash", "entry", "target", "functions", "globals", "vars", "effects", "deps",
        "version"] m.toCbor.sorted = .ok r ∧
      ∀ name, r.lookup name = (m.fields.lookup name).map Cbor.sorted :=
  Cbor.asRecord_of_sublist m.map_fst_fields (by decide) (by decide)

theorem recovers : Recovers ofCbor toCbor := by
  intro m m' h
  obtain ⟨r, hr, hlookup⟩ := m.asRecord_toCbor
  simp only [ofCbor, Except.bind_eq_ok_iff] at h
  obtain ⟨_, hr', version, hversion, hash, hhash, entry, hentry, target, htarget, functions,
    hfunctions, globals, hglobals, vars, hvars, effects, heffects, deps, hdeps, hend⟩ := h
  cases hr.symm.trans hr'
  cases hend
  have h₁ : version = m.version := by
    apply Cbor.recovers_field (Cbor.recovers_int _ _) _ hversion
    rw [hlookup]
    simp [fields, List.lookup_cons]
  have h₂ : hash = m.hash := by
    apply Cbor.recovers_field Cbor.recovers_text _ hhash
    rw [hlookup]
    simp [fields]
  have h₃ : entry = m.entry := by
    apply Cbor.recovers_field Cbor.recovers_text _ hentry
    rw [hlookup]
    simp [fields, List.lookup_cons]
  have h₄ : target = m.target := by
    apply Cbor.recovers_field Cbor.recovers_text _ htarget
    rw [hlookup]
    simp [fields, List.lookup_cons]
  have h₅ : functions = m.functions := by
    apply Cbor.recovers_listField (Cbor.recovers_namedWith (by decide) (Cbor.recovers_int _ _)) _
      hfunctions
    rw [hlookup]
    simp [fields, List.lookup_append, List.lookup_cons, Cbor.lookup_arrayUnlessEmpty]
  have h₆ : globals = m.globals := by
    apply Cbor.recovers_listField (Cbor.recovers_namedWith (by decide) Cbor.recovers_int64) _
      hglobals
    rw [hlookup]
    simp [fields, List.lookup_append, List.lookup_cons, Cbor.lookup_arrayUnlessEmpty]
  have h₇ : vars = m.vars := by
    apply Cbor.recovers_listField Cbor.recovers_text _ hvars
    rw [hlookup]
    simp [fields, List.lookup_append, List.lookup_cons, Cbor.lookup_arrayUnlessEmpty]
  have h₈ : effects = m.effects := by
    apply Cbor.recovers_listField Effect.recovers _ heffects
    rw [hlookup]
    simp [fields, List.lookup_append, List.lookup_cons, Cbor.lookup_arrayUnlessEmpty]
  have h₉ : deps = m.deps := by
    apply Cbor.recovers_listField Cbor.recovers_text _ hdeps
    rw [hlookup]
    simp [fields, List.lookup_append, List.lookup_cons, Cbor.lookup_arrayUnlessEmpty]
  rw [h₁, h₂, h₃, h₄, h₅, h₆, h₇, h₈, h₉]

/-- Whatever is read from the section of a manifest is the manifest. -/
theorem decode_encode {m m' : Manifest} (h : decode m.encode = .ok m') : m' = m := by
  unfold decode at h
  split at h
  · cases h
  · rename_i read hread
    obtain ⟨c, hc, hm⟩ := Except.bind_eq_ok hread
    rw [Cbor.decode_encode m.regular_toCbor hc] at hm
    split at h
    · cases h
      exact recovers hm
    · cases h

end Manifest

end WasmLisp
