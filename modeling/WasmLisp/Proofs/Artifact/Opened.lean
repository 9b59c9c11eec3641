import Mathlib
import WasmLisp.Proofs.Artifact
import WasmLisp.Proofs.Cbor.Accepted
import WasmLisp.Proofs.Engine.Linked

/-!
# Generated modules can be opened

What is read back of a manifest is the manifest (`Manifest.decode_encode`); here is that it is read back,
unless one of its lists is longer than a decoder takes (`Manifest.decode_eq_ok`). So the binary of a
generated module is opened as an artifact with its manifest (`Artifact.Made.open?_eq_ok`).
-/

namespace WasmLisp

namespace Cbor

theorem restores_namedWith {α : Type} {read : Cbor → Except Fault α} (write : α → Cbor)
    {key : String} (hkey : "name" ≠ key) {p : String × α} (h : Restores read write p.2) :
    Restores (namedWith key read) (fun p => record [("name", .text p.1), (key, write p.2)]) p := by
  obtain ⟨name, a⟩ := p
  have hnames : ∀ f ∈ [("name", text name), (key, write a)], f.1 ∈ ["name", key] := by simp
  have hnodup : ([("name", text name), (key, write a)].map Prod.fst).Nodup := by
    simpa using hkey
  obtain ⟨r, hr, hlookup⟩ := asRecord_sorted hnames hnodup
  have h₁ : field r "name" asText = .ok name :=
    field_eq_ok _ (by rw [hlookup]; simp) (restores_text name)
  have h₂ : field r key read = .ok a :=
    field_eq_ok _ (by rw [hlookup]; simp [List.lookup_cons, beq_false_of_ne (Ne.symm hkey)]) h
  simp only [Restores, namedWith, hr, h₁, h₂, bind, Except.bind, pure, Except.pure]

end Cbor

/-! ## Effects -/

namespace Effect

open Cbor (Restores Accepts readItem)

theorem restores (e : Effect) : Restores ofCbor toCbor e := by
  obtain ⟨r, hr, hlookup⟩ := e.asRecord_toCbor
  have hcode : Cbor.field r "kind" (Cbor.asInt 0 255) = .ok e.kind.code.toNat := by
    refine Cbor.field_eq_ok .int (by rw [hlookup]; simp [fields, List.lookup_cons])
      (Cbor.restores_int (Int.natCast_nonneg _) ?_)
    have hlt := e.kind.code.toNat_lt
    omega
  have hns : Cbor.field r "ns" Cbor.asText = .ok e.ns :=
    Cbor.field_eq_ok _ (by rw [hlookup]; simp [fields]) (Cbor.restores_text e.ns)
  have hname : Cbor.field r "name" Cbor.asText = .ok e.name := by
    apply Cbor.textField_eq_ok
    rw [hlookup]
    simp [fields, List.lookup_append, List.lookup_cons, Cbor.lookup_textUnlessEmpty]
  have htarget : Cbor.field r "target" Cbor.asText = .ok e.target := by
    apply Cbor.textField_eq_ok
    rw [hlookup]
    simp [fields, List.lookup_append, List.lookup_cons, Cbor.lookup_textUnlessEmpty]
  simp only [Restores, ofCbor, hr, hcode, hns, hname, htarget, bind, Except.bind, pure, Except.pure]
  simp

theorem accepts (e : Effect) (levels : Nat) :
    Accepts (readItem Manifest.limits (levels + 1)) e.toCbor := by
  refine Cbor.accepts_record ?_ (by decide) fun f hf => ?_
  · have hlen := (Cbor.map_fst_textUnlessEmpty "name" e.name).length_le
    have hlen' := (Cbor.map_fst_textUnlessEmpty "target" e.target).length_le
    simp only [List.length_map, List.length_cons, List.length_nil] at hlen hlen'
    simp only [List.length_append, List.length_cons, List.length_nil, Manifest.limits]
    omega
  · simp only [List.mem_append, List.mem_cons, List.not_mem_nil, or_false] at hf
    rcases hf with ((rfl | rfl) | hf) | hf
    · exact Cbor.accepts_text _
    · have hlt := e.kind.code.toNat_lt
      exact Cbor.accepts_int (by omega) (by omega)
    · rw [Cbor.mem_textUnlessEmpty hf]
      exact Cbor.accepts_text _
    · rw [Cbor.mem_textUnlessEmpty hf]
      exact Cbor.accepts_text _

end Effect

/-! ## Manifests -/

namespace Manifest

open Cbor (Restores Accepts readItem)

/-- No list of the manifest is longer than a decoder takes. -/
structure Listable (m : Manifest) : Prop where
  functions : m.functions.length ≤ limits.arrayItems
  globals : m.globals.length ≤ limits.arrayItems
  vars : m.vars.length ≤ limits.arrayItems
  effects : m.effects.length ≤ limits.arrayItems
  deps : m.deps.length ≤ limits.arrayItems

theorem listable_iff {m : Manifest} :
    [m.functions.length, m.globals.length, m.vars.length, m.effects.length, m.deps.length].all
      (· ≤ limits.arrayItems) = true ↔ m.Listable := by
  simp only [List.all_cons, List.all_nil, Bool.and_true, Bool.and_eq_true, decide_eq_true_eq]
  exact ⟨fun ⟨hf, hg, hv, he, hd⟩ => ⟨hf, hg, hv, he, hd⟩,
    fun h => ⟨h.functions, h.globals, h.vars, h.effects, h.deps⟩⟩

instance (m : Manifest) : Decidable m.Listable := decidable_of_iff _ listable_iff

/-- The numbers of the manifest fit in 64 bits. -/
structure Counts (m : Manifest) : Prop where
  version : m.version = currentVersion
  arities : ∀ f ∈ m.functions, 0 ≤ f.2 ∧ f.2 < 0x100000000

theorem restores {m : Manifest} (h : m.Counts) : Restores ofCbor toCbor m := by
  obtain ⟨r, hr, hlookup⟩ := m.asRecord_toCbor
  have hversion : Cbor.field r "version" (Cbor.asInt (-0x8000000000000000) 0x7fffffffffffffff) =
      .ok m.version := by
    refine Cbor.field_eq_ok .int (by rw [hlookup]; simp [fields, List.lookup_cons]) ?_
    rw [h.version]
    exact Cbor.restores_int (by decide) (by decide)
  have hhash : Cbor.field r "hash" Cbor.asText = .ok m.hash :=
    Cbor.field_eq_ok _ (by rw [hlookup]; simp [fields]) (Cbor.restores_text _)
  have hentry : Cbor.field r "entry" Cbor.asText = .ok m.entry :=
    Cbor.field_eq_ok _ (by rw [hlookup]; simp [fields, List.lookup_cons]) (Cbor.restores_text _)
  have htarget : Cbor.field r "target" Cbor.asText = .ok m.target :=
    Cbor.field_eq_ok _ (by rw [hlookup]; simp [fields, List.lookup_cons]) (Cbor.restores_text _)
  have hfunctions : Cbor.field r "functions" (Cbor.asList (Cbor.namedWith "arity"
      (Cbor.asInt (-0x8000000000000000) 0x7fffffffffffffff))) = .ok m.functions := by
    refine Cbor.listField_eq_ok (fun p => Cbor.record [("name", .text p.1), ("arity", .int p.2)])
      (by rw [hlookup]
          simp [fields, List.lookup_append, List.lookup_cons, Cbor.lookup_arrayUnlessEmpty]) ?_
    intro f hf
    obtain ⟨hlo, hhi⟩ := h.arities f hf
    exact Cbor.restores_namedWith _ (by decide) (Cbor.restores_int (by omega) (by omega))
  have hglobals : Cbor.field r "globals" (Cbor.asList (Cbor.namedWith "init" Cbor.asInt64)) =
      .ok m.globals := by
    refine Cbor.listField_eq_ok (fun p => Cbor.record [("name", .text p.1), ("init", .int p.2.toInt)])
      (by rw [hlookup]
          simp [fields, List.lookup_append, List.lookup_cons, Cbor.lookup_arrayUnlessEmpty]) ?_
    exact fun g _ => Cbor.restores_namedWith (fun v : Int64 => .int v.toInt) (by decide)
      (Cbor.restores_int64 _)
  have hvars : Cbor.field r "vars" (Cbor.asList Cbor.asText) = .ok m.vars :=
    Cbor.listField_eq_ok .text
      (by rw [hlookup]
          simp [fields, List.lookup_append, List.lookup_cons, Cbor.lookup_arrayUnlessEmpty])
      fun s _ => Cbor.restores_text s
  have heffects : Cbor.field r "effects" (Cbor.asList Effect.ofCbor) = .ok m.effects :=
    Cbor.listField_eq_ok Effect.toCbor
      (by rw [hlookup]
          simp [fields, List.lookup_append, List.lookup_cons, Cbor.lookup_arrayUnlessEmpty])
      fun e _ => e.restores
  have hdeps : Cbor.field r "deps" (Cbor.asList Cbor.asText) = .ok m.deps :=
    Cbor.listField_eq_ok .text
      (by rw [hlookup]
          simp [fields, List.lookup_append, List.lookup_cons, Cbor.lookup_arrayUnlessEmpty])
      fun s _ => Cbor.restores_text s
  unfold Cbor.namedWith at hfunctions hglobals
  simp only [Restores, ofCbor, hr, hversion, hhash, hentry, htarget, hvars, heffects, hdeps, bind,
    Except.bind, pure, Except.pure] at hfunctions hglobals ⊢
  rw [hfunctions]
  dsimp only
  rw [hglobals]

theorem accepts {m : Manifest} (h : m.Listable) (hcounts : m.Counts) :
    Accepts (readItem limits limits.nesting) m.toCbor := by
  have hrecord : ∀ {α : Type} (key : String) (write : α → Cbor) (p : String × α),
      (∀ levels, Accepts (readItem limits levels) (write p.2)) →
      Accepts (readItem limits 30) (Cbor.record [("name", .text p.1), (key, write p.2)]) := by
    intro α key write p hp
    refine Cbor.accepts_record (by simp [limits]) (by decide) ?_
    simp only [List.forall_mem_cons]
    exact ⟨Cbor.accepts_text _, hp _, nofun⟩
  have harray : ∀ {α : Type} {name : String} {as : List α} {write : α → Cbor} {f : String × Cbor},
      f ∈ Cbor.arrayUnlessEmpty name (as.map write) → as.length ≤ limits.arrayItems →
      (∀ a ∈ as, Accepts (readItem limits 30) (write a)) → Accepts (readItem limits 31) f.2 := by
    intro α name as write f hf hlimit has
    rw [Cbor.mem_arrayUnlessEmpty hf]
    refine Cbor.accepts_array (by rw [List.length_map]; exact hlimit) (by decide) ?_
    intro c hc
    obtain ⟨a, ha, rfl⟩ := List.mem_map.mp hc
    exact has a ha
  rw [toCbor_eq]
  show Accepts (readItem limits (31 + 1)) _
  refine Cbor.accepts_record ?_ (by decide) ?_
  · have hle := m.map_fst_fields.length_le
    rw [List.length_map] at hle
    exact hle.trans (by decide)
  · intro f hf
    simp only [fields, List.mem_append, List.mem_cons, List.not_mem_nil, or_false] at hf
    rcases hf with (((((rfl | rfl | rfl | rfl) | hf) | hf) | hf) | hf) | hf
    · exact Cbor.accepts_text _
    · exact Cbor.accepts_text _
    · exact Cbor.accepts_text _
    · rw [hcounts.version]
      exact Cbor.accepts_int (by decide) (by decide)
    · refine harray hf h.functions fun p hp => hrecord "arity" .int p fun levels => ?_
      obtain ⟨hlo, hhi⟩ := hcounts.arities p hp
      exact Cbor.accepts_int (by omega) (by omega)
    · refine harray hf h.globals fun p _ =>
        hrecord "init" (fun v : Int64 => .int v.toInt) p fun levels => ?_
      have hlo := p.2.le_toInt
      have hhi := p.2.toInt_lt
      exact Cbor.accepts_int (by omega) (by omega)
    · exact harray hf h.vars fun s _ => Cbor.accepts_text s
    · exact harray hf h.effects fun e _ => e.accepts 29
    · exact harray hf h.deps fun s _ => Cbor.accepts_text s

/-- The section of a manifest is read back. -/
theorem decode_eq_ok {m : Manifest} (h : m.Listable) (hcounts : m.Counts)
    (hlen : m.encode.length < 0x10000000000000000) : decode m.encode = .ok m := by
  have hread : (Cbor.decode limits m.encode >>= ofCbor) = .ok m := by
    unfold Manifest.encode at hlen ⊢
    rw [Cbor.decode_of_accepts (m.accepts h hcounts) hlen]
    exact restores hcounts
  unfold decode
  rw [hread]
  exact if_pos hcounts.version

end Manifest

/-! ## Artifacts -/

namespace Artifact

open Codegen

variable {art : Artifact} {u : CompUnit} {fns : List Defn} {maxDepth : Int} {g : Generated}

/-- The numbers of the manifest of a generated module fit in 64 bits. -/
theorem Made.counts (h : art.Made u fns maxDepth g) : g.manifest.Counts := by
  obtain ⟨p, new, hp, hmanifest, hmodule⟩ := h.program
  refine ⟨by rw [hmanifest]; rfl, fun f hf => ?_⟩
  rw [hmanifest] at hf
  obtain ⟨l, hl, rfl⟩ := List.mem_map.mp hf
  obtain ⟨i, hi, rfl⟩ := List.getElem_of_mem (List.mem_filter.mp hl).1
  obtain ⟨code, hcode, heq⟩ := forall₂_getElem? hp.functions (List.getElem?_eq_getElem hi)
  obtain ⟨k, -, hparams, -⟩ := functionCode_eq_ok heq
  have hmem : code ∈ p.codes := List.mem_append_left _ (List.mem_of_getElem? hcode)
  have hlt := hp.locals_lt (h.toModule_lt hmodule) hmem
  rw [hparams] at hlt
  dsimp only
  omega

/-- The binary of a generated module is opened as an artifact with its manifest. -/
theorem Made.open?_eq_ok (h : art.Made u fns maxDepth g) (hlists : g.manifest.Listable)
    (target : Target) :
    open? art.bytes target =
      .ok { manifest := some g.manifest, hash := g.manifest.hash, entrySymbol := g.manifest.entry
            bytes := art.bytes, target } := by
  have hlen : g.manifest.encode.length < 0x10000000000000000 := by
    have hmem : ((0 : UInt8), Binary.encodeName Manifest.sectionName ++ g.manifest.encode) ∈
        g.module.sections := by
      unfold Binary.Module.sections
      rw [customs_generate h.generated h.size]
      exact List.mem_append_right _ (List.mem_singleton.mpr rfl)
    have hle := g.module.length_section_le hmem
    have hsize := h.size
    rw [List.length_append] at hle
    omega
  unfold open?
  rw [h.inspect]
  dsimp only
  unfold ofInfo
  rw [custom?_generate h.generated h.size]
  dsimp only
  rw [Manifest.decode_eq_ok hlists h.counts hlen]

end Artifact

end WasmLisp
