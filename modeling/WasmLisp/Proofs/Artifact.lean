import Mathlib
import WasmLisp.Artifact
import WasmLisp.Proofs.Binary.Inspect
import WasmLisp.Proofs.Codegen.Module
import WasmLisp.Proofs.Manifest

/-!
# Opening a generated module

* `Codegen.inspect_generate`: what a linker sees of a generated module;
* `Artifact.open?_generate`: the artifact that the binary of a generated module is opened as has the
  manifest of that module.
-/

namespace WasmLisp

namespace Codegen

/-- A program imports functions and data symbols only. -/
theorem Program.plain {p : Program} (h : p.toModule.types.length ≤ 0x100000000) (m : Manifest) :
    (p.withManifest m).Plain := by
  intro i hi kind hkind
  obtain ⟨j, hj, rfl⟩ := List.getElem_of_mem (show i ∈ p.toModule.imports from hi)
  obtain ⟨w, -, hw⟩ :=
    forall₂_getElem? (toModule_spec h).1.flip (List.getElem?_eq_getElem hj)
  cases w with
  | func module name params results =>
    obtain ⟨t, ht, -⟩ := hw
    rw [ht] at hkind
    cases hkind
  | global name =>
    rw [show p.toModule.imports[j] = _ from hw] at hkind
    cases hkind

/-- The size of a module bounds the count of its signatures. -/
theorem Program.types_le {p : Program} {m : Manifest}
    (hsize : (p.withManifest m).encode.length < 0x100000000) :
    p.toModule.types.length ≤ 0x100000000 := by
  have hcount := p.toModule.count_le_length_encode
  have hle := p.length_encode_le m
  omega

theorem inspect_generate {u : CompUnit} {fns : List Defn} {maxDepth : Int} {g : Generated}
    (hg : generate u fns maxDepth = .ok g) (hsize : g.module.encode.length < 0x100000000) :
    Binary.Info.inspect g.module.encode = .ok g.module.info := by
  obtain ⟨p, -, -, hmodule⟩ := generate_eq_ok hg
  rw [hmodule] at hsize ⊢
  exact Binary.Info.inspect_encode (Program.plain (Program.types_le hsize) g.manifest) hsize

/-- The manifest is the one custom section of a generated module. -/
theorem customs_generate {u : CompUnit} {fns : List Defn} {maxDepth : Int} {g : Generated}
    (hg : generate u fns maxDepth = .ok g) (hsize : g.module.encode.length < 0x100000000) :
    g.module.customs = [{ name := Manifest.sectionName, data := g.manifest.encode }] := by
  obtain ⟨p, -, -, hmodule⟩ := generate_eq_ok hg
  have htypes : p.toModule.types.length ≤ 0x100000000 := Program.types_le (hmodule ▸ hsize)
  rw [hmodule, Program.withManifest, (Program.toModule_spec htypes).2.2.2]
  rfl

theorem custom?_generate {u : CompUnit} {fns : List Defn} {maxDepth : Int} {g : Generated}
    (hg : generate u fns maxDepth = .ok g) (hsize : g.module.encode.length < 0x100000000) :
    g.module.info.custom? Manifest.sectionName = some g.manifest.encode := by
  rw [Binary.Info.custom?, Binary.Module.info, customs_generate hg hsize]
  simp

end Codegen

namespace Artifact

open Codegen

variable {u : CompUnit} {fns : List Defn} {maxDepth : Int} {g : Generated}

/-- What the section of a generated module says is its manifest. -/
theorem ofInfo_generate (hg : generate u fns maxDepth = .ok g)
    (hsize : g.module.encode.length < 0x100000000) {bin : List UInt8} {target : Target}
    {art : Artifact} (h : ofInfo bin g.module.info target = .ok art) :
    art.manifest = some g.manifest ∧ art.hash = g.manifest.hash ∧
      art.entrySymbol = g.manifest.entry ∧ art.bytes = bin := by
  unfold ofInfo at h
  rw [custom?_generate hg hsize] at h
  dsimp only at h
  split at h
  · cases h
  · rename_i m hm
    cases h
    rw [Manifest.decode_encode hm]
    exact ⟨rfl, rfl, rfl, rfl⟩

/-- The artifact that the binary of a generated module is opened as has its manifest. -/
theorem open?_generate (hg : generate u fns maxDepth = .ok g)
    (hsize : g.module.encode.length < 0x100000000) {target : Target} {art : Artifact}
    (h : open? g.module.encode target = .ok art) :
    art.manifest = some g.manifest ∧ art.hash = g.manifest.hash ∧
      art.entrySymbol = g.manifest.entry ∧ art.bytes = g.module.encode := by
  unfold open? at h
  rw [inspect_generate hg hsize] at h
  exact ofInfo_generate hg hsize h

end Artifact

end WasmLisp
