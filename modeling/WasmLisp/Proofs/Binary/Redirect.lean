import Mathlib
import WasmLisp.Binary.Redirect
import WasmLisp.Proofs.Binary.Local

/-!
# Imports from other modules

Redirection reads a section of imports in its own way: it keeps the bytes of a description where
inspection makes a value of them. Both accept the same bytes.

* `RawImport.StandsFor`: an import with the bytes of its description, and the import that they write;
  `Decode.vec_rawImport`: what inspection reads as imports redirection reads as well;
* `RawSection.redirect`, `Redirected.foldlM_addSection`: redirection copies the header and redirects the
  sections one after the other;
* `Info.foldlM_redirect`: the view of redirected sections is the redirected view;
* `redirectImports_inspect`: whatever can be inspected can be redirected, and nothing but the modules of
  its imports changes;
* `redirectImports_encode`: the binary with other module names is that of the module with other module
  names.
-/

namespace WasmLisp.Binary

/-! ## Two readings of imports -/

/-- The description of the one is the bytes that write the description of the other. -/
structure RawImport.StandsFor (raw : RawImport) (i : Import) : Prop where
  module : raw.module = i.module
  name : raw.name = i.name
  desc : Decode.Reads Decode.importDesc raw.desc i.desc

namespace Decode

variable {α β : Type}

/-- The bytes that a reader goes over are those it takes. -/
theorem Reads.spanned {d : Decode α} {bytes : List UInt8} {a : α} (h : Reads d bytes a) :
    Reads (spanned d) bytes bytes := by
  intro rest offset
  simp [Decode.spanned, h rest offset]

/-- The bytes that a reader went over are bytes that it reads. -/
theorem Local.spanned {d : Decode α} (hd : Local d) {c c' : Cursor} {a : α}
    (h : d c = .ok (a, c')) : ∃ taken, spanned d c = .ok (taken, c') ∧ Reads d taken a := by
  obtain ⟨taken, hrest, hoffset, hreads⟩ := hd h
  refine ⟨taken, ?_, hreads⟩
  simp only [Decode.spanned, h]
  rw [hoffset, Nat.add_sub_cancel_left, hrest, List.take_left]

theorem rawImport_of_import {c c' : Cursor} {i : Import} (h : import' c = .ok (i, c')) :
    ∃ raw, rawImport c = .ok (raw, c') ∧ raw.StandsFor i := by
  obtain ⟨module, c₁, hmodule, h⟩ := bind_eq_ok h
  obtain ⟨name, c₂, hname, h⟩ := bind_eq_ok h
  obtain ⟨desc, c₃, hdesc, h⟩ := bind_eq_ok h
  cases h
  obtain ⟨taken, hspanned, hreads⟩ := local_importDesc.spanned hdesc
  refine ⟨⟨module, name, taken⟩, ?_, rfl, rfl, hreads⟩
  simp only [rawImport, bind, StateT.bind, hmodule, Except.bind, hname, hspanned, pure, StateT.pure,
    Except.pure]

section Items

variable {R : β → α → Prop} {d : Decode α} {d' : Decode β} {c c' : Cursor} {as : List α}

/-- A reader that accepts what another one does accepts as many of them. -/
theorem items_forall₂ (hd : ∀ ⦃c c' a⦄, d c = .ok (a, c') → ∃ b, d' c = .ok (b, c') ∧ R b a) {n : Nat}
    (h : items d n c = .ok (as, c')) :
    ∃ bs, items d' n c = .ok (bs, c') ∧ List.Forall₂ R bs as := by
  induction n generalizing c as with
  | zero =>
    cases h
    exact ⟨[], rfl, .nil⟩
  | succ n ih =>
    obtain ⟨a, c₁, ha, h⟩ := bind_eq_ok h
    obtain ⟨as, c₂, has, h⟩ := bind_eq_ok h
    cases h
    obtain ⟨b, hb, hab⟩ := hd ha
    obtain ⟨bs, hbs, habs⟩ := ih has
    refine ⟨b :: bs, ?_, .cons hab habs⟩
    simp only [items, bind, StateT.bind, hb, Except.bind, hbs, pure, StateT.pure, Except.pure]

theorem length_items {n : Nat} (h : items d n c = .ok (as, c')) : as.length = n := by
  induction n generalizing c as with
  | zero =>
    cases h
    rfl
  | succ n ih =>
    obtain ⟨a, c₁, ha, h⟩ := bind_eq_ok h
    obtain ⟨as, c₂, has, h⟩ := bind_eq_ok h
    cases h
    rw [List.length_cons, ih has]

theorem vec_forall₂ (hd : ∀ ⦃c c' a⦄, d c = .ok (a, c') → ∃ b, d' c = .ok (b, c') ∧ R b a)
    (h : vec d c = .ok (as, c')) : ∃ bs, vec d' c = .ok (bs, c') ∧ List.Forall₂ R bs as := by
  obtain ⟨n, c₁, hn, h⟩ := bind_eq_ok h
  obtain ⟨bs, hbs, hR⟩ := items_forall₂ hd h
  refine ⟨bs, ?_, hR⟩
  simp only [vec, bind, StateT.bind, hn, Except.bind, hbs]

/-- A list is no longer than 32 bits count. -/
theorem length_vec (h : vec d c = .ok (as, c')) : as.length < 0x100000000 := by
  obtain ⟨n, c₁, hn, h⟩ := bind_eq_ok h
  rw [length_items h]
  exact n.toNat_lt

end Items

/-- What is read as imports is also read with descriptions that are kept as bytes. -/
theorem vec_rawImport {c c' : Cursor} {is : List Import} (h : vec import' c = .ok (is, c')) :
    ∃ raws, vec rawImport c = .ok (raws, c') ∧ List.Forall₂ RawImport.StandsFor raws is :=
  vec_forall₂ (fun _ _ _ => rawImport_of_import) h

end Decode

/-- The import from another module. -/
def Import.redirect (target : String → String → String) (i : Import) : Import :=
  { i with module := target i.module i.name }

namespace RawImport

/-- The import from another module. -/
def redirect (target : String → String → String) (raw : RawImport) : RawImport :=
  { raw with module := target raw.module raw.name }

namespace StandsFor

variable {raw : RawImport} {i : Import}

theorem redirect (h : raw.StandsFor i) (target : String → String → String) :
    (raw.redirect target).StandsFor (i.redirect target) where
  module := by simp only [RawImport.redirect, Import.redirect, h.module, h.name]
  name := h.name
  desc := h.desc

theorem reads (h : raw.StandsFor i) (hsize : raw.encode.length < 0x100000000) :
    Decode.Reads Decode.import' raw.encode i := by
  simp only [RawImport.encode, encodeName, encodeBlock, List.length_append] at hsize
  rw [RawImport.encode, List.append_assoc, h.module, h.name]
  rw [h.module, h.name] at hsize
  refine (Decode.reads_name (by omega)).bind ((Decode.reads_name (by omega)).bind ?_)
  exact h.desc.map fun desc => ({ module := i.module, name := i.name, desc } : Import)

end StandsFor

end RawImport

/-! ## Sections -/

namespace RawSection

variable (target : String → String → String)

/-- What a reader takes the section for if it is one of imports. -/
def importsAs {α : Type} (d : Decode α) (s : RawSection) : List α :=
  if s.id ≠ 2 then [] else
    match Decode.vec d { rest := s.body } with
    | .ok (is, _) => is
    | .error _ => []

/-- The imports of a section. -/
def imports (s : RawSection) : List Import := s.importsAs Decode.import'

/-- The imports of a section with descriptions that are kept as bytes. -/
def rawImports (s : RawSection) : List RawImport := s.importsAs Decode.rawImport

/-- The section with imports from other modules. -/
def redirect (s : RawSection) : RawSection :=
  if s.id ≠ 2 then s else
    let body := encodeVec RawImport.encode (s.rawImports.map (RawImport.redirect target))
    { id := 2, body, raw := encodeSection 2 body }

/-- If the section is one of imports, they can be read. -/
def ImportsReadable (s : RawSection) : Prop :=
  s.id = 2 → ∃ is c, Decode.vec Decode.import' { rest := s.body } = .ok (is, c)

variable {s : RawSection}

theorem imports_of_ne (h : s.id ≠ 2) : s.imports = [] := if_pos h

theorem redirect_of_ne (h : s.id ≠ 2) : s.redirect target = s := if_pos h

theorem redirect_of_eq (h : s.id = 2) : s.redirect target =
    { id := 2, body := encodeVec RawImport.encode (s.rawImports.map (RawImport.redirect target))
      raw := encodeSection 2
        (encodeVec RawImport.encode (s.rawImports.map (RawImport.redirect target))) } :=
  if_neg (not_not.mpr h)

theorem id_redirect (s : RawSection) : (s.redirect target).id = s.id := by
  by_cases hid : s.id = 2
  · rw [redirect_of_eq target hid, hid]
  · rw [redirect_of_ne target hid]

/-- A section of imports, as inspection and as redirection read it. -/
theorem ImportsReadable.read (hs : s.ImportsReadable) (hid : s.id = 2) :
    ∃ c, Decode.vec Decode.import' { rest := s.body } = .ok (s.imports, c) ∧
      Decode.vec Decode.rawImport { rest := s.body } = .ok (s.rawImports, c) ∧
      List.Forall₂ RawImport.StandsFor s.rawImports s.imports := by
  obtain ⟨is, c, hread⟩ := hs hid
  obtain ⟨raws, hraws, hR⟩ := Decode.vec_rawImport hread
  have his : s.imports = is := by simp [imports, importsAs, hid, hread]
  have hrs : s.rawImports = raws := by simp [rawImports, importsAs, hid, hraws]
  rw [his, hrs]
  exact ⟨c, hread, hraws, hR⟩

theorem readable_redirect (h : s.Readable) (hsize : (s.redirect target).raw.length < 0x100000000) :
    (s.redirect target).Readable := by
  by_cases hid : s.id = 2
  · rw [redirect_of_eq target hid] at hsize ⊢
    refine read_encodeSection 2 ?_
    simp only [encodeSection, encodeBlock, List.length_cons, List.length_append] at hsize
    omega
  · rwa [redirect_of_ne target hid]

/-- The imports of the redirected section are read from it. -/
theorem ImportsReadable.read_redirect (hs : s.ImportsReadable) (hid : s.id = 2)
    (hsize : (s.redirect target).raw.length < 0x100000000) :
    ∃ c, Decode.vec Decode.import' { rest := (s.redirect target).body } =
      .ok (s.imports.map (Import.redirect target), c) := by
  obtain ⟨c, -, hraws, hR⟩ := hs.read hid
  rw [redirect_of_eq target hid] at hsize ⊢
  simp only [encodeSection, encodeBlock, List.length_cons, List.length_append] at hsize
  have hbody : (encodeVec RawImport.encode (s.rawImports.map (RawImport.redirect target))).length <
      0x100000000 := by omega
  have hitems : List.Forall₂ (fun raw i => Decode.Reads Decode.import' (RawImport.encode raw) i)
      (s.rawImports.map (RawImport.redirect target)) (s.imports.map (Import.redirect target)) := by
    rw [List.forall₂_map_left_iff, List.forall₂_map_right_iff]
    have hlt : ∀ raw ∈ s.rawImports, (raw.redirect target).encode.length < 0x100000000 :=
      fun raw hraw => item_lt hbody (List.mem_map_of_mem hraw)
    exact ((List.forall₂_and_left _ _).mpr ⟨hlt, hR⟩).imp fun raw i h => (h.2.redirect target).reads h.1
  have hcount : (s.rawImports.map (RawImport.redirect target)).length < 0x100000000 := by
    rw [List.length_map]
    exact Decode.length_vec hraws
  have hread := Decode.reads_encodeVec hitems hcount [] 0
  rw [List.append_nil] at hread
  exact ⟨_, hread⟩

end RawSection

/-! ## Redirection, section by section -/

namespace Redirected

variable (target : String → String → String)

/-- A section is redirected, and its imports are visited in order. -/
theorem addSection_eq {s : RawSection} (hs : s.ImportsReadable) (r : Redirected) :
    addSection target r s = .ok
      { bytes := r.bytes ++ (s.redirect target).raw
        changed := r.changed || s.imports.any fun i => target i.module i.name != i.module
        visited := (s.imports.map fun i => (i.module, i.name)).reverse ++ r.visited } := by
  by_cases hid : s.id = 2
  · obtain ⟨c, -, hraws, hR⟩ := hs.read hid
    have hnames : s.rawImports.map (fun i => (i.module, i.name)) =
        s.imports.map fun i => (i.module, i.name) :=
      map_eq_of_forall₂ hR fun raw i h => by rw [h.module, h.name]
    have hmoved : (s.rawImports.any fun i => target i.module i.name != i.module) =
        s.imports.any fun i => target i.module i.name != i.module := by
      have h := congrArg (List.any · fun p => target p.1 p.2 != p.1) hnames
      rwa [List.any_map, List.any_map] at h
    simp only [addSection, hid, ne_eq, not_true_eq_false, if_false, hraws, List.map_reverse, hnames,
      hmoved, RawSection.redirect_of_eq target hid]
    rfl
  · simp [addSection, hid, RawSection.imports_of_ne hid, RawSection.redirect_of_ne target hid]

theorem foldlM_addSection {ss : List RawSection} (hs : ∀ s ∈ ss, s.ImportsReadable)
    (r : Redirected) : ss.foldlM (addSection target) r = .ok
      { bytes := r.bytes ++ (ss.map (RawSection.redirect target)).flatMap (·.raw)
        changed := r.changed ||
          ss.any fun s => s.imports.any fun i => target i.module i.name != i.module
        visited :=
          (ss.flatMap fun s => s.imports.map fun i => (i.module, i.name)).reverse ++ r.visited } := by
  induction ss generalizing r with
  | nil => simp [pure, Except.pure]
  | cons s ss ih =>
    rw [List.foldlM_cons, addSection_eq target (hs s List.mem_cons_self) r]
    show List.foldlM _ _ _ = _
    rw [ih fun t ht => hs t (List.mem_cons_of_mem _ ht)]
    simp [Bool.or_assoc]

end Redirected

/-! ## The view of redirected sections -/

namespace Info

variable (target : String → String → String) {info info' : Info} {s : RawSection}
  {ss : List RawSection}

/-- The view with imports from other modules. -/
def redirect (info : Info) : Info :=
  { info with imports := info.imports.map (Import.redirect target) }

theorem redirect_eq_self (h : ∀ i ∈ info.imports, target i.module i.name = i.module) :
    info.redirect target = info := by
  have himports : info.imports.map (Import.redirect target) = info.imports.map id :=
    List.map_congr_left fun i hi => by simp only [Import.redirect, h i hi, id]
  rw [redirect, himports, List.map_id]

/-- Sections that are not of imports leave the imports alone, and do not look at them. -/
theorem addSection_of_ne (hid : s.id ≠ 2) (info : Info) (is : List Import) :
    addSection { info with imports := is } s =
      (addSection info s).map ({ · with imports := is }) := by
  have hne : s.id.toNat ≠ 2 := fun h => hid (UInt8.toNat_inj.mp h)
  unfold addSection
  dsimp only
  split <;> first | exact absurd ‹_› hne | (split <;> rfl) | rfl

theorem imports_addSection (hid : s.id ≠ 2) (h : addSection info s = .ok info') :
    info'.imports = info.imports := by
  have hsame := addSection_of_ne hid info info.imports
  rw [show addSection { info with imports := info.imports } s = .ok info' from h] at hsame
  have hkept : info' = { info' with imports := info.imports } := Except.ok.inj hsame
  rw [hkept]

/-- A section of imports replaces those seen before. -/
theorem addSection_imports {c : Cursor} {is : List Import} (hid : s.id = 2)
    (h : Decode.vec Decode.import' { rest := s.body } = .ok (is, c)) (info : Info) :
    addSection info s = .ok { info with imports := is } := by
  simp only [addSection, hid, show (2 : UInt8).toNat = 2 from rfl, h]

theorem importsReadable_of_addSection (h : addSection info s = .ok info') : s.ImportsReadable := by
  intro hid
  simp only [addSection, hid, show (2 : UInt8).toNat = 2 from rfl] at h
  split at h
  · rename_i is c hread
    exact ⟨is, c, hread⟩
  · cases h

theorem importsReadable_of_foldlM (h : ss.foldlM addSection info = .ok info') :
    ∀ s ∈ ss, s.ImportsReadable := by
  induction ss generalizing info with
  | nil => nofun
  | cons s ss ih =>
    rw [List.foldlM_cons] at h
    obtain ⟨info₁, hs, h⟩ := Except.bind_eq_ok h
    exact List.forall_mem_cons.mpr ⟨importsReadable_of_addSection hs, ih h⟩

theorem imports_of_addSection (h : addSection info s = .ok info') :
    info'.imports = if s.id = 2 then s.imports else info.imports := by
  by_cases hid : s.id = 2
  · obtain ⟨c, hread, -⟩ := (importsReadable_of_addSection h).read hid
    rw [addSection_imports hid hread] at h
    cases h
    rw [if_pos hid]
  · rw [if_neg hid, imports_addSection hid h]

/-- The imports of the view are imports of a section, or were there before. -/
theorem mem_imports_of_foldlM (h : ss.foldlM addSection info = .ok info') {i : Import}
    (hi : i ∈ info'.imports) : i ∈ info.imports ∨ ∃ s ∈ ss, i ∈ s.imports := by
  induction ss generalizing info with
  | nil =>
    cases h
    exact .inl hi
  | cons s ss ih =>
    rw [List.foldlM_cons] at h
    obtain ⟨info₁, hs, h⟩ := Except.bind_eq_ok h
    rcases ih h with hfirst | ⟨t, ht, hit⟩
    · rw [imports_of_addSection hs] at hfirst
      split at hfirst
      · exact .inr ⟨s, List.mem_cons_self, hfirst⟩
      · exact .inl hfirst
    · exact .inr ⟨t, List.mem_cons_of_mem _ ht, hit⟩

theorem addSection_redirect (hsize : (s.redirect target).raw.length < 0x100000000)
    (h : addSection info s = .ok info') :
    addSection (info.redirect target) (s.redirect target) = .ok (info'.redirect target) := by
  by_cases hid : s.id = 2
  · have hs := importsReadable_of_addSection h
    obtain ⟨c, hread, -⟩ := hs.read hid
    obtain ⟨c', hread'⟩ := hs.read_redirect target hid hsize
    rw [addSection_imports hid hread] at h
    cases h
    exact addSection_imports ((RawSection.id_redirect target s).trans hid) hread' _
  · rw [RawSection.redirect_of_ne target hid, redirect, addSection_of_ne hid, h, redirect,
      imports_addSection hid h]
    rfl

/-- The view of redirected sections is the redirected view. -/
theorem foldlM_redirect (hsize : ∀ s ∈ ss, (s.redirect target).raw.length < 0x100000000)
    (h : ss.foldlM addSection info = .ok info') :
    (ss.map (RawSection.redirect target)).foldlM addSection (info.redirect target) =
      .ok (info'.redirect target) := by
  induction ss generalizing info with
  | nil =>
    cases h
    rfl
  | cons s ss ih =>
    rw [List.foldlM_cons] at h
    obtain ⟨info₁, hs, h⟩ := Except.bind_eq_ok h
    rw [List.map_cons, List.foldlM_cons, addSection_redirect target (hsize s List.mem_cons_self) hs]
    exact ih (fun t ht => hsize t (List.mem_cons_of_mem _ ht)) h

end Info

/-! ## The binary with imports from other modules -/

/-- Redirection goes through the sections of a binary. -/
theorem redirectImports_eq (target : String → String → String) {bin : List UInt8}
    {ss : List RawSection} {r : Redirected} (hsections : sections bin = .ok ss)
    (h : ss.foldlM (Redirected.addSection target) { bytes := bin.take 8 } = .ok r) :
    redirectImports target bin = .ok
      { bytes := if r.changed then r.bytes else bin
        changed := r.changed
        visited := r.visited.reverse } := by
  obtain ⟨⟨⟨⟩, c⟩, hheader, hfold⟩ :=
    Except.bind_eq_ok (foldSections_eq_ok_iff_sections.mpr ⟨ss, hsections, h⟩)
  simp only [redirectImports, hheader, hfold, bind, Except.bind, pure, Except.pure]

/-- The sections of a redirected binary are the redirected sections, after the same header. -/
theorem sections_redirect (target : String → String → String) {bin : List UInt8}
    {ss : List RawSection} (hsections : sections bin = .ok ss)
    (hsize : ∀ s ∈ ss, (s.redirect target).raw.length < 0x100000000) :
    sections (bin.take 8 ++ (ss.map (RawSection.redirect target)).flatMap (·.raw)) =
      .ok (ss.map (RawSection.redirect target)) := by
  obtain ⟨hheader, hss, -⟩ := sections_eq_ok.mp hsections
  have hlen : (bin.take 8).length = 8 := length_of_reads_checkHeader hheader
  rw [sections_eq_ok, List.take_left' hlen, List.drop_left' hlen]
  refine ⟨hheader, List.forall_mem_map.mpr fun s hs => ?_, rfl⟩
  exact RawSection.readable_redirect target (hss s hs) (hsize s hs)

/-- If redirection changes none of the sections of a binary, it changes no import of its view. -/
theorem fixed_of_any_moved {target : String → String → String} {ss : List RawSection} {info : Info}
    (hfold : ss.foldlM Info.addSection {} = .ok info)
    (hmoved : (ss.any fun s => s.imports.any fun i => target i.module i.name != i.module) = false) :
    ∀ i ∈ info.imports, target i.module i.name = i.module := by
  intro i hi
  obtain ⟨s, hs, his⟩ := (Info.mem_imports_of_foldlM hfold hi).resolve_left List.not_mem_nil
  simp only [List.any_eq_false, bne_iff_ne, ne_eq, not_not, List.any_eq_true, not_exists, not_and]
    at hmoved
  exact hmoved s hs i his

/-- Whatever can be inspected can be redirected. Every import of every section is visited once, in order.
A binary of which no module changes is given back as it is; and a result that 32 bits count has the
header and the sections of the binary, those that are not of imports byte for byte, and looks like the
binary with imports from other modules. -/
theorem redirectImports_inspect (target : String → String → String) {bin : List UInt8} {info : Info}
    (h : Info.inspect bin = .ok info) :
    ∃ r ss, redirectImports target bin = .ok r ∧ sections bin = .ok ss ∧
      r.visited = (ss.flatMap fun s => s.imports.map fun i => (i.module, i.name)) ∧
      ((∀ p ∈ r.visited, target p.1 p.2 = p.1) → r.changed = false ∧ r.bytes = bin) ∧
      (r.bytes.length < 0x100000000 → ∃ ss', sections r.bytes = .ok ss' ∧
        List.Forall₂ (fun s s' => s'.id = s.id ∧ (s.id ≠ 2 → s'.raw = s.raw)) ss ss' ∧
        r.bytes.take 8 = bin.take 8 ∧ Info.inspect r.bytes = .ok (info.redirect target)) := by
  obtain ⟨ss, hsections, hfold⟩ := inspect_eq_ok.mp h
  have hrun := redirectImports_eq target hsections
    (Redirected.foldlM_addSection target (Info.importsReadable_of_foldlM hfold) _)
  simp only [Bool.false_or, List.append_nil, List.reverse_reverse] at hrun
  refine ⟨_, ss, hrun, hsections, rfl, ?_⟩
  dsimp only
  -- if no module changes the result is the binary itself, not what its sections would be rewritten to:
  -- these may be shorter, or longer than 32 bits count
  cases hmoved : ss.any fun s => s.imports.any fun i => target i.module i.name != i.module with
  | false =>
    have hinfo : info.redirect target = info :=
      Info.redirect_eq_self target (fixed_of_any_moved hfold hmoved)
    refine ⟨fun _ => ⟨rfl, rfl⟩, fun _ => ⟨ss, hsections, ?_, rfl, ?_⟩⟩
    · exact List.forall₂_same.mpr fun s _ => ⟨rfl, fun _ => rfl⟩
    · rw [hinfo]
      exact h
  | true =>
    rw [if_pos rfl]
    constructor
    · intro hfixed
      obtain ⟨s, hs, hi⟩ := List.any_eq_true.mp hmoved
      obtain ⟨i, hi, hne⟩ := List.any_eq_true.mp hi
      refine absurd (hfixed (i.module, i.name) ?_) (bne_iff_ne.mp hne)
      exact List.mem_flatMap_of_mem hs (List.mem_map_of_mem hi)
    · intro hlength
      rw [List.length_append, List.flatMap_map] at hlength
      have hsize : ∀ s ∈ ss, (s.redirect target).raw.length < 0x100000000 := by
        intro s hs
        have hle := length_le_length_flatMap (fun s : RawSection => (s.redirect target).raw) hs
        omega
      have hsections' := sections_redirect target hsections hsize
      refine ⟨_, hsections', ?_, ?_, ?_⟩
      · rw [List.forall₂_map_right_iff, List.forall₂_same]
        refine fun s _ => ⟨RawSection.id_redirect target s, fun hid => ?_⟩
        rw [RawSection.redirect_of_ne target hid]
      · exact List.take_left' (length_of_reads_checkHeader (sections_eq_ok.mp hsections).1)
      · exact inspect_eq_ok.mpr ⟨_, hsections', Info.foldlM_redirect target hsize hfold⟩

/-- A binary whose lengths are written in more bytes than they need, with an import of a table and with
bytes after the last import. -/
def padded : List UInt8 :=
  header ++ [0, 4, 1, 0x78, 1, 2] ++ [2, 0x96, 0, 2, 1, 0x61, 1, 0x66, 0, 0x83, 0,
    1, 0x61, 0x81, 0, 0x74, 1, 0x70, 1, 1, 0x82, 0, 0x77, 0x77, 0x77]

theorem redirectImports_inspect_padded :
    Info.inspect padded = .ok
      { customs := [⟨"x", [1, 2]⟩], imports := [⟨"a", "f", .func 3⟩, ⟨"a", "t", .other 1⟩] } ∧
    ∃ r, redirectImports (fun _ name => "lib." ++ name) padded = .ok r ∧
      Info.inspect r.bytes = .ok { customs := [⟨"x", [1, 2]⟩]
                                   imports := [⟨"lib.f", "f", .func 3⟩, ⟨"lib.t", "t", .other 1⟩] } := by
  have hview : Info.inspect padded = .ok
      { customs := [⟨"x", [1, 2]⟩], imports := [⟨"a", "f", .func 3⟩, ⟨"a", "t", .other 1⟩] } := by
    decide +kernel
  obtain ⟨r, ss, hr, -, -, -, hsame⟩ := redirectImports_inspect (fun _ name => "lib." ++ name) hview
  have hlength : (redirectImports (fun _ name => "lib." ++ name) padded).map (·.bytes.length) =
      .ok 42 := by cbv
  rw [hr] at hlength
  have hlength : r.bytes.length = 42 := Except.ok.inj hlength
  obtain ⟨ss', -, -, -, hview'⟩ := hsame (by omega)
  exact ⟨hview, r, hr, hview'⟩

/-! ## Written modules -/

/-- The module with imports from other modules. -/
def Module.redirect (target : String → String → String) (m : Module) : Module :=
  { m with imports := m.imports.map (Import.redirect target) }

namespace Module

variable {m : Module} (target : String → String → String)

/-- The imports of a written module are read with the bytes of their descriptions. -/
theorem read_rawImports (hplain : m.Plain) (hsize : m.encode.length < 0x100000000) :
    Decode.vec Decode.rawImport { rest := encodeVec Import.encode m.imports } =
      .ok (m.imports.map fun i => ⟨i.module, i.name, i.desc.encode⟩,
        { rest := [], offset := (encodeVec Import.encode m.imports).length }) := by
  obtain ⟨hs, hnames⟩ := import_lt hsize
  refine Decode.vec_encodeVec (fun i hi => ?_) (fun i _ => i.length_encode_pos) hs
  rw [Import.encode, List.append_assoc]
  refine (Decode.reads_name (hnames i hi).1).bind ((Decode.reads_name (hnames i hi).2).bind ?_)
  exact (Decode.reads_importDesc (hplain i hi)).spanned.map fun desc =>
    (⟨i.module, i.name, desc⟩ : RawImport)

theorem map_redirect_of_ne {sections : List (UInt8 × List UInt8)} (h : ∀ p ∈ sections, p.1 ≠ 2) :
    (sections.map RawSection.written).map (RawSection.redirect target) =
      sections.map RawSection.written := by
  rw [List.map_map]
  exact List.map_congr_left fun p hp => RawSection.redirect_of_ne target (h p hp)

theorem map_redirect_imports (hplain : m.Plain) (hsize : m.encode.length < 0x100000000) :
    ((itemSection 2 Import.encode m.imports).map RawSection.written).map
        (RawSection.redirect target) =
      (itemSection 2 Import.encode (m.redirect target).imports).map RawSection.written := by
  have hraw : (RawSection.written (2, encodeVec Import.encode m.imports)).rawImports =
      m.imports.map fun i => ⟨i.module, i.name, i.desc.encode⟩ := by
    simp [RawSection.rawImports, RawSection.importsAs, RawSection.written,
      read_rawImports hplain hsize]
  have hencode : encodeVec RawImport.encode ((m.imports.map fun i =>
        (⟨i.module, i.name, i.desc.encode⟩ : RawImport)).map (RawImport.redirect target)) =
      encodeVec Import.encode (m.imports.map (Import.redirect target)) := by
    simp only [encodeVec, List.length_map, List.flatMap_map]
    rfl
  cases hnil : m.imports.isEmpty with
  | true => simp [itemSection, redirect, hnil]
  | false =>
    simp only [itemSection, redirect, List.isEmpty_map, hnil, Bool.false_eq_true, if_false,
      List.map_cons, List.map_nil, RawSection.redirect_of_eq target
        (show (RawSection.written (2, encodeVec Import.encode m.imports)).id = 2 from rfl),
      hraw, hencode]
    rfl

/-- Redirecting the sections of a written module gives those of the redirected module. -/
theorem map_redirect_sections (hplain : m.Plain) (hsize : m.encode.length < 0x100000000) :
    (m.sections.map RawSection.written).map (RawSection.redirect target) =
      (m.redirect target).sections.map RawSection.written := by
  have hitems : ∀ {α : Type} (id : UInt8) (enc : α → List UInt8) (as : List α), id ≠ 2 →
      ((itemSection id enc as).map RawSection.written).map (RawSection.redirect target) =
        (itemSection id enc as).map RawSection.written := by
    intro α id enc as hid
    exact map_redirect_of_ne target fun p hp => fst_of_mem_itemSection hp ▸ hid
  have hne : ∀ p ∈ m.customs.map fun c => ((0 : UInt8), encodeName c.name ++ c.data), p.1 ≠ 2 := by
    intro p hp
    obtain ⟨c, -, rfl⟩ := List.mem_map.mp hp
    exact show (0 : UInt8) ≠ 2 by decide
  unfold sections
  simp only [List.map_append, map_redirect_imports target hplain hsize]
  rw [hitems 1 _ _ (by decide), hitems 3 _ _ (by decide), hitems 6 _ _ (by decide),
    hitems 7 _ _ (by decide), hitems 10 _ _ (by decide), map_redirect_of_ne target hne]
  rfl

end Module

/-- The binary with other module names is that of the module with other module names. -/
theorem redirectImports_encode (target : String → String → String) {m : Module} (hplain : m.Plain)
    (hsize : m.encode.length < 0x100000000) :
    ∃ r, redirectImports target m.encode = .ok r ∧ r.bytes = (m.redirect target).encode := by
  have hsections := Module.sections_encode hsize
  obtain ⟨ss, hss, hfold⟩ := inspect_eq_ok.mp (Info.inspect_encode hplain hsize)
  obtain rfl : ss = m.sections.map RawSection.written := Except.ok.inj (hss.symm.trans hsections)
  have hrun := redirectImports_eq target hsections
    (Redirected.foldlM_addSection target (Info.importsReadable_of_foldlM hfold) _)
  refine ⟨_, hrun, ?_⟩
  dsimp only
  rw [Bool.false_or, Module.map_redirect_sections target hplain hsize, List.flatMap_map]
  split
  · rw [Module.encode_eq, Module.encode_eq]
    rfl
  · rename_i hsame
    have hfixed := fixed_of_any_moved hfold (Bool.eq_false_iff.mpr hsame)
    have himports : m.imports.map (Import.redirect target) = m.imports :=
      congrArg Info.imports (Info.redirect_eq_self target hfixed)
    rw [Module.redirect, himports]

end WasmLisp.Binary
