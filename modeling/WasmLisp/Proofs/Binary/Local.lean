import Mathlib
import WasmLisp.Proofs.Binary.Inspect

/-!
# What readers look at

* `Decode.Local`: a reader that takes bytes from the front, and gives what it gives whatever comes after
  them;
* `sections`, `sections_eq_ok`: a binary is a header and sections, each of which is read from its own
  bytes alone; `Module.sections_encode`: those of a written module are the ones that were written;
* `inspect_eq_ok`: the view of a binary is made from its sections.
-/

namespace WasmLisp.Binary

namespace Decode

variable {α β : Type}

/-- The reader takes bytes from the front, and what it gives depends on these alone. -/
def Local (d : Decode α) : Prop :=
  ∀ ⦃c c' : Cursor⦄ ⦃a : α⦄, d c = .ok (a, c') → ∃ taken, c.rest = taken ++ c'.rest ∧
    c'.offset = c.offset + taken.length ∧ Reads d taken a

theorem bind_eq_ok {d : Decode α} {f : α → Decode β} {c c'' : Cursor} {b : β}
    (h : (d >>= f) c = .ok (b, c'')) : ∃ a c', d c = .ok (a, c') ∧ f a c' = .ok (b, c'') := by
  obtain ⟨⟨a, c'⟩, hd, hf⟩ := Except.bind_eq_ok h
  exact ⟨a, c', hd, hf⟩

theorem Local.pure (a : α) : Local (Pure.pure a : Decode α) := by
  intro c c' b h
  cases h
  exact ⟨[], rfl, rfl, .pure a⟩

theorem Local.fail (e : Fault) : Local (fail e : Decode α) := by
  intro c c' a h
  cases h

theorem Local.bind {d : Decode α} {f : α → Decode β} (hd : Local d) (hf : ∀ a, Local (f a)) :
    Local (d >>= f) := by
  intro c c'' b h
  obtain ⟨a, c', ha, hb⟩ := bind_eq_ok h
  obtain ⟨l, hl, hlo, hread⟩ := hd ha
  obtain ⟨r, hr, hro, hread'⟩ := hf a hb
  refine ⟨l ++ r, ?_, ?_, hread.bind hread'⟩
  · rw [hl, hr, List.append_assoc]
  · rw [hro, hlo, List.length_append, Nat.add_assoc]

theorem Local.ite {p : Prop} [Decidable p] {d d' : Decode α} (h : Local d) (h' : Local d') :
    Local (if p then d else d') := by
  split
  · exact h
  · exact h'

theorem local_byte : Local byte := by
  rintro ⟨rest, offset⟩ c' b h
  cases rest with
  | nil => cases h
  | cons _ rest =>
    cases h
    exact ⟨[b], rfl, rfl, reads_byte b⟩

theorem local_take (n : Nat) : Local (take n) := by
  rintro ⟨rest, offset⟩ c' bytes h
  simp only [take] at h
  split at h
  · rename_i hn
    cases h
    refine ⟨rest.take n, (List.take_append_drop n rest).symm, by rw [hn], ?_⟩
    have hread := reads_take (rest.take n)
    rwa [hn] at hread
  · cases h

theorem local_u32From (left shift acc : Nat) : Local (u32From left shift acc) := by
  induction left generalizing shift acc with
  | zero => exact .fail _
  | succ left ih => exact local_byte.bind fun b => .ite (.pure _) (ih _ _)

theorem local_u32 : Local u32 := (local_u32From 5 0 0).bind fun _ => .pure _

theorem local_limits : Local limits :=
  local_byte.bind fun _ => local_u32.bind fun _ =>
    .ite (local_u32.bind fun _ => .pure _) (.pure _)

theorem local_globalType : Local globalType :=
  local_byte.bind fun _ => local_byte.bind fun _ => .pure _

theorem local_importDesc : Local importDesc :=
  local_byte.bind fun _ =>
    .ite (local_u32.bind fun _ => .pure _)
      (.ite (local_byte.bind fun _ => local_limits.bind fun _ => .pure _)
        (.ite (local_limits.bind fun _ => .pure _)
          (.ite (local_globalType.bind fun _ => .pure _) (.fail _))))

end Decode

/-! ## Sections -/

theorem local_checkHeader : Decode.Local checkHeader :=
  (Decode.local_take 8).bind fun _ =>
    .ite ((Decode.Local.fail _).bind fun _ => .ite (.fail _) (.pure ()))
      (.ite (.fail _) (.pure ()))

/-- A header is eight bytes long. -/
theorem offset_checkHeader {bin : List UInt8} {c : Cursor} {u : Unit}
    (h : checkHeader { rest := bin } = .ok (u, c)) : c.offset = 8 := by
  obtain ⟨raw, c₁, hraw, hcheck⟩ := Decode.bind_eq_ok h
  have hc : c = c₁ := by
    dsimp only at hcheck
    split at hcheck
    · obtain ⟨_, _, hfail, _⟩ := Decode.bind_eq_ok hcheck
      cases hfail
    · split at hcheck
      · cases hcheck
      · cases hcheck
        rfl
  rw [hc]
  simp only [Decode.take] at hraw
  split at hraw
  · cases hraw
    rfl
  · cases hraw

theorem length_of_reads_checkHeader {bytes : List UInt8} (h : Decode.Reads checkHeader bytes ()) :
    bytes.length = 8 := by
  have hoffset := offset_checkHeader (h [] 0)
  rwa [Nat.zero_add] at hoffset

theorem checkHeader_eq_ok {bin : List UInt8} {c : Cursor} {u : Unit}
    (h : checkHeader { rest := bin } = .ok (u, c)) :
    c.rest = bin.drop 8 ∧ Decode.Reads checkHeader (bin.take 8) () := by
  obtain ⟨taken, hrest, hoffset, hread⟩ := local_checkHeader h
  have hlen : taken.length = 8 := by
    rw [offset_checkHeader h, Nat.zero_add] at hoffset
    exact hoffset.symm
  rw [show bin = taken ++ c.rest from hrest, List.drop_left' hlen, List.take_left' hlen]
  exact ⟨rfl, hread⟩

namespace RawSection

/-- What is read is a section that can be read again, and what stands after it. -/
theorem readable_of_read {bytes rest : List UInt8} {s : RawSection}
    (h : read bytes = .ok (s, rest)) : s.Readable ∧ bytes = s.raw ++ rest := by
  obtain ⟨⟨id, c₁⟩, hid, h⟩ := Except.bind_eq_ok h
  obtain ⟨⟨size, c₂⟩, hsize, h⟩ := Except.bind_eq_ok h
  obtain ⟨⟨body, c₃⟩, hbody, h⟩ := Except.bind_eq_ok h
  obtain ⟨l₁, h₁, o₁, r₁⟩ := Decode.local_byte hid
  obtain ⟨l₂, h₂, o₂, r₂⟩ := Decode.local_u32 hsize
  obtain ⟨l₃, h₃, o₃, r₃⟩ := Decode.local_take _ hbody
  dsimp only at h₁ o₁ h₂ o₂ h₃ o₃ h
  have hbytes : bytes = (l₁ ++ l₂ ++ l₃) ++ c₃.rest := by
    rw [h₁, h₂, h₃, List.append_assoc, List.append_assoc]
  have hoffset : c₃.offset = (l₁ ++ l₂ ++ l₃).length := by
    rw [o₃, o₂, o₁, List.length_append, List.length_append, Nat.zero_add]
  have hpos : 1 ≤ l₁.length := by
    cases l₁ with
    | nil => cases r₁ [] 0
    | cons b l₁ => simp
  have hmax : max 1 (l₁ ++ l₂ ++ l₃).length = (l₁ ++ l₂ ++ l₃).length := by
    simp only [List.length_append]
    omega
  have hlen : 0 + l₁.length + l₂.length + l₃.length = (l₁ ++ l₂ ++ l₃).length := by
    simp only [List.length_append, Nat.zero_add]
  cases h
  rw [hoffset, hmax, hbytes, List.take_left, List.drop_left]
  refine ⟨fun rest => ?_, rfl⟩
  have hread : read ((l₁ ++ l₂ ++ l₃) ++ rest) =
      .ok ({ id, body, raw := ((l₁ ++ l₂ ++ l₃) ++ rest).take (l₁ ++ l₂ ++ l₃).length },
        ((l₁ ++ l₂ ++ l₃) ++ rest).drop (max 1 (l₁ ++ l₂ ++ l₃).length)) := by
    rw [← hlen, List.append_assoc, List.append_assoc]
    simp only [read, r₁ (l₂ ++ (l₃ ++ rest)) 0, r₂ (l₃ ++ rest), r₃ rest, bind, Except.bind, pure,
      Except.pure]
  rw [hread, hmax, List.take_left, List.drop_left]

end RawSection

/-- To go through the sections of bytes is to go through a list of sections that make them up. -/
theorem foldSections_eq_ok {σ : Type} {step : σ → RawSection → Except Fault σ} {s t : σ}
    {bytes : List UInt8} : foldSections step s bytes = .ok t ↔ ∃ ss : List RawSection,
      (∀ r ∈ ss, r.Readable) ∧ bytes = ss.flatMap (·.raw) ∧ ss.foldlM step s = .ok t := by
  constructor
  · intro h
    induction hn : bytes.length using Nat.strong_induction_on generalizing bytes s with
    | _ n ih =>
      cases hread : RawSection.read bytes with
      | error e =>
        have hempty : bytes.isEmpty := by
          by_contra hne
          rw [foldSections, if_neg hne] at h
          split at h
          · cases h
          · rename_i heq
            rw [hread] at heq
            cases heq
        rw [List.isEmpty_iff] at hempty
        subst hempty
        rw [foldSections_nil] at h
        exact ⟨[], nofun, rfl, h⟩
      | ok p =>
        obtain ⟨r, rest⟩ := p
        rw [foldSections_of_read step s hread] at h
        obtain ⟨s', hstep, h⟩ := Except.bind_eq_ok h
        obtain ⟨hr, hbytes⟩ := RawSection.readable_of_read hread
        obtain ⟨ss, hss, hrest, hfold⟩ := ih _ (hn ▸ RawSection.length_read hread) h rfl
        refine ⟨r :: ss, List.forall_mem_cons.mpr ⟨hr, hss⟩, ?_, ?_⟩
        · rw [hbytes, hrest, List.flatMap_cons]
        · rw [List.foldlM_cons, hstep]
          exact hfold
  · rintro ⟨ss, hss, rfl, h⟩
    rw [foldSections_readable step s hss, h]

/-- To check the header of a binary and go through what follows is to go through a list of sections
that make it up. -/
theorem checkHeader_foldSections_eq_ok {σ : Type} {step : σ → RawSection → Except Fault σ} {s t : σ}
    {bin : List UInt8} :
    (do let ((), c) ← checkHeader { rest := bin }; foldSections step s c.rest) = .ok t ↔
      Decode.Reads checkHeader (bin.take 8) () ∧ ∃ ss : List RawSection,
        (∀ r ∈ ss, r.Readable) ∧ bin.drop 8 = ss.flatMap (·.raw) ∧ ss.foldlM step s = .ok t := by
  constructor
  · intro h
    obtain ⟨⟨⟨⟩, c⟩, hheader, h⟩ := Except.bind_eq_ok h
    obtain ⟨hrest, hreads⟩ := checkHeader_eq_ok hheader
    exact ⟨hreads, hrest ▸ foldSections_eq_ok.mp h⟩
  · rintro ⟨hreads, h⟩
    have hheader := hreads (bin.drop 8) 0
    rw [List.take_append_drop] at hheader
    rw [hheader]
    exact foldSections_eq_ok.mpr h

/-- The sections of a binary. -/
def sections (bin : List UInt8) : Except Fault (List RawSection) := do
  let ((), c) ← checkHeader { rest := bin }
  foldSections (fun ss s => .ok (ss ++ [s])) [] c.rest

theorem foldlM_collect (ss before : List RawSection) :
    ss.foldlM (fun ss s => (.ok (ss ++ [s]) : Except Fault (List RawSection))) before =
      .ok (before ++ ss) := by
  induction ss generalizing before with
  | nil => rw [List.append_nil]; rfl
  | cons s ss ih =>
    rw [List.foldlM_cons]
    show List.foldlM _ _ _ = _
    rw [ih, List.append_assoc, List.singleton_append]

/-- A binary is a header of eight bytes and its sections. -/
theorem sections_eq_ok {bin : List UInt8} {ss : List RawSection} : sections bin = .ok ss ↔
    Decode.Reads checkHeader (bin.take 8) () ∧ (∀ s ∈ ss, s.Readable) ∧
      bin.drop 8 = ss.flatMap (·.raw) := by
  refine checkHeader_foldSections_eq_ok.trans (and_congr_right fun _ => ?_)
  constructor
  · rintro ⟨ss', hss, hbytes, hfold⟩
    rw [foldlM_collect] at hfold
    cases hfold
    exact ⟨hss, hbytes⟩
  · rintro ⟨hss, hbytes⟩
    exact ⟨ss, hss, hbytes, foldlM_collect ss []⟩

/-- What goes through the sections after the header goes through the sections of the binary. -/
theorem foldSections_eq_ok_iff_sections {σ : Type} {step : σ → RawSection → Except Fault σ} {s t : σ}
    {bin : List UInt8} :
    (do let ((), c) ← checkHeader { rest := bin }; foldSections step s c.rest) = .ok t ↔
      ∃ ss, sections bin = .ok ss ∧ ss.foldlM step s = .ok t := by
  rw [checkHeader_foldSections_eq_ok]
  constructor
  · rintro ⟨hreads, ss, hss, hbytes, hfold⟩
    exact ⟨ss, sections_eq_ok.mpr ⟨hreads, hss, hbytes⟩, hfold⟩
  · rintro ⟨ss, hsections, hfold⟩
    obtain ⟨hreads, hss, hbytes⟩ := sections_eq_ok.mp hsections
    exact ⟨hreads, ss, hss, hbytes, hfold⟩

/-- The view of a binary is made from its sections. -/
theorem inspect_eq_ok {bin : List UInt8} {info : Info} : Info.inspect bin = .ok info ↔
    ∃ ss, sections bin = .ok ss ∧ ss.foldlM Info.addSection {} = .ok info :=
  foldSections_eq_ok_iff_sections

/-- The sections of a written module are those that were written. -/
theorem Module.sections_encode {m : Module} (hsize : m.encode.length < 0x100000000) :
    Binary.sections m.encode = .ok (m.sections.map RawSection.written) := by
  simp only [Binary.sections, encode_eq, checkHeader_append, bind, Except.bind]
  rw [foldSections_encode _ [] m.sections fun p hp => section_lt hsize hp]
  have hcollect := foldlM_collect (m.sections.map RawSection.written) []
  rwa [List.foldlM_map] at hcollect

end WasmLisp.Binary
