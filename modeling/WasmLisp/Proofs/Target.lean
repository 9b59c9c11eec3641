import Mathlib
import WasmLisp.Target
import WasmLisp.Proofs.Digest

/-!
# Targets and their keys

* `Target.normalize_host`, `Target.key_host`: the running machine;
* `Target.normalize_eq_of_key`: targets of one key differ in their spelling only, unless digests
  collide;
* `Target.normalize_eq_of_describe`: so do targets of one key and one description, whatever
  characters are in their texts.
-/

namespace WasmLisp

/-! ## Normal forms -/

theorem Target.arch_normalize (t : Target) : t.normalize.normalize.arch = t.normalize.arch := by
  by_cases h : t.arch = "" || t.arch = "native"
  · simp only [normalize, if_pos h]
    decide
  · simp only [normalize, if_neg h]

theorem Target.normalize_host : host.normalize = host := by
  simp [host, normalize, hostArch, sortTexts, dropRepeats]

theorem Target.key_host : host.key = "local-" ++ hostArch := by
  rw [key, isLocal, normalize_host, normalize_host]
  rfl

theorem dropRepeats_cons (a : String) (ss : List String) : ∃ ts, dropRepeats (a :: ss) = a :: ts := by
  induction ss generalizing a with
  | nil => exact ⟨[], rfl⟩
  | cons b ss ih =>
    rw [dropRepeats]
    split
    · rename_i hab
      rw [hab]
      exact ih b
    · exact ⟨_, rfl⟩

theorem dropRepeats_dropRepeats (ss : List String) : dropRepeats (dropRepeats ss) = dropRepeats ss := by
  fun_induction dropRepeats ss with
  | case1 | case2 => rfl
  | case3 a rest ih => exact ih
  | case4 a b rest hab ih =>
    obtain ⟨ts, hts⟩ := dropRepeats_cons b rest
    rw [hts] at ih ⊢
    rw [dropRepeats, if_neg hab, ih]

theorem dropRepeats_sublist (ss : List String) : (dropRepeats ss).Sublist ss := by
  fun_induction dropRepeats ss with
  | case1 | case2 => exact .refl _
  | case3 a rest ih => exact ih.cons a
  | case4 a b rest hab ih => exact ih.cons_cons a

theorem pairwise_sortTexts (ss : List String) : (sortTexts ss).Pairwise (· ≤ ·) := by
  have hsorted : (sortTexts ss).Pairwise fun a b => (!decide (b < a)) = true := by
    refine List.pairwise_mergeSort (fun a b c hab hbc => ?_) (fun a b => ?_) ss
    · simp only [Bool.not_eq_true', decide_eq_false_iff_not, not_lt] at hab hbc ⊢
      exact hab.trans hbc
    · simp only [Bool.or_eq_true, Bool.not_eq_true', decide_eq_false_iff_not, not_lt]
      exact le_total a b
  refine hsorted.imp fun h => ?_
  simpa only [Bool.not_eq_true', decide_eq_false_iff_not, not_lt] using h

theorem sortTexts_dropRepeats_sortTexts (ss : List String) :
    sortTexts (dropRepeats (sortTexts ss)) = dropRepeats (sortTexts ss) := by
  have hsorted := (pairwise_sortTexts ss).sublist (dropRepeats_sublist _)
  refine List.mergeSort_of_pairwise (hsorted.imp fun h => ?_)
  simpa only [Bool.not_eq_true', decide_eq_false_iff_not, not_lt] using h

/-! ## Joined lists -/

theorem intercalate_cons {α : Type} (c : α) (bs : List α) (bss : List (List α)) :
    [c].intercalate (bs :: bss) = bs ++ bss.flatMap (c :: ·) := by
  induction bss generalizing bs with
  | nil => simp
  | cons ds bss ih => simp [List.intercalate_cons_cons, ih ds]

/-- A separator begins what it stands before, so two of them have no beginning in common. -/
theorem eq_nil_of_flatMap_cons {α : Type} {c d : α} (hcd : c ≠ d) {xs : List (List α)}
    {e r t : List α} (hc : xs.flatMap (c :: ·) = e ++ r) (hd : xs.flatMap (d :: ·) = e ++ t) :
    e = [] := by
  cases e with
  | nil => rfl
  | cons z e =>
    cases xs with
    | nil => simp at hc
    | cons x xs =>
      simp only [List.flatMap_cons, List.cons_append, List.cons.injEq] at hc hd
      exact absurd (hc.1.trans hd.1.symm) hcd

/-- Lists that are the same when joined by one separator, and also when joined by another, are the
same. -/
theorem eq_of_flatMap_cons {α : Type} {c d : α} (hcd : c ≠ d) : ∀ {xs ys : List (List α)},
    xs.flatMap (c :: ·) = ys.flatMap (c :: ·) → xs.flatMap (d :: ·) = ys.flatMap (d :: ·) → xs = ys
  | [], [], _, _ => rfl
  | [], _ :: _, h, _ => by simp at h
  | _ :: _, [], h, _ => by simp at h
  | x :: xs, y :: ys, hc, hd => by
    simp only [List.flatMap_cons, List.cons_append, List.cons.injEq, true_and] at hc hd
    have hxy : x = y := by
      rcases List.append_eq_append_iff.mp hc with ⟨e, hy, he⟩ | ⟨e, hx, he⟩
      · rw [hy, List.append_assoc, List.append_cancel_left_eq] at hd
        rw [hy, eq_nil_of_flatMap_cons hcd he hd, List.append_nil]
      · rw [hx, List.append_assoc, List.append_cancel_left_eq] at hd
        rw [hx, eq_nil_of_flatMap_cons hcd he hd.symm, List.append_nil]
    subst hxy
    rw [eq_of_flatMap_cons hcd (List.append_cancel_left hc) (List.append_cancel_left hd)]

/-! ## Targets -/

namespace Target

/-- A normal form is its own normal form. -/
theorem normalize_normalize (t : Target) : t.normalize.normalize = t.normalize := by
  have harch := t.arch_normalize
  unfold normalize at harch ⊢
  simp only at harch ⊢
  rw [harch, sortTexts_dropRepeats_sortTexts, dropRepeats_dropRepeats]

/-- Nothing but the running machine is local. -/
theorem eq_host_of_isLocal {t : Target} (h : t.normalize.isLocal = true) : t.normalize = host := by
  rw [← normalize_normalize]
  simpa [isLocal] using h

/-! ## Keys -/

/-- The digest that the key of a target ends in. -/
def keyDigest (t : Target) : Nat := (Digest.sum64 t.keyBytes).toNat % 0x100000000

theorem toList_key_cross {t : Target} (h : t.normalize.isLocal = false) :
    t.key.toList = "cross-".toList ++ t.normalize.arch.toList ++ "-".toList ++
      Text.hexFixed 8 t.normalize.keyDigest := by
  have hlt : t.normalize.keyDigest < 16 ^ 8 := Nat.mod_lt _ (by decide)
  simp only [key, h, Bool.false_eq_true, if_false, String.toList_append]
  rw [← keyDigest, Text.toList_hexPadded (by decide) hlt]

theorem head?_key (t : Target) :
    t.key.toList.head? = some (if t.normalize.isLocal then 'l' else 'c') := by
  unfold key
  dsimp only
  split <;> simp only [String.toList_append] <;> rfl

/-- Local targets and others never share a key. -/
theorem isLocal_eq_of_key {t t' : Target} (h : t.key = t'.key) :
    t.normalize.isLocal = t'.normalize.isLocal := by
  have hheads := t.head?_key
  rw [h, t'.head?_key] at hheads
  cases hl : t.normalize.isLocal <;> cases hl' : t'.normalize.isLocal <;>
    simp [hl, hl'] at hheads ⊢

/-- A key says the architecture, and what the digest in it is. -/
theorem arch_keyDigest_of_key {t t' : Target} (h : t.key = t'.key) :
    t.normalize.arch = t'.normalize.arch ∧ t.normalize.keyDigest = t'.normalize.keyDigest := by
  have hlocal := isLocal_eq_of_key h
  cases hl : t.normalize.isLocal with
  | true =>
    rw [eq_host_of_isLocal hl, eq_host_of_isLocal (hlocal ▸ hl)]
    exact ⟨rfl, rfl⟩
  | false =>
    have htexts := toList_key_cross hl
    rw [h, toList_key_cross (hlocal ▸ hl)] at htexts
    -- the digests have one length, so what stands before them is the same too
    obtain ⟨hfront, hback⟩ := List.append_inj' htexts (by simp only [Text.length_hexFixed])
    have harch := List.append_cancel_left (List.append_cancel_right hfront)
    have hdigest := Text.hexFixed_inj (Nat.mod_lt _ (by decide)) (Nat.mod_lt _ (by decide)) hback
    exact ⟨(String.toList_inj.mp harch).symm, hdigest.symm⟩

/-- The text whose bytes the key's digest is taken of. -/
def keyText (t : Target) : List Char :=
  t.sysroot.toList ++ (t.abiFlags.map String.toList).flatMap ('\x00' :: ·)

theorem keyBytes_eq_toUTF8 (t : Target) : t.keyBytes = (String.ofList t.keyText).toUTF8.toList := by
  have hzero : (String.ofList ['\x00']).toUTF8.toList = [0] := by
    rw [Text.toList_eq_data]
    decide
  have hflags : ∀ fs : List String, (fs.flatMap fun f => 0 :: f.toUTF8.toList) =
      (String.ofList ((fs.map String.toList).flatMap ('\x00' :: ·))).toUTF8.toList := by
    intro fs
    induction fs with
    | nil => simp [Text.toList_eq_data]
    | cons f fs ih =>
      have hcons : ((f :: fs).map String.toList).flatMap ('\x00' :: ·) =
          ['\x00'] ++ (f.toList ++ (fs.map String.toList).flatMap ('\x00' :: ·)) := by simp
      rw [List.flatMap_cons, ih, hcons, String.ofList_append, String.ofList_append,
        Text.toList_toUTF8_append, Text.toList_toUTF8_append, hzero, String.ofList_toList]
      rfl
  rw [keyBytes, keyText, hflags, String.ofList_append, Text.toList_toUTF8_append,
    String.ofList_toList]

theorem keyText_eq_of_keyBytes {t t' : Target} (h : t.keyBytes = t'.keyBytes) :
    t.keyText = t'.keyText := by
  rw [keyBytes_eq_toUTF8, keyBytes_eq_toUTF8] at h
  exact String.ofList_injective (Text.toUTF8_injective h)

/-- What a description says of a system root. -/
def sysrootText (sysroot : String) : List Char :=
  if sysroot = "" then [] else " sysroot=".toList ++ sysroot.toList

/-- What a description says of flags. -/
def flagsText (flags : List String) : List Char :=
  if flags.isEmpty then [] else " abi=".toList ++ [','].intercalate (flags.map String.toList)

theorem toList_describe (t : Target) : t.describe.toList =
    t.normalize.arch.toList ++ (sysrootText t.normalize.sysroot ++ flagsText t.normalize.abiFlags) := by
  have hcomma : ",".toList = [','] := String.toList_ofList
  unfold describe sysrootText flagsText
  dsimp only
  rw [String.toList_append, String.toList_append, List.append_assoc]
  congr 2
  · split
    · rfl
    · rw [String.toList_append]
  · split
    · rfl
    · rw [String.toList_append, String.toList_intercalate, hcomma]

theorem flagsText_cons (f : String) (fs : List String) : flagsText (f :: fs) =
    " abi=".toList ++ (f.toList ++ (fs.map String.toList).flatMap (',' :: ·)) := by
  rw [flagsText, List.isEmpty_cons, if_neg (by simp), List.map_cons, intercalate_cons]

/-- Flags are told from how they are joined in a key and in a description. -/
theorem flags_eq_of_texts {fs gs : List String}
    (hkey : (fs.map String.toList).flatMap ('\x00' :: ·) = (gs.map String.toList).flatMap ('\x00' :: ·))
    (htext : flagsText fs = flagsText gs) : fs = gs := by
  cases fs with
  | nil =>
    cases gs with
    | nil => rfl
    | cons g gs => simp at hkey
  | cons f fs =>
    cases gs with
    | nil => simp at hkey
    | cons g gs =>
      rw [flagsText_cons, flagsText_cons, List.append_cancel_left_eq] at htext
      refine List.map_injective_iff.mpr (fun _ _ => String.toList_inj.mp) ?_
      refine eq_of_flatMap_cons (show '\x00' ≠ ',' by decide) hkey ?_
      simpa using htext

/-- No description goes on after its system root as a key does. -/
theorem flagsText_ne_zero (fs : List String) (rest : List Char) : flagsText fs ≠ '\x00' :: rest := by
  cases fs with
  | nil => simp [flagsText]
  | cons f fs =>
    rw [flagsText_cons]
    intro h
    exact absurd (List.cons.inj h).1 (by decide)

/-- A system root that a key makes longer than it is has another description. -/
theorem eq_nil_of_texts {s s' : String} {e : List Char} {fs gs : List String}
    (hs : s'.toList = s.toList ++ e)
    (hkey : (fs.map String.toList).flatMap ('\x00' :: ·) =
      e ++ (gs.map String.toList).flatMap ('\x00' :: ·))
    (htext : sysrootText s ++ flagsText fs = sysrootText s' ++ flagsText gs) : e = [] := by
  cases e with
  | nil => rfl
  | cons c e =>
    have hc : c = '\x00' := by
      cases fs with
      | nil => simp at hkey
      | cons f fs => exact (List.cons.inj hkey).1.symm
    have hs' : s' ≠ "" := by
      rintro rfl
      simp at hs
    rw [sysrootText, sysrootText, if_neg hs', hs] at htext
    split at htext
    · -- without a system root the description goes on with the flags at once
      cases fs with
      | nil => simp at hkey
      | cons f fs =>
        rw [List.nil_append, flagsText_cons, List.append_assoc] at htext
        exact absurd (List.cons.inj (List.cons.inj htext).2).1 (by decide)
    · rw [List.append_assoc, List.append_assoc, List.append_assoc, List.append_cancel_left_eq,
        List.append_cancel_left_eq, hc] at htext
      exact absurd htext (flagsText_ne_zero fs _)

/-- System roots and flags are told from a key and a description together, whatever characters are
in them. -/
theorem eq_of_texts {s s' : String} {fs gs : List String}
    (hkey : s.toList ++ (fs.map String.toList).flatMap ('\x00' :: ·) =
      s'.toList ++ (gs.map String.toList).flatMap ('\x00' :: ·))
    (htext : sysrootText s ++ flagsText fs = sysrootText s' ++ flagsText gs) :
    s = s' ∧ fs = gs := by
  have hs : s.toList = s'.toList := by
    rcases List.append_eq_append_iff.mp hkey with ⟨e, hs, he⟩ | ⟨e, hs, he⟩
    · rw [hs, eq_nil_of_texts hs he htext, List.append_nil]
    · rw [hs, eq_nil_of_texts hs he htext.symm, List.append_nil]
  rw [hs, List.append_cancel_left_eq] at hkey
  obtain rfl := String.toList_inj.mp hs
  exact ⟨rfl, flags_eq_of_texts hkey (List.append_cancel_left htext)⟩

/-- Targets of one key and one description are the same but for how they are spelled, if the digests
in the keys are of the same bytes. -/
theorem normalize_eq_of_describe {t t' : Target} (hkey : t.key = t'.key)
    (hbytes : t.normalize.keyBytes = t'.normalize.keyBytes) (htext : t.describe = t'.describe) :
    t.normalize = t'.normalize := by
  have hchars := congrArg String.toList htext
  have harch := (arch_keyDigest_of_key hkey).1
  rw [toList_describe, toList_describe, harch, List.append_cancel_left_eq] at hchars
  obtain ⟨hsysroot, hflags⟩ := eq_of_texts (keyText_eq_of_keyBytes hbytes) hchars
  cases hn : t.normalize
  cases hn' : t'.normalize
  simp_all

end Target

end WasmLisp
