import Mathlib
import WasmLisp.Backend
import WasmLisp.Proofs.Codegen.Renaming
import WasmLisp.Proofs.Target

/-!
# What the key of a stored artifact stands for

* `Backend.fingerprint_inj`: the fingerprint of a backend names everything that a build depends on;
* `Backend.build_of_cacheKey`: units and backends that share a key have the same module and manifest,
  unless digests collide.
-/

namespace WasmLisp

/-! ## Fingerprints -/

theorem toList_append_colon (s t : String) :
    (s ++ ":" ++ t).toList = s.toList ++ ':' :: t.toList := by
  have hcolon : ":".toList = [':'] := String.toList_ofList
  rw [String.toList_append, String.toList_append, hcolon, List.append_assoc, List.singleton_append]

/-- Texts are cut at the last of a character alike. -/
theorem append_cons_inj {c : Char} {a a' n n' : List Char} (hn : c ∉ n) (hn' : c ∉ n')
    (h : a ++ c :: n = a' ++ c :: n') : a = a' ∧ n = n' := by
  rcases List.append_eq_append_iff.mp h with ⟨d, hd, hdn⟩ | ⟨d, hd, hdn⟩
  · cases d with
    | nil => simp_all
    | cons x d =>
      rw [List.cons_append, List.cons.injEq] at hdn
      exact absurd (hdn.2 ▸ by simp) hn
  · cases d with
    | nil => simp_all
    | cons x d =>
      rw [List.cons_append, List.cons.injEq] at hdn
      exact absurd (hdn.2 ▸ by simp) hn'

theorem notMem_toString {c : Char} (hc : c.isDigit = false) (n : Nat) : c ∉ (toString n).toList := by
  intro h
  rw [Nat.toString_eq_repr, Nat.toList_repr] at h
  have hdigit := Nat.isDigit_of_mem_toDigits (by decide) (by decide) h
  rw [hc] at hdigit
  cases hdigit

theorem toString_toList_inj {m n : Nat} (h : (toString m).toList = (toString n).toList) : m = n := by
  rw [Nat.toString_eq_repr, Nat.toString_eq_repr, Nat.toList_repr, Nat.toList_repr] at h
  rw [← Nat.ofDigitChars_toDigits (n := m) (by decide : 1 < 10) (by decide), h,
    Nat.ofDigitChars_toDigits (by decide) (by decide)]

namespace Backend

/-- The backend is one for the running machine or one that was configured for a target. -/
def Made (b : Backend) : Prop :=
  (∃ preamble maxDepth, b = host preamble maxDepth) ∨
    ∃ target preamble maxDepth, forTarget target preamble maxDepth = .ok b

theorem made_ofTarget {target : Target} {preamble : Preamble} {maxDepth : Int} {b : Backend}
    (h : ofTarget target preamble maxDepth = .ok b) : b.Made := by
  unfold ofTarget at h
  split at h
  · cases h
    exact .inl ⟨preamble, maxDepth, rfl⟩
  · exact .inr ⟨target, preamble, maxDepth, h⟩

/-- Every backend has the preamble that it is made with. -/
theorem preamble_ofTarget {target : Target} {preamble : Preamble} {maxDepth : Int} {b : Backend}
    (h : ofTarget target preamble maxDepth = .ok b) : b.preamble = preamble := by
  unfold ofTarget forTarget at h
  dsimp only at h
  split at h
  · cases h
    rfl
  · split at h
    · cases h
    · cases h
      rfl

theorem Made.validates {b : Backend} (h : b.Made) : b.validates = true := by
  rcases h with ⟨preamble, maxDepth, rfl⟩ | ⟨target, preamble, maxDepth, h⟩
  · rfl
  · unfold forTarget at h
    dsimp only at h
    split at h
    · cases h
    · cases h
      rfl

theorem Made.target_of_local {b : Backend} (h : b.Made) (hcross : b.cross = false) :
    b.target = .host := by
  rcases h with ⟨preamble, maxDepth, rfl⟩ | ⟨target, preamble, maxDepth, h⟩
  · rfl
  · unfold forTarget at h
    dsimp only at h
    split at h
    · cases h
    · cases h
      cases hcross

/-- A backend holds its target in normal form. -/
theorem Made.normalize_target {b : Backend} (h : b.Made) : b.target.normalize = b.target := by
  rcases h with ⟨preamble, maxDepth, rfl⟩ | ⟨target, preamble, maxDepth, h⟩
  · exact Target.normalize_host
  · unfold forTarget at h
    dsimp only at h
    split at h
    · cases h
    · cases h
      exact Target.normalize_normalize target

theorem Made.key_of_local {b : Backend} (h : b.Made) (hcross : b.cross = false) :
    b.target.key = "local-" ++ Target.hostArch := by
  rw [h.target_of_local hcross, Target.key_host]

/-- What the fingerprint starts with, whatever the backend. -/
def configuration (b : Backend) : List Char :=
  b.target.key.toList ++ ':' :: b.preamble.digest.toList ++ ':' :: (toString b.maxDepth).toList

theorem toList_fingerprint (b : Backend) : b.fingerprint.toList = b.configuration ++
    if b.cross then ':' :: (Digest.hexOfText b.target.describe).toList else [] := by
  rw [fingerprint, configuration]
  cases b.cross with
  | false =>
    rw [if_neg (by decide), if_neg (by decide), String.toList_append, toList_append_colon,
      toList_append_colon, String.toList_empty]
  | true =>
    rw [if_pos rfl, if_pos rfl, ← String.append_assoc, toList_append_colon, toList_append_colon,
      toList_append_colon]

/-- The configuration says all that a build depends on. -/
theorem configuration_inj {b b' : Backend} (h : b.configuration = b'.configuration) :
    b.target.key = b'.target.key ∧ b.preamble.digest = b'.preamble.digest ∧
      b.maxDepth = b'.maxDepth := by
  unfold configuration at h
  obtain ⟨hfirst, hdepth⟩ :=
    append_cons_inj (notMem_toString (by decide) _) (notMem_toString (by decide) _) h
  have hlen : (':' :: b.preamble.digest.toList).length = (':' :: b'.preamble.digest.toList).length := by
    rw [List.length_cons, List.length_cons, Preamble.digest, Preamble.digest,
      Digest.length_hexOfText, Digest.length_hexOfText]
  obtain ⟨hkey, hdigest⟩ := List.append_inj' hfirst hlen
  exact ⟨String.toList_inj.mp hkey, String.toList_inj.mp (List.cons.inj hdigest).2,
    toString_toList_inj hdepth⟩

/-- No fingerprint of a backend for another machine is one of a backend for the running machine: it has
one part more. -/
theorem fingerprint_ne_of_cross {b b' : Backend} (h : b.Made) (hcross : b.cross = false)
    (hcross' : b'.cross = true) : b.fingerprint ≠ b'.fingerprint := by
  intro heq
  have hlist := congrArg String.toList heq
  rw [toList_fingerprint, toList_fingerprint, hcross, hcross', if_neg (by decide), if_pos rfl,
    List.append_nil, configuration, configuration, h.key_of_local hcross] at hlist
  obtain ⟨hfirst, -⟩ := append_cons_inj (notMem_toString (by decide) _)
    (Digest.colon_notMem_hexOfText _) hlist
  obtain ⟨hkey, -⟩ := append_cons_inj (Digest.colon_notMem_hexOfText _)
    (notMem_toString (by decide) _) hfirst
  have hcolon : ':' ∈ ("local-" ++ Target.hostArch).toList := by
    rw [hkey]
    simp
  rw [String.toList_append] at hcolon
  exact absurd hcolon (by decide)

/-- Backends with the same fingerprint are of one kind. -/
theorem cross_eq_of_fingerprint {b b' : Backend} (h : b.Made) (h' : b'.Made)
    (heq : b.fingerprint = b'.fingerprint) : b.cross = b'.cross := by
  cases hc : b.cross with
  | false =>
    cases hc' : b'.cross with
    | false => rfl
    | true => exact absurd heq (fingerprint_ne_of_cross h hc hc')
  | true =>
    cases hc' : b'.cross with
    | false => exact absurd heq.symm (fingerprint_ne_of_cross h' hc' hc)
    | true => rfl

/-- The two parts of a fingerprint can be read off it. -/
theorem configuration_eq_of_fingerprint {b b' : Backend} (h : b.Made) (h' : b'.Made)
    (heq : b.fingerprint = b'.fingerprint) :
    b.configuration = b'.configuration ∧ (b.cross = true →
      Digest.hexOfText b.target.describe = Digest.hexOfText b'.target.describe) := by
  have hlist := congrArg String.toList heq
  rw [toList_fingerprint, toList_fingerprint, ← cross_eq_of_fingerprint h h' heq] at hlist
  cases hc : b.cross with
  | false => simpa [hc] using hlist
  | true =>
    rw [hc, if_pos rfl, if_pos rfl] at hlist
    obtain ⟨hconfiguration, hdigest⟩ := List.append_inj' hlist (by
      rw [List.length_cons, List.length_cons, Digest.length_hexOfText, Digest.length_hexOfText])
    exact ⟨hconfiguration, fun _ => String.toList_inj.mp (List.cons.inj hdigest).2⟩

/-- The fingerprint of a backend names everything that a build depends on. -/
theorem fingerprint_inj {b b' : Backend} (h : b.Made) (h' : b'.Made)
    (heq : b.fingerprint = b'.fingerprint) :
    b.target.key = b'.target.key ∧ b.preamble.digest = b'.preamble.digest ∧
      b.maxDepth = b'.maxDepth :=
  configuration_inj (configuration_eq_of_fingerprint h h' heq).1

/-! ## Builds -/

/-- The byte strings whose digests make up the key of a unit's artifact. -/
def hashed (b : Backend) (u : CompUnit) : Set (List UInt8) :=
  {u.outline.encode, (u.hash ++ "\x00" ++ b.fingerprint).toUTF8.toList,
    b.preamble.source.toUTF8.toList}

/-- The artifact of a generated module. -/
def artifactOf (b : Backend) (g : Codegen.Generated) : Artifact :=
  { manifest := some g.manifest, hash := g.manifest.hash, entrySymbol := g.manifest.entry
    bytes := g.module.encode, target := b.target }

theorem build_eq_ok {b : Backend} {u : CompUnit} {art : Artifact} :
    b.build u = .ok art ↔ ∃ fns g, b.preamble.load = .ok fns ∧
      Codegen.generate { u with target := b.target } fns b.maxDepth = .ok g ∧
      b.validates = true ∧ (Machine.Module.load? g.module.encode).isSome ∧ art = b.artifactOf g := by
  unfold build runtime buildWith
  constructor
  · intro h
    obtain ⟨fns, hfns, h⟩ := Except.bind_eq_ok h
    obtain ⟨g, hg, h⟩ := Except.bind_eq_ok h
    refine ⟨fns, g, ?_, hg, ?_⟩
    · cases hload : b.preamble.load with
      | error e =>
        rw [hload] at hfns
        cases hfns
      | ok fns' =>
        rw [hload] at hfns
        exact hfns
    · dsimp only at h
      split at h
      · cases h
      · rename_i hvalid
        cases h
        cases hv : b.validates <;> cases hl : Machine.Module.load? g.module.encode <;>
          simp [hv, hl, artifactOf] at hvalid ⊢
  · rintro ⟨fns, g, hfns, hg, hvalid, hload, rfl⟩
    have hcheck : (!b.validates || (Machine.Module.load? g.module.encode).isNone) = false := by
      rw [hvalid, Option.isNone_eq_false_iff.mpr hload]
      rfl
    rw [hfns]
    show Except.bind (Codegen.generate _ fns b.maxDepth) _ = _
    rw [hg]
    show (if (!b.validates || (Machine.Module.load? g.module.encode).isNone) = true then _ else _) = _
    rw [hcheck]
    rfl

/-- Units and backends that share a key have the same functions of the preamble, module and manifest,
unless digests collide. -/
theorem build_of_cacheKey {b b' : Backend} (h : b.Made) (h' : b'.Made) {u u' : CompUnit}
    {inputs : Set (List UInt8)} (hinputs : Digest.Apart inputs) (hu : b.hashed u ⊆ inputs)
    (hu' : b'.hashed u' ⊆ inputs) (hkey : b.cacheKey u.hash = b'.cacheKey u'.hash)
    {g : Codegen.Generated} {fns : List Defn} (hfns : b'.preamble.load = .ok fns)
    (hg : Codegen.generate { u' with target := b'.target } fns b'.maxDepth = .ok g) :
    b.preamble.load = .ok fns ∧
      Codegen.generate { u with target := b.target } fns b.maxDepth = .ok g := by
  have htext : u.hash ++ "\x00" ++ b.fingerprint = u'.hash ++ "\x00" ++ b'.fingerprint :=
    hinputs.eq_of_hexOfText (hu (by simp [hashed])) (hu' (by simp [hashed])) hkey
  have hlist := congrArg String.toList htext
  rw [String.toList_append, String.toList_append, String.toList_append, String.toList_append,
    List.append_assoc, List.append_assoc] at hlist
  -- the digest of a unit has a fixed length, so it can be cut off the text
  obtain ⟨hhash, hrest⟩ := List.append_inj hlist (by
    rw [CompUnit.hash, CompUnit.hash, Digest.length_hex64, Digest.length_hex64])
  obtain ⟨htarget, hdigest, hdepth⟩ :=
    fingerprint_inj h h' (String.toList_inj.mp (List.append_cancel_left hrest))
  have hsource : b.preamble.source = b'.preamble.source :=
    hinputs.eq_of_hexOfText (hu (by simp [hashed])) (hu' (by simp [hashed])) hdigest
  have houtline : u.outline.encode = u'.outline.encode :=
    hinputs.eq_of_hex64 (hu (by simp [hashed])) (hu' (by simp [hashed]))
      (String.toList_inj.mp hhash)
  constructor
  · rw [← hfns, Preamble.load, Preamble.load, hsource]
  · rw [← hg, hdepth]
    refine Codegen.generate_congr ?_ ?_ fns b'.maxDepth
    · exact htarget
    · exact CompUnit.outline_eq_of_encode (u := u) houtline

end Backend

end WasmLisp
