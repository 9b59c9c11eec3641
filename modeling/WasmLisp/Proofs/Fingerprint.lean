import Mathlib
import WasmLisp.Proofs.Backend

/-!
# Fingerprints tell configurations apart

Long texts enter a fingerprint as digests. Neither the bytes behind the digest in a target's key nor its
description determine a target, since separators may be part of its texts; together they do.

* `FingerprintParts`: what enters a fingerprint, before digests are taken;
* `Backend.fingerprints_apart`: the parts determine the configuration of a backend, and so does the
  fingerprint, unless digests collide.
-/

namespace WasmLisp

/-- What enters the fingerprint of a backend: the key of its target and the bytes behind the digest in
that key, the source of its preamble, its depth limit, and, for another machine, the description of the
target. -/
structure FingerprintParts where
  key : String
  keyBytes : List UInt8
  source : String
  maxDepth : String
  description : Option String
  deriving DecidableEq, Repr

/-- The parts as they stand in a fingerprint. -/
def FingerprintParts.text (p : FingerprintParts) : String :=
  p.key ++ ":" ++ Digest.hexOfText p.source ++ ":" ++ p.maxDepth
    ++ p.description.elim "" (":" ++ Digest.hexOfText ·)

namespace Backend

def fingerprintParts (b : Backend) : FingerprintParts :=
  { key := b.target.key
    keyBytes := b.target.normalize.keyBytes
    source := b.preamble.source
    maxDepth := toString b.maxDepth
    description := if b.cross then some b.target.describe else none }

theorem fingerprint_eq (b : Backend) : b.fingerprint = b.fingerprintParts.text := by
  unfold fingerprint FingerprintParts.text fingerprintParts
  cases b.cross <;> rfl

/-- The backends are of one kind, for one target in its normal form, with one preamble and one limit. -/
structure SameConfiguration (b b' : Backend) : Prop where
  cross : b.cross = b'.cross
  target : b.target = b'.target
  source : b.preamble.source = b'.preamble.source
  maxDepth : b.maxDepth = b'.maxDepth

/-- Something in which the backends differ has the same digest. -/
inductive Collide (b b' : Backend) : Prop where
  | keys (h : b.target.normalize.keyBytes ≠ b'.target.normalize.keyBytes)
    (hdigest : b.target.normalize.keyDigest = b'.target.normalize.keyDigest)
  | sources (h : b.preamble.source ≠ b'.preamble.source)
    (hdigest : Digest.sum64 b.preamble.source.toUTF8.toList =
      Digest.sum64 b'.preamble.source.toUTF8.toList)
  | descriptions (h : b.target.describe ≠ b'.target.describe)
    (hdigest : Digest.sum64 b.target.describe.toUTF8.toList =
      Digest.sum64 b'.target.describe.toUTF8.toList)

variable {b b' : Backend}

/-- The parts of a fingerprint determine the configuration. -/
theorem fingerprintParts_eq_iff (h : b.Made) (h' : b'.Made) :
    b.fingerprintParts = b'.fingerprintParts ↔ b.SameConfiguration b' := by
  constructor
  · intro heq
    simp only [fingerprintParts, FingerprintParts.mk.injEq] at heq
    obtain ⟨hkey, hbytes, hsource, hdepth, hdescription⟩ := heq
    have hcross : b.cross = b'.cross := by
      cases hc : b.cross <;> cases hc' : b'.cross <;> simp [hc, hc'] at hdescription ⊢
    refine ⟨hcross, ?_, hsource, toString_toList_inj (congrArg String.toList hdepth)⟩
    cases hc : b.cross with
    | false => rw [h.target_of_local hc, h'.target_of_local (hcross ▸ hc)]
    | true =>
      rw [← hcross, hc, if_pos rfl, if_pos rfl, Option.some.injEq] at hdescription
      rw [← h.normalize_target, ← h'.normalize_target]
      exact Target.normalize_eq_of_describe hkey hbytes hdescription
  · intro hsame
    unfold fingerprintParts
    rw [hsame.cross, hsame.target, hsame.source, hsame.maxDepth]

/-- A fingerprint determines the parts that enter it, unless digests collide. -/
theorem fingerprintParts_of_fingerprint (h : b.Made) (h' : b'.Made)
    (heq : b.fingerprint = b'.fingerprint) :
    b.fingerprintParts = b'.fingerprintParts ∨ b.Collide b' := by
  have hcross := cross_eq_of_fingerprint h h' heq
  obtain ⟨hkey, hdigest, hdepth⟩ := fingerprint_inj h h' heq
  by_cases hbytes : b.target.normalize.keyBytes = b'.target.normalize.keyBytes
  · by_cases hsource : b.preamble.source = b'.preamble.source
    · by_cases hdescribe : b.target.describe = b'.target.describe
      · left
        unfold fingerprintParts
        rw [hkey, hbytes, hsource, hdepth, hdescribe, hcross]
      · cases hc : b.cross with
        | false =>
          rw [h.target_of_local hc, h'.target_of_local (hcross ▸ hc)] at hdescribe
          exact absurd rfl hdescribe
        | true =>
          have hsum := (configuration_eq_of_fingerprint h h' heq).2 hc
          exact .inr (.descriptions hdescribe (Digest.sum64_eq_of_hex64 hsum))
    · exact .inr (.sources hsource (Digest.sum64_eq_of_hex64 hdigest))
  · exact .inr (.keys hbytes (Target.arch_keyDigest_of_key hkey).2)

/-- Backends of which the same enters the fingerprint are configured alike, and backends that are
configured differently have different fingerprints, unless digests collide. -/
theorem fingerprints_apart (h : b.Made) (h' : b'.Made) :
    (b.fingerprintParts = b'.fingerprintParts ↔ b.SameConfiguration b') ∧
      (b.fingerprint = b'.fingerprint → b.SameConfiguration b' ∨ b.Collide b') := by
  refine ⟨fingerprintParts_eq_iff h h', fun heq => ?_⟩
  exact (fingerprintParts_of_fingerprint h h' heq).imp_left (fingerprintParts_eq_iff h h').mp

/-- Two targets whose keys are made from the same bytes: a byte that parts the flags in the one is part
of the system root in the other. -/
def rootWithFlag : Target := { arch := "arm64", sysroot := "/opt\x00-mfpu" }

def rootAndFlag : Target := { arch := "arm64", sysroot := "/opt", abiFlags := ["-mfpu"] }

/-- A backend for a target, with an empty preamble. -/
def bare (t : Target) : Backend :=
  { target := t.normalize, preamble := ⟨""⟩, maxDepth := 16, cross := true }

theorem made_bare (t : Target) : (bare t).Made := by
  have hload : (⟨""⟩ : Preamble).load = .ok [] := by cbv
  refine .inr ⟨t, ⟨""⟩, 16, ?_⟩
  unfold forTarget
  dsimp only
  rw [hload]
  rfl

/-- The keys of the two targets are the same, but not what enters the fingerprints. -/
theorem fingerprints_apart_rootAndFlag :
    (bare rootWithFlag).Made ∧ (bare rootAndFlag).Made ∧ rootWithFlag.key = rootAndFlag.key ∧
      (bare rootWithFlag).fingerprintParts ≠ (bare rootAndFlag).fingerprintParts ∧
      (bare rootWithFlag).fingerprint ≠ (bare rootAndFlag).fingerprint := by
  have happart := fingerprints_apart (made_bare rootWithFlag) (made_bare rootAndFlag)
  have htargets : (bare rootWithFlag).target ≠ (bare rootAndFlag).target := by decide +kernel
  refine ⟨made_bare _, made_bare _, by decide +kernel, fun heq => ?_, fun heq => ?_⟩
  · exact htargets (happart.1.mp heq).target
  · rcases happart.2 heq with hsame | ⟨hbytes, -⟩ | ⟨hsource, -⟩ | ⟨-, hdigest⟩
    · exact htargets hsame.target
    · exact hbytes (by decide +kernel)
    · exact hsource rfl
    · revert hdigest
      decide +kernel

end Backend

end WasmLisp
