import Mathlib
import WasmLisp.Digest
import WasmLisp.Proofs.Text

/-!
# Digests as texts

* `Digest.sum64_eq_of_hex64`: a digest can be read off its text;
* `Digest.Apart`: byte strings of which no two have the same digest, so that texts of digests tell
  them apart (`Digest.Apart.eq_of_hex64`).
-/

namespace WasmLisp

namespace Text

/-- A number is written with as many digits as are asked for. -/
theorem length_hexFixed (width n : Nat) : (hexFixed width n).length = width := by
  induction width generalizing n with
  | zero => rfl
  | succ w ih => simp [hexFixed, ih]

/-- Different digits are written differently. -/
theorem hexDigit_inj {m n : Nat} (hm : m < 16) (hn : n < 16) (h : hexDigit m = hexDigit n) :
    m = n := by
  have hall : ∀ m < 16, ∀ n < 16, hexDigit m = hexDigit n → m = n := by decide
  exact hall m hm n hn h

/-- Numbers that fit the width are told apart by their digits. -/
theorem hexFixed_inj {width m n : Nat} (hm : m < 16 ^ width) (hn : n < 16 ^ width)
    (h : hexFixed width m = hexFixed width n) : m = n := by
  induction width generalizing m n with
  | zero =>
    rw [pow_zero] at hm hn
    omega
  | succ w ih =>
    rw [pow_succ] at hm hn
    rw [hexFixed, hexFixed] at h
    obtain ⟨hhigh, hlow⟩ := List.append_inj' h rfl
    have h₁ := ih (by omega) (by omega) hhigh
    have h₂ := hexDigit_inj (by omega) (by omega) (List.cons.inj hlow).1
    omega

/-- A number below a power of sixteen needs no more digits than the exponent says. -/
theorem hexWidth_le {width n : Nat} (hw : 0 < width) (h : n < 16 ^ width) : hexWidth n ≤ width := by
  induction width generalizing n with
  | zero => omega
  | succ w ih =>
    rw [hexWidth]
    split
    · omega
    · rename_i hn
      cases w with
      | zero => omega
      | succ w =>
        rw [pow_succ] at h
        have := ih (n := n / 16) (by omega) (by omega)
        omega

/-- Padding a number that fits the width gives its digits, without a sign or a prefix. -/
theorem toList_hexPadded {width n : Nat} (hw : 0 < width) (h : n < 16 ^ width) :
    (hexPadded width n).toList = hexFixed width n := by
  rw [hexPadded, Nat.max_eq_left (hexWidth_le hw h), String.toList_ofList]

/-- A character that is no digit does not occur in the digits of a number. -/
theorem notMem_hexFixed {c : Char} (hc : ∀ n < 16, hexDigit n ≠ c) (width n : Nat) :
    c ∉ hexFixed width n := by
  induction width generalizing n with
  | zero => exact List.not_mem_nil
  | succ w ih =>
    rw [hexFixed, List.mem_append, List.mem_singleton, not_or]
    exact ⟨ih _, (hc _ (Nat.mod_lt _ (by decide))).symm⟩

theorem colon_notMem_hexFixed (width n : Nat) : ':' ∉ hexFixed width n :=
  notMem_hexFixed (by decide) width n

/-- Padded numbers can be parts of names and paths: they have no slash. -/
theorem slash_notMem_hexPadded (width n : Nat) : '/' ∉ (hexPadded width n).toList := by
  rw [hexPadded, String.toList_ofList]
  exact notMem_hexFixed (by decide) _ n

end Text

namespace Digest

/-- The text of a digest is its sixteen digits. -/
theorem toList_hex64 (bytes : List UInt8) :
    (hex64 bytes).toList = Text.hexFixed 16 (sum64 bytes).toNat :=
  Text.toList_hexPadded (by decide) (sum64 bytes).toNat_lt

/-- The text of a digest can be a field of a record whose fields end with a colon. -/
theorem colon_notMem_hexOfText (s : String) : ':' ∉ (hexOfText s).toList := by
  rw [hexOfText, toList_hex64]
  exact Text.colon_notMem_hexFixed 16 _

/-- All texts of digests have the same length. -/
theorem length_hex64 (bytes : List UInt8) : (hex64 bytes).toList.length = 16 := by
  rw [toList_hex64, Text.length_hexFixed]

theorem length_hexOfText (s : String) : (hexOfText s).toList.length = 16 := length_hex64 _

/-- A digest can be read off its text. -/
theorem sum64_eq_of_hex64 {xs ys : List UInt8} (h : hex64 xs = hex64 ys) : sum64 xs = sum64 ys := by
  have hlist := congrArg String.toList h
  rw [toList_hex64, toList_hex64] at hlist
  exact UInt64.toNat_inj.mp (Text.hexFixed_inj (sum64 xs).toNat_lt (sum64 ys).toNat_lt hlist)

/-- No two of the byte strings have the same digest. -/
def Apart (inputs : Set (List UInt8)) : Prop := inputs.InjOn sum64

/-- Inputs are apart if their digests, computed one by one, are different. -/
theorem apart_of_nodup {inputs : List (List UInt8)} (h : (inputs.map sum64).Nodup) :
    Apart {xs | xs ∈ inputs} :=
  fun _ hx _ hy heq => List.inj_on_of_nodup_map h hx hy heq

/-- Inputs that are apart are known by the texts of their digests. -/
theorem Apart.eq_of_hex64 {inputs : Set (List UInt8)} (h : Apart inputs) {xs ys : List UInt8}
    (hx : xs ∈ inputs) (hy : ys ∈ inputs) (heq : hex64 xs = hex64 ys) : xs = ys :=
  h hx hy (sum64_eq_of_hex64 heq)

/-- So are texts, by those of their encodings. -/
theorem Apart.eq_of_hexOfText {inputs : Set (List UInt8)} (h : Apart inputs) {s t : String}
    (hs : s.toUTF8.toList ∈ inputs) (ht : t.toUTF8.toList ∈ inputs)
    (heq : hexOfText s = hexOfText t) : s = t :=
  Text.toUTF8_injective (h.eq_of_hex64 hs ht heq)

end Digest

end WasmLisp
