import KeyedReflection.Text.Basic
import Mathlib.Data.String.Basic

/-!
# The order of bytes

Keys are compared character by character.  A reader of the UTF-8 form compares byte by byte, and finds
the same order (`utf8_lt_utf8_iff`): the first byte of a character tells how many follow, and it grows
with that number.
-/

namespace KeyedReflection
namespace Text

/-- A smaller character has the smaller bytes, whatever comes behind. -/
theorem utf8EncodeChar_append_lt {left right : Char} (before : left < right) (rest other : List UInt8) :
    String.utf8EncodeChar left ++ rest < String.utf8EncodeChar right ++ other := by
  have smaller : left.val.toNat < right.val.toNat := before
  have bound : right.val.toNat < 0x110000 := by
    rcases right.valid with low | ⟨-, high⟩
    · exact Nat.lt_trans low (by decide)
    · exact high
  unfold String.utf8EncodeChar
  dsimp only
  generalize left.val.toNat = m at *
  generalize right.val.toNat = n at *
  split_ifs <;>
    simp (disch := omega) only [List.cons_append, List.nil_append, List.cons_lt_cons_iff,
      UInt8.lt_iff_toNat_lt, ← UInt8.toNat_inj, UInt8.toNat_ofNat', Nat.mod_eq_of_lt] <;>
    omega

theorem utf8EncodeChar_ne_nil (c : Char) : String.utf8EncodeChar c ≠ [] := by
  unfold String.utf8EncodeChar
  dsimp only
  split_ifs <;> simp

private theorem utf8_lt_of_lt {left right : String} (before : left < right) :
    utf8 left < utf8 right := by
  have first := String.lt_iff_toList_lt.mp before
  unfold utf8
  generalize left.toList = cs, right.toList = ds at first
  induction first with
  | @nil d ds =>
      rcases List.exists_cons_of_ne_nil (utf8EncodeChar_ne_nil d) with ⟨byte, bytes, encoded⟩
      rw [List.flatMap_cons, encoded]
      exact .nil
  | rel smaller => exact utf8EncodeChar_append_lt smaller _ _
  | cons _ ih => exact List.append_left_lt ih

/-- The bytes of texts are in the order of the texts. -/
theorem utf8_lt_utf8_iff {left right : String} : utf8 left < utf8 right ↔ left < right := by
  constructor
  · intro bytes
    by_contra notBefore
    rcases lt_or_eq_of_le (String.not_lt.mp notBefore) with after | same
    · exact List.lt_asymm bytes (utf8_lt_of_lt after)
    · rw [same] at bytes
      exact List.lt_irrefl _ bytes
  · exact utf8_lt_of_lt

/-- Texts with the same bytes are the same. -/
theorem utf8_injective {left right : String} (same : utf8 left = utf8 right) : left = right := by
  rcases lt_trichotomy left right with before | equal | after
  · exact absurd (utf8_lt_utf8_iff.mpr before) (same ▸ List.lt_irrefl _)
  · exact equal
  · exact absurd (utf8_lt_utf8_iff.mpr after) (same ▸ List.lt_irrefl _)

end Text
end KeyedReflection
