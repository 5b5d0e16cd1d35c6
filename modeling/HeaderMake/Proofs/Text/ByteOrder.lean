import HeaderMake.Proofs.Text.Decoding
import HeaderMake.Proofs.Text.Order

/-!
# The order of encoded texts

Texts are sorted character by character, while a system orders names byte by byte.  The
two orders agree (`Text.encode_lt_of_le`): of two characters, the greater one is encoded
with a greater first byte, or with as many bytes that are greater where they first
differ.
-/

namespace HeaderMake
namespace Utf8

theorem cons_byte_lt_cons_iff {value other : Nat} {rest rest' : Bytes}
    (h : value < 256) (h' : other < 256) :
    UInt8.ofNat value :: rest < UInt8.ofNat other :: rest' ↔
      value < other ∨ value = other ∧ rest < rest' := by
  rw [List.cons_lt_cons_iff, UInt8.lt_iff_toNat_lt, ← UInt8.toNat_inj,
    toNat_byte value h, toNat_byte other h']

/-- The bytes of a smaller character come before those of a greater one, whatever
follows. -/
theorem encodeChar_append_lt {c d : Char} (h : c.toNat < d.toNat)
    (rest rest' : Bytes) :
    String.utf8EncodeChar c ++ rest < String.utf8EncodeChar d ++ rest' := by
  have hvalid : d.val.toNat.isValidChar := d.valid
  unfold Nat.isValidChar at hvalid
  unfold Char.toNat at h
  unfold String.utf8EncodeChar
  generalize c.val.toNat = value at h
  generalize d.val.toNat = other at h hvalid
  dsimp only
  have hlead : value / 262144 % 8 = value / 262144 :=
    Nat.mod_eq_of_lt (by omega)
  have hlead' : other / 262144 % 8 = other / 262144 :=
    Nat.mod_eq_of_lt (by omega)
  have hle : value / 262144 ≤ other / 262144 := Nat.div_le_div_right (Nat.le_of_lt h)
  -- Of the sixteen pairs of byte numbers, six contradict `h`.
  split_ifs
  all_goals
    simp (disch := omega) only [List.cons_append, List.nil_append,
      cons_byte_lt_cons_iff, hlead, hlead']
    omega

end Utf8

/-- A text comes strictly before another one if its bytes do. -/
theorem Text.encode_lt_of_le {left right : Text} (h : Text.le left right = true)
    (hne : left ≠ right) : Utf8.encode left < Utf8.encode right := by
  induction left generalizing right with
  | nil =>
      cases right with
      | nil => exact absurd rfl hne
      | cons d right =>
          rw [Utf8.encode_cons]
          cases hbytes : String.utf8EncodeChar d with
          | nil => exact absurd hbytes (String.utf8EncodeChar_ne_nil)
          | cons byte bytes => exact List.nil_lt_cons _ _
  | cons c left ih =>
      cases right with
      | nil => cases h
      | cons d right =>
          rw [Utf8.encode_cons, Utf8.encode_cons]
          rcases Text.le_cons_cons_iff.mp h with hlt | ⟨rfl, hle⟩
          · exact Utf8.encodeChar_append_lt hlt _ _
          · exact List.append_left_lt (ih hle fun heq => hne (heq ▸ rfl))

end HeaderMake
