import HeaderMake.Proofs.Text.Occurrences

/-!
# Slices of encoded texts

A part of an encoded text can be cut out by the offsets of its first byte and of the byte
behind it.  `Utf8.slice?` refuses offsets that lie beyond the bytes or inside a
character.  It refuses nothing that is made up of whole texts
(`Utf8.slice?_encode_append`), and the first occurrence of an ASCII mark always is
(`Utf8.dropInfix?_encode`).
-/

namespace HeaderMake
namespace Utf8

/-- Whether bytes may be cut at an offset: at either end, and in front of every byte that
does not continue a character. -/
def isBoundary (bytes : Bytes) (offset : Nat) : Bool :=
  offset == 0 || offset == bytes.length ||
    bytes[offset]?.any fun byte => !isContinuation byte

/-- The bytes from the offset `start` up to the offset `stop`, if they may be cut at both
of them. -/
def slice? (bytes : Bytes) (start stop : Nat) : Option Bytes :=
  if start ≤ stop ∧ isBoundary bytes start ∧ isBoundary bytes stop then
    some ((bytes.take stop).drop start)
  else none

/-- The offset at which a mark first occurs in bytes. -/
def find? (mark bytes : Bytes) : Option Nat :=
  (bytes.dropInfix? mark).map fun (before, _) => before.length

/-! ## Boundaries -/

/-- The encoding of a character begins with a byte that continues no other one. -/
theorem exists_encodeChar_eq_cons (c : Char) :
    ∃ byte rest, String.utf8EncodeChar c = byte :: rest ∧
      isContinuation byte = false := by
  have hvalid : c.val.toNat.isValidChar := c.valid
  unfold String.utf8EncodeChar
  generalize c.val.toNat = value at hvalid
  unfold Nat.isValidChar at hvalid
  simp only [← Bool.not_eq_true, isContinuation_iff]
  -- Sequences of one to four bytes begin with bytes of different ranges.
  split_ifs
  all_goals exact ⟨_, _, rfl, by rw [toNat_byte _ (by omega)]; omega⟩

/-- Encoded texts may be cut wherever one of them ends. -/
theorem isBoundary_encode_append (text rest : Text) :
    isBoundary (encode text ++ encode rest) (encode text).length = true := by
  cases rest with
  | nil => simp [isBoundary, encode]
  | cons c rest =>
      obtain ⟨byte, others, hchar, hbyte⟩ := exists_encodeChar_eq_cons c
      simp [isBoundary, encode_cons, hchar, hbyte]

/-- What stands between two texts can be cut out. -/
theorem slice?_encode_append (before text after : Text) :
    slice? (encode (before ++ text ++ after)) (encode before).length
        ((encode before).length + (encode text).length) =
      some (encode text) := by
  have hstart : isBoundary (encode (before ++ text ++ after))
      (encode before).length = true := by
    rw [List.append_assoc, encode_append]
    exact isBoundary_encode_append before (text ++ after)
  have hstop : isBoundary (encode (before ++ text ++ after))
      ((encode before).length + (encode text).length) = true := by
    rw [← List.length_append, ← encode_append, encode_append _ after]
    exact isBoundary_encode_append (before ++ text) after
  rw [slice?, if_pos ⟨Nat.le_add_right _ _, hstart, hstop⟩, encode_append,
    encode_append, ← List.length_append, List.take_left, List.drop_left]

/-- What follows a text can be cut off. -/
theorem slice?_encode_append_length (before text : Text) :
    slice? (encode (before ++ text)) (encode before).length
        (encode (before ++ text)).length =
      some (encode text) := by
  have hslice := slice?_encode_append before text []
  rwa [List.append_nil, ← List.length_append, ← encode_append] at hslice

/-! ## First occurrences -/

/-- Encoding commutes with cutting at the first occurrence of an ASCII mark. -/
theorem dropInfix?_encode {mark : Text} (hmark : mark ≠ [])
    (hascii : mark.Ascii) (text : Text) :
    (encode text).dropInfix? (encode mark) =
      (text.dropInfix? mark).map fun (before, after) =>
        (encode before, encode after) := by
  cases hdrop : text.dropInfix? mark with
  | none =>
      rw [dropInfix?_eq_none_iff_not_occurs] at hdrop
      rw [Option.map_none, dropInfix?_eq_none_iff_not_occurs]
      rintro ⟨start, rest, heq⟩
      have htext := congrArg decodeLossy heq
      rw [decodeLossy_append_mark start hmark hascii, decodeLossy_encode]
        at htext
      exact hdrop ⟨_, _, htext⟩
  | some parts =>
      obtain ⟨before, after⟩ := parts
      obtain ⟨rfl, hfirst⟩ := dropInfix?_eq_some_iff_first.mp hdrop
      rw [Option.map_some, dropInfix?_eq_some_iff_first]
      refine ⟨by rw [encode_append, encode_append], ?_⟩
      intro start rest heq
      have htext := congrArg decodeLossy heq
      rw [decodeLossy_append_mark start hmark hascii, decodeLossy_encode]
        at htext
      have hle := hfirst _ _ htext
      by_contra hlt
      -- An earlier occurrence would put the mark into the text before the first one.
      obtain ⟨c, mark, rfl⟩ := List.exists_cons_of_ne_nil hmark
      have hc := hascii c List.mem_cons_self
      rw [encode_append, encode_append, List.append_assoc, List.append_assoc,
        List.append_eq_append_iff] at heq
      rcases heq with ⟨between, rfl, -⟩ | ⟨between, hbefore, hbetween⟩
      · exact hlt (by simp)
      · cases between with
        | nil => exact hlt (by rw [hbefore, List.append_nil])
        | cons byte between =>
            rw [encode_cons_of_ascii hc] at hbetween
            obtain ⟨rfl, -⟩ := List.cons.inj hbetween
            have hdecoded := congrArg decodeLossy hbefore
            rw [decodeLossy_encode, decodeLossy_append_ascii start hc]
              at hdecoded
            rw [hdecoded, List.length_append, List.length_cons] at hle
            omega

theorem find?_encode {mark : Text} (hmark : mark ≠ [])
    (hascii : mark.Ascii) (text : Text) :
    find? (encode mark) (encode text) =
      (Text.cutAt? mark text).map fun (before, _) =>
        (encode before).length := by
  rw [find?, dropInfix?_encode hmark hascii, Text.cutAt?_eq_dropInfix?,
    Option.map_map]
  rfl

end Utf8
end HeaderMake
