import HeaderMake.Proofs.Text.Cutting
import HeaderMake.Proofs.Text.Decoding
import Mathlib.Data.List.Infix
import Mathlib.Data.Nat.Find

/-!
# Occurrences of ASCII marks

A mark of ASCII characters occurs in a decoded text exactly where its bytes occur in the
bytes (`Utf8.exists_of_decodeLossy_eq_append_mark`), however broken the sequences around
it are.  The first occurrence in the text is therefore the decoded first occurrence in
the bytes (`Utf8.dropInfix?_decodeLossy`).

First occurrences are those of `List.dropInfix?`, which knows nothing of texts;
`Text.cutAt?` finds the same ones.
-/

namespace HeaderMake

/-! ## First occurrences -/

section Lists

variable {α : Type} [BEq α] [LawfulBEq α] {mark whole before after : List α}

theorem dropInfix?_eq_some_iff_first :
    whole.dropInfix? mark = some (before, after) ↔
      whole = before ++ mark ++ after ∧
        ∀ before' after', whole = before' ++ mark ++ after' →
          before.length ≤ before'.length := by
  rw [List.dropInfix?_eq_some_iff]
  simp only [beq_iff_eq]
  constructor
  · rintro ⟨⟨_, heq, rfl⟩, hfirst⟩
    exact ⟨heq, fun before' after' h => hfirst before' _ after' h rfl⟩
  · rintro ⟨heq, hfirst⟩
    refine ⟨⟨mark, heq, rfl⟩, ?_⟩
    rintro before' _ after' h rfl
    exact hfirst before' after' h

theorem dropInfix?_eq_none_iff_not_occurs :
    whole.dropInfix? mark = none ↔ ¬mark <:+: whole := by
  classical
  constructor
  · intro hnone hinfix
    -- Of all the places where the mark occurs, one is the first.
    have hplaces : ∃ n, ∃ before after,
        whole = before ++ mark ++ after ∧ before.length = n := by
      obtain ⟨before, after, heq⟩ := hinfix
      exact ⟨before.length, before, after, heq.symm, rfl⟩
    obtain ⟨before, after, heq, hlength⟩ := Nat.find_spec hplaces
    have hsome : whole.dropInfix? mark = some (before, after) := by
      rw [dropInfix?_eq_some_iff_first]
      refine ⟨heq, fun before' after' h => ?_⟩
      rw [hlength]
      exact Nat.find_min' hplaces ⟨before', after', h, rfl⟩
    rw [hnone] at hsome
    cases hsome
  · intro hinfix
    cases hdrop : whole.dropInfix? mark with
    | none => rfl
    | some parts =>
        have heq := (dropInfix?_eq_some_iff_first.mp hdrop).1
        exact absurd ⟨parts.1, parts.2, heq.symm⟩ hinfix

end Lists

namespace Text

variable {mark text before after : Text}

theorem cutAt?_eq_none_iff : cutAt? mark text = none ↔ ¬mark <:+: text := by
  induction text with
  | nil =>
      rw [cutAt?, Option.map_eq_none_iff, dropLeading?_eq_none_iff,
        List.prefix_nil, List.infix_nil]
  | cons c text ih =>
      rw [List.infix_cons_iff, not_or, ← dropLeading?_eq_none_iff, ← ih]
      constructor
      · intro h
        have hdrop := dropLeading?_eq_none_of_cutAt? h
        rw [cutAt?_cons_of_none hdrop, Option.map_eq_none_iff] at h
        exact ⟨hdrop, h⟩
      · rintro ⟨hdrop, h⟩
        rw [cutAt?_cons_of_none hdrop, h, Option.map_none]

/-- No occurrence of the mark begins before the one at which a text is cut. -/
theorem length_le_of_cutAt? (h : cutAt? mark text = some (before, after))
    {before' after' : Text} (heq : text = before' ++ mark ++ after') :
    before.length ≤ before'.length := by
  induction text generalizing before before' after with
  | nil =>
      simp only [cutAt?, Option.map_eq_some_iff] at h
      obtain ⟨rest, -, hrest⟩ := h
      rw [← (Prod.mk.inj hrest).1]
      exact Nat.zero_le _
  | cons c text ih =>
      cases hdrop : dropLeading? mark (c :: text) with
      | some rest =>
          rw [cutAt?_of_dropLeading? hdrop] at h
          rw [← (Prod.mk.inj (Option.some.inj h)).1]
          exact Nat.zero_le _
      | none =>
          rw [cutAt?_cons_of_none hdrop] at h
          obtain ⟨⟨start, rest⟩, hcut, hparts⟩ := Option.map_eq_some_iff.mp h
          rw [← (Prod.mk.inj hparts).1]
          cases before' with
          | nil =>
              rw [dropLeading?_eq_none_iff, heq, List.nil_append] at hdrop
              exact absurd (List.prefix_append mark after') hdrop
          | cons first before' =>
              exact Nat.succ_le_succ (ih hcut (List.cons.inj heq).2)

/-- A mark occurs once in a text, between the two parts. -/
structure HoldsOnce (mark text before after : Text) : Prop where
  eq_append : text = before ++ mark ++ after
  eq_before : ∀ before' after',
    text = before' ++ mark ++ after' → before' = before

theorem HoldsOnce.cutAt?_eq (h : HoldsOnce mark text before after) :
    cutAt? mark text = some (before, after) := by
  cases hcut : cutAt? mark text with
  | none =>
      exact absurd ⟨before, after, h.eq_append.symm⟩
        (cutAt?_eq_none_iff.mp hcut)
  | some parts =>
      obtain ⟨before', after'⟩ := parts
      have heq := eq_append_of_cutAt? hcut
      obtain rfl := h.eq_before before' after' heq
      rw [List.append_cancel_left (heq.symm.trans h.eq_append)]

/-- The mark at which a text is cut occurs only there if it does not occur again behind
its own first character. -/
theorem holdsOnce_of_cutAt? {c : Char} {mark : Text}
    (hcut : cutAt? (c :: mark) text = some (before, after))
    (hagain : cutAt? (c :: mark) (mark ++ after) = none) :
    HoldsOnce (c :: mark) text before after := by
  have heq := eq_append_of_cutAt? hcut
  refine ⟨heq, fun before' after' heq' => ?_⟩
  have hfirst := length_le_of_cutAt? hcut heq'
  have hsame := heq.symm.trans heq'
  rw [List.append_assoc, List.append_assoc, List.append_eq_append_iff] at hsame
  rcases hsame with ⟨between, rfl, hbetween⟩ | ⟨between, rfl, -⟩
  · cases between with
    | nil => rw [List.append_nil]
    | cons d between =>
        have hlater : mark ++ after = between ++ c :: mark ++ after' := by
          rw [List.append_assoc]
          exact (List.cons.inj hbetween).2
        exact absurd ⟨between, after', hlater.symm⟩
          (cutAt?_eq_none_iff.mp hagain)
  · rw [List.length_append] at hfirst
    have hnil : between = [] := List.length_eq_zero_iff.mp (by omega)
    rw [hnil, List.append_nil]

/-- Texts are cut at the occurrences that the library finds in lists. -/
theorem cutAt?_eq_dropInfix? (mark text : Text) :
    cutAt? mark text = text.dropInfix? mark := by
  cases hcut : cutAt? mark text with
  | none =>
      rw [cutAt?_eq_none_iff] at hcut
      exact (dropInfix?_eq_none_iff_not_occurs.mpr hcut).symm
  | some parts =>
      refine (dropInfix?_eq_some_iff_first.mpr ⟨?_, ?_⟩).symm
      · exact eq_append_of_cutAt? hcut
      · intro before' after' heq
        exact length_le_of_cutAt? hcut heq

end Text

/-! ## Marks in decoded texts -/

/-- All characters of the text are ASCII. -/
def Text.Ascii (text : Text) : Prop :=
  ∀ c ∈ text, c.toNat < 0x80

instance (text : Text) : Decidable text.Ascii :=
  List.decidableBAll (fun c : Char => c.toNat < 0x80) text

namespace Utf8

theorem encode_cons_of_ascii {c : Char} (hascii : c.toNat < 0x80)
    (text : Text) :
    encode (c :: text) = UInt8.ofNat c.toNat :: encode text := by
  have hchar : String.utf8EncodeChar c = [UInt8.ofNat c.toNat] := by
    have hle : c.val.toNat ≤ 127 := Nat.le_of_lt_succ hascii
    rw [String.utf8EncodeChar]
    simp only [hle, if_true]
    rfl
  rw [encode_cons, hchar]
  rfl

theorem decodeLossy_append_mark (bytes : Bytes) {mark : Text}
    (hmark : mark ≠ []) (hascii : mark.Ascii) (rest : Bytes) :
    decodeLossy (bytes ++ encode mark ++ rest) =
      decodeLossy bytes ++ mark ++ decodeLossy rest := by
  obtain ⟨c, mark, rfl⟩ := List.exists_cons_of_ne_nil hmark
  have hc := hascii c List.mem_cons_self
  rw [encode_cons_of_ascii hc, List.append_assoc, List.cons_append,
    decodeLossy_append_ascii bytes hc, decodeLossy_encode_append,
    List.append_assoc, List.cons_append]

/-! ## From the text back to the bytes -/

theorem eq_nil_of_decodeLossy_eq_nil {bytes : Bytes}
    (h : decodeLossy bytes = []) : bytes = [] := by
  rw [decodeLossy, List.map_eq_nil_iff] at h
  fun_induction pieces bytes with
  | case1 => rfl
  | _ => cases h

/-- An ASCII character of a decoded text stands where its byte stands. -/
theorem exists_of_decodeLossy_eq_append_cons {c : Char}
    (hascii : c.toNat < 0x80) (bytes : Bytes) {before after : Text}
    (h : decodeLossy bytes = before ++ c :: after) :
    ∃ start rest, bytes = start ++ UInt8.ofNat c.toNat :: rest ∧
      decodeLossy start = before ∧ decodeLossy rest = after := by
  have hmem : UInt8.ofNat c.toNat ∈ bytes := by
    by_contra hnot
    apply not_mem_decodeLossy hascii hnot
    rw [h]
    exact List.mem_append_right _ List.mem_cons_self
  obtain ⟨first, rest, rfl, hfirst⟩ := List.eq_append_cons_of_mem hmem
  have hnot := not_mem_decodeLossy hascii hfirst
  rw [decodeLossy_append_ascii first hascii, List.append_eq_append_iff] at h
  rcases h with ⟨between, rfl, hrest⟩ | ⟨between, hstart, hrest⟩
  · cases between with
    | nil =>
        rw [List.nil_append] at hrest
        exact ⟨first, rest, rfl, (List.append_nil _).symm,
          (List.cons.inj hrest).2⟩
    | cons d between =>
        -- The byte at which the bytes were cut belongs to an earlier character.
        obtain ⟨rfl, hlater⟩ := List.cons.inj hrest
        obtain ⟨start, later, rfl, rfl, rfl⟩ :=
          exists_of_decodeLossy_eq_append_cons hascii rest hlater
        refine ⟨first ++ UInt8.ofNat c.toNat :: start, later, ?_, ?_, rfl⟩
        · rw [List.append_assoc, List.cons_append]
        · exact decodeLossy_append_ascii first hascii start
  · cases between with
    | nil =>
        rw [List.nil_append] at hrest
        rw [List.append_nil] at hstart
        exact ⟨first, rest, rfl, hstart, (List.cons.inj hrest).2.symm⟩
    | cons d between =>
        obtain ⟨rfl, -⟩ := List.cons.inj hrest
        rw [hstart] at hnot
        exact absurd (List.mem_append_right _ List.mem_cons_self) hnot
termination_by bytes.length
decreasing_by
  subst_vars
  simp
  omega

theorem exists_of_decodeLossy_eq_mark_append {mark : Text}
    (hascii : mark.Ascii) {bytes : Bytes} {after : Text}
    (h : decodeLossy bytes = mark ++ after) :
    ∃ rest, bytes = encode mark ++ rest ∧ decodeLossy rest = after := by
  induction mark generalizing bytes with
  | nil => exact ⟨bytes, rfl, h⟩
  | cons c mark ih =>
      obtain ⟨hc, hmark⟩ := List.forall_mem_cons.mp hascii
      have hempty : decodeLossy bytes = [] ++ c :: (mark ++ after) := h
      obtain ⟨start, rest, rfl, hstart, hrest⟩ :=
        exists_of_decodeLossy_eq_append_cons hc bytes hempty
      obtain ⟨later, rfl, hlater⟩ := ih hmark hrest
      rw [eq_nil_of_decodeLossy_eq_nil hstart, encode_cons_of_ascii hc]
      exact ⟨later, rfl, hlater⟩

/-- An occurrence of an ASCII mark in a decoded text is an occurrence of its bytes. -/
theorem exists_of_decodeLossy_eq_append_mark {mark : Text}
    (hmark : mark ≠ []) (hascii : mark.Ascii) {bytes : Bytes}
    {before after : Text}
    (h : decodeLossy bytes = before ++ mark ++ after) :
    ∃ start rest, bytes = start ++ encode mark ++ rest ∧
      decodeLossy start = before ∧ decodeLossy rest = after := by
  obtain ⟨c, mark, rfl⟩ := List.exists_cons_of_ne_nil hmark
  obtain ⟨hc, hmarks⟩ := List.forall_mem_cons.mp hascii
  rw [List.append_assoc, List.cons_append] at h
  obtain ⟨start, rest, rfl, hstart, hrest⟩ :=
    exists_of_decodeLossy_eq_append_cons hc bytes h
  obtain ⟨later, rfl, hlater⟩ :=
    exists_of_decodeLossy_eq_mark_append hmarks hrest
  refine ⟨start, later, ?_, hstart, hlater⟩
  rw [encode_cons_of_ascii hc, List.append_assoc, List.cons_append]

/-! ## First occurrences in decoded texts -/

/-- Of two occurrences of an ASCII mark in bytes, the earlier one has the shorter text
before it. -/
theorem length_decodeLossy_le {mark : Text} (hmark : mark ≠ [])
    (hascii : mark.Ascii) {start rest start' rest' : Bytes}
    (heq : start ++ encode mark ++ rest = start' ++ encode mark ++ rest')
    (hle : start.length ≤ start'.length) :
    (decodeLossy start).length ≤ (decodeLossy start').length := by
  obtain ⟨c, mark, rfl⟩ := List.exists_cons_of_ne_nil hmark
  have hc := hascii c List.mem_cons_self
  rw [List.append_assoc, List.append_assoc, List.append_eq_append_iff] at heq
  rcases heq with ⟨between, rfl, hbetween⟩ | ⟨between, rfl, hbetween⟩
  · cases between with
    | nil => rw [List.append_nil]
    | cons byte between =>
        rw [encode_cons_of_ascii hc] at hbetween
        obtain ⟨rfl, -⟩ := List.cons.inj hbetween
        rw [decodeLossy_append_ascii start hc, List.length_append]
        exact Nat.le_add_right _ _
  · rw [List.length_append] at hle
    have hnil : between = [] := List.length_eq_zero_iff.mp (by omega)
    rw [hnil, List.append_nil]

/-- Decoding commutes with cutting at the first occurrence of an ASCII mark. -/
theorem dropInfix?_decodeLossy {mark : Text} (hmark : mark ≠ [])
    (hascii : mark.Ascii) (bytes : Bytes) :
    (decodeLossy bytes).dropInfix? mark =
      (bytes.dropInfix? (encode mark)).map fun (before, after) =>
        (decodeLossy before, decodeLossy after) := by
  cases hdrop : bytes.dropInfix? (encode mark) with
  | none =>
      rw [dropInfix?_eq_none_iff_not_occurs] at hdrop
      rw [Option.map_none, dropInfix?_eq_none_iff_not_occurs]
      rintro ⟨before, after, heq⟩
      obtain ⟨start, rest, rfl, -, -⟩ :=
        exists_of_decodeLossy_eq_append_mark hmark hascii heq.symm
      exact hdrop ⟨start, rest, rfl⟩
  | some parts =>
      obtain ⟨rfl, hfirst⟩ := dropInfix?_eq_some_iff_first.mp hdrop
      rw [Option.map_some, dropInfix?_eq_some_iff_first]
      refine ⟨decodeLossy_append_mark _ hmark hascii _, ?_⟩
      intro before' after' heq
      obtain ⟨start, rest, hbytes, rfl, -⟩ :=
        exists_of_decodeLossy_eq_append_mark hmark hascii heq
      exact length_decodeLossy_le hmark hascii hbytes
        (hfirst start rest hbytes)

end Utf8
end HeaderMake
