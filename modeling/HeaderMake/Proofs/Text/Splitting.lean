import HeaderMake.Proofs.Text.Cutting

/-!
# Splitting a text at every mark

`Text.pieces` cuts a text at every occurrence of a mark, taken from the left, and
`Text.replaceAll` puts something else in place of the mark.  Texts that were joined by a
mark are the pieces again if none of them runs into the mark behind it
(`Text.pieces_intercalate`).

A text can also be read from its end: `Text.dropEnding?` takes away a known ending, and
`Text.lastWord?` what follows the last blank.
-/

namespace HeaderMake
namespace Text

/-! ## Pieces -/

theorem length_lt_of_cutAt? {mark text before after : Text} (hmark : mark ≠ [])
    (h : cutAt? mark text = some (before, after)) :
    after.length < text.length := by
  have hlength := congrArg List.length (eq_append_of_cutAt? h)
  have hpos := List.length_pos_iff.mpr hmark
  simp only [List.length_append] at hlength
  omega

/-- The pieces of a text between the occurrences of a mark.  An empty mark occurs
nowhere. -/
def pieces (mark text : Text) : List Text :=
  if _hmark : mark = [] then [text]
  else
    match _hcut : cutAt? mark text with
    | none => [text]
    | some (before, after) => before :: pieces mark after
termination_by text.length
decreasing_by exact length_lt_of_cutAt? _hmark _hcut

theorem pieces_of_cutAt?_none {mark text : Text}
    (h : cutAt? mark text = none) : pieces mark text = [text] := by
  rw [pieces]
  split
  · rfl
  · split
    · rfl
    · next hcut =>
      rw [h] at hcut
      cases hcut

theorem pieces_of_cutAt? {mark text before after : Text} (hmark : mark ≠ [])
    (h : cutAt? mark text = some (before, after)) :
    pieces mark text = before :: pieces mark after := by
  rw [pieces, dif_neg hmark]
  split
  · next hcut =>
    rw [h] at hcut
    cases hcut
  · next hcut =>
    rw [h] at hcut
    cases hcut
    rfl

theorem cutAt?_eq_none_of_not_mem {mark text : Text} {c : Char}
    (hmark : c ∈ mark) (htext : c ∉ text) : cutAt? mark text = none := by
  cases hcut : cutAt? mark text with
  | none => rfl
  | some parts =>
      have hcontains : contains mark text = true := by
        rw [contains, hcut, Option.isSome_some]
      exact absurd (mem_of_contains hcontains hmark) htext

/-- An entry that does not hold the first character of a mark ends where the mark behind
it begins. -/
theorem cutAt?_append_mark {c : Char} {mark entry : Text} (h : c ∉ entry)
    (rest : Text) :
    cutAt? (c :: mark) (entry ++ (c :: mark ++ rest)) = some (entry, rest) := by
  induction entry with
  | nil => exact cutAt?_mark_append (c :: mark) rest
  | cons first entry ih =>
      rw [List.mem_cons, not_or] at h
      rw [List.cons_append, cutAt?_cons_of_none, ih h.2]
      · rfl
      · simp [dropLeading?, h.1]

/-- Entries that were joined by a mark are read back as the pieces, provided that the
first occurrence of the mark behind each of them is the mark that was put there. -/
theorem pieces_intercalate {mark : Text} (hmark : mark ≠ [])
    {entries : List Text} (hne : entries ≠ [])
    (h : ∀ entry ∈ entries, ∀ rest,
      cutAt? mark (entry ++ (mark ++ rest)) = some (entry, rest)) :
    pieces mark (List.intercalate mark entries) = entries := by
  induction entries with
  | nil => exact absurd rfl hne
  | cons entry entries ih =>
      obtain ⟨hentry, hentries⟩ := List.forall_mem_cons.mp h
      cases entries with
      | nil =>
          -- An occurrence in the last entry would be found before the mark behind it.
          have hlast : cutAt? mark entry = none := by
            cases hcut : cutAt? mark entry with
            | none => rfl
            | some parts =>
                have hfound := hentry []
                rw [cutAt?_append_of_cutAt? hcut] at hfound
                have hempty := congrArg Prod.snd (Option.some.inj hfound)
                simp [hmark] at hempty
          rw [List.intercalate_singleton, pieces_of_cutAt?_none hlast]
      | cons next others =>
          rw [List.intercalate_cons_cons, List.append_assoc,
            pieces_of_cutAt? hmark (hentry _),
            ih (List.cons_ne_nil _ _) hentries]

/-! ## Replacing -/

/-- The text with `replacement` in place of every occurrence of a mark. -/
def replaceAll (mark replacement text : Text) : Text :=
  List.intercalate replacement (pieces mark text)

theorem replaceAll_of_not_mem {mark text : Text} {c : Char} (hmark : c ∈ mark)
    (htext : c ∉ text) (replacement : Text) :
    replaceAll mark replacement text = text := by
  rw [replaceAll, pieces_of_cutAt?_none (cutAt?_eq_none_of_not_mem hmark htext),
    List.intercalate_singleton]

/-- Where the mark stands in front of a text without it, it alone is replaced. -/
theorem replaceAll_mark_append {mark text : Text} {c : Char} (hmark : c ∈ mark)
    (htext : c ∉ text) (replacement : Text) :
    replaceAll mark replacement (mark ++ text) = replacement ++ text := by
  rw [replaceAll,
    pieces_of_cutAt? (List.ne_nil_of_mem hmark) (cutAt?_mark_append mark text),
    pieces_of_cutAt?_none (cutAt?_eq_none_of_not_mem hmark htext),
    List.intercalate_cons_cons, List.nil_append, List.intercalate_singleton]

/-! ## Endings -/

/-- What stands before `ending` in a text that ends with it. -/
def dropEnding? (ending text : Text) : Option Text :=
  (dropLeading? ending.reverse text.reverse).map List.reverse

theorem dropEnding?_append (text ending : Text) :
    dropEnding? ending (text ++ ending) = some text := by
  have hdrop : dropLeading? ending.reverse (text ++ ending).reverse =
      some text.reverse :=
    dropLeading?_eq_some_iff.mpr (List.reverse_append ..)
  rw [dropEnding?, hdrop, Option.map_some, List.reverse_reverse]

/-- The text before the last blank, and the word that follows it. -/
def lastWord? (text : Text) : Option (Text × Text) :=
  (cutAt? [' '] text.reverse).map fun (word, start) =>
    (start.reverse, word.reverse)

theorem lastWord?_append {word : Text} (h : ' ' ∉ word) (text : Text) :
    lastWord? (text ++ ' ' :: word) = some (text, word) := by
  have hcut : cutAt? [' '] (text ++ ' ' :: word).reverse =
      some (word.reverse, text.reverse) := by
    rw [List.reverse_append, List.reverse_cons, List.append_assoc,
      List.singleton_append]
    exact cutAt?_singleton (by simpa using h) text.reverse
  simp only [lastWord?, hcut, Option.map_some, List.reverse_reverse]

end Text
end HeaderMake
