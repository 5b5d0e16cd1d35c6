import HeaderMake.Path
import Mathlib.Data.List.Infix

/-!
# Cutting a text at a mark

Where the first occurrence of a mark is, when the text is made up of parts about which
this is known: a mark in the first part is found there, and a character that the mark
does not hold keeps occurrences from reaching across it.

Directories of paths are cut in the same way, at the last slash.
-/

namespace HeaderMake

/-! ## The first occurrence of a mark -/

namespace Text

theorem cutAt?_of_dropLeading? {mark text rest : Text}
    (h : dropLeading? mark text = some rest) :
    cutAt? mark text = some ([], rest) := by
  cases text with
  | nil => rw [cutAt?, h, Option.map_some]
  | cons c text => simp only [cutAt?, h]

theorem cutAt?_mark_append (mark rest : Text) :
    cutAt? mark (mark ++ rest) = some ([], rest) :=
  cutAt?_of_dropLeading? (dropLeading?_eq_some_iff.mpr rfl)

theorem cutAt?_cons_of_none {mark text : Text} {c : Char}
    (h : dropLeading? mark (c :: text) = none) :
    cutAt? mark (c :: text) =
      (cutAt? mark text).map fun (before, after) => (c :: before, after) := by
  simp only [cutAt?, h]

theorem dropLeading?_eq_none_iff {mark text : Text} :
    dropLeading? mark text = none ↔ ¬mark <+: text := by
  rw [Option.eq_none_iff_forall_ne_some]
  constructor
  · rintro hnone ⟨rest, rfl⟩
    exact hnone rest (dropLeading?_eq_some_iff.mpr rfl)
  · intro hbegins rest hdrop
    exact hbegins ⟨rest, (dropLeading?_eq_some_iff.mp hdrop).symm⟩

theorem dropLeading?_eq_none_of_cutAt? {mark text : Text}
    (h : cutAt? mark text = none) : dropLeading? mark text = none := by
  cases hdrop : dropLeading? mark text with
  | none => rfl
  | some rest => rw [cutAt?_of_dropLeading? hdrop] at h; cases h

/-- An occurrence of the mark stays the first one, whatever follows it. -/
theorem cutAt?_append_of_cutAt? {mark text before after : Text}
    (h : cutAt? mark text = some (before, after)) (rest : Text) :
    cutAt? mark (text ++ rest) = some (before, after ++ rest) := by
  induction text generalizing before with
  | nil =>
      simp only [cutAt?, Option.map_eq_some_iff] at h
      obtain ⟨left, hleft, heq⟩ := h
      obtain ⟨rfl, rfl⟩ := Prod.mk.inj heq
      apply cutAt?_of_dropLeading?
      rw [dropLeading?_eq_some_iff] at hleft ⊢
      rw [hleft, List.append_assoc]
  | cons c text ih =>
      cases hdrop : dropLeading? mark (c :: text) with
      | some left =>
          rw [cutAt?_of_dropLeading? hdrop] at h
          obtain ⟨rfl, rfl⟩ := Prod.mk.inj (Option.some.inj h)
          apply cutAt?_of_dropLeading?
          rw [dropLeading?_eq_some_iff] at hdrop ⊢
          rw [hdrop, List.append_assoc]
      | none =>
          rw [cutAt?_cons_of_none hdrop] at h
          obtain ⟨⟨before', after'⟩, hcut, heq⟩ := Option.map_eq_some_iff.mp h
          obtain ⟨rfl, rfl⟩ := Prod.mk.inj heq
          -- The mark is no longer than the text, so it cannot reach beyond it.
          have hrest : dropLeading? mark (c :: (text ++ rest)) = none := by
            rw [dropLeading?_eq_none_iff] at hdrop ⊢
            intro hbegins
            have hlength := congrArg List.length (eq_append_of_cutAt? hcut)
            simp only [List.length_append] at hlength
            exact hdrop (List.prefix_of_prefix_length_le hbegins
              (List.prefix_append _ _)
              (by rw [List.length_cons]; omega))
          rw [List.cons_append, cutAt?_cons_of_none hrest, ih hcut]
          rfl

theorem prefix_of_prefix_append_cons {mark text rest : Text} {c : Char}
    (hmark : c ∉ mark) (h : mark <+: text ++ c :: rest) : mark <+: text := by
  have hupto : text ++ [c] <+: text ++ c :: rest := ⟨rest, by simp⟩
  rcases List.prefix_or_prefix_of_prefix h hupto with hle | hge
  · rcases List.prefix_concat_iff.mp hle with heq | hle
    · rw [heq] at hmark
      simp at hmark
    · exact hle
  · exact absurd (hge.subset (by simp)) hmark

/-- No occurrence of a mark reaches across a character that the mark does not hold. -/
theorem cutAt?_append_cons_of_not_mem {mark text : Text} {c : Char}
    (hmark : c ∉ mark) (h : cutAt? mark text = none) (rest : Text) :
    cutAt? mark (text ++ c :: rest) =
      (cutAt? mark rest).map fun (before, after) =>
        (text ++ c :: before, after) := by
  induction text with
  | nil =>
      have hempty : mark ≠ [] := by
        rintro rfl
        cases h
      rw [List.nil_append, cutAt?_cons_of_none]
      · rfl
      · rw [dropLeading?_eq_none_iff]
        intro hbegins
        obtain ⟨first, mark, rfl⟩ := List.exists_cons_of_ne_nil hempty
        rw [List.cons_prefix_cons] at hbegins
        exact hmark (hbegins.1 ▸ List.mem_cons_self)
  | cons first text ih =>
      have hdrop := dropLeading?_eq_none_of_cutAt? h
      rw [cutAt?_cons_of_none hdrop, Option.map_eq_none_iff] at h
      have hrest : dropLeading? mark (first :: (text ++ c :: rest)) = none := by
        rw [dropLeading?_eq_none_iff] at hdrop ⊢
        intro hbegins
        exact hdrop (prefix_of_prefix_append_cons hmark hbegins)
      rw [List.cons_append, cutAt?_cons_of_none hrest, ih h, Option.map_map]
      rfl

theorem cutAt?_singleton {c : Char} {before : Text} (h : c ∉ before)
    (after : Text) :
    cutAt? [c] (before ++ c :: after) = some (before, after) := by
  induction before with
  | nil => exact cutAt?_mark_append [c] after
  | cons first before ih =>
      rw [List.mem_cons, not_or] at h
      rw [List.cons_append, cutAt?_cons_of_none, ih h.2]
      · rfl
      · simp [dropLeading?, h.1]

/-- A text holds every character of the marks that it contains. -/
theorem mem_of_contains {mark text : Text} (h : contains mark text = true)
    {c : Char} (hc : c ∈ mark) : c ∈ text := by
  obtain ⟨⟨before, after⟩, hcut⟩ := Option.isSome_iff_exists.mp h
  rw [eq_append_of_cutAt? hcut]
  exact List.mem_append_left _ (List.mem_append_right _ hc)

end Text

/-! ## Directories -/

namespace Path

theorem directory_prefix_self (path : Path) : path.directory <+: path :=
  ⟨path.fileName, directory_append_fileName path⟩

/-- A name without slash behind a path leaves its directory as it is. -/
theorem directory_append {name : Text} (h : '/' ∉ name) (path : Path) :
    (path ++ name).directory = path.directory := by
  rw [directory, directory, List.reverse_append,
    List.dropWhile_append_of_pos]
  intro c hc
  have hne : c ≠ '/' := by
    rintro rfl
    exact h (List.mem_reverse.mp hc)
  simpa using hne

theorem directory_eq_nil {name : Text} (h : '/' ∉ name) :
    Path.directory name = [] :=
  directory_append h []

theorem directory_eq_nil_or (path : Path) :
    path.directory = [] ∨ ∃ start, path.directory = start ++ ['/'] := by
  cases hdropped : path.reverse.dropWhile (· != '/') with
  | nil => exact .inl (by rw [directory, hdropped, List.reverse_nil])
  | cons c rest =>
      have hslash := List.head?_dropWhile_not (· != '/') path.reverse
      rw [hdropped] at hslash
      have hc : c = '/' := by simpa using hslash
      subst hc
      exact .inr ⟨rest.reverse, by
        rw [directory, hdropped, List.reverse_cons]⟩

end Path
end HeaderMake
