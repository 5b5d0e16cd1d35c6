import HeaderMake.Path
import Mathlib.Data.List.Infix

/-!
# Segments of paths

The segments of a path hold no slash, and the path is its segments with a slash between
any two of them.  With a slash behind each segment they are the path with one slash more
(`flatMap_splitOn`), which is the form in which a directory stands before a name.
-/

namespace HeaderMake

variable {α : Type}

theorem map_eq_self {f : α → α} {list : List α} (h : ∀ x ∈ list, f x = x) :
    list.map f = list :=
  (List.map_congr_left h).trans (List.map_id list)

/-- A separator between any two parts is a separator behind each but the last ones. -/
theorem intercalate_append (separator : α) (parts : List (List α))
    {others : List (List α)} (hne : others ≠ []) :
    List.intercalate [separator] (parts ++ others) =
      parts.flatMap (· ++ [separator]) ++
        List.intercalate [separator] others := by
  induction parts with
  | nil => rfl
  | cons part parts ih =>
      rw [List.cons_append, List.intercalate_cons_of_ne_nil (by simp [hne]), ih,
        List.flatMap_cons]
      simp

/-- The parts of a list, each with a separator behind it, are the list with a separator
behind it. -/
theorem flatMap_splitOn [BEq α] [LawfulBEq α] (separator : α) (list : List α) :
    (list.splitOn separator).flatMap (· ++ [separator]) =
      list ++ [separator] := by
  have hempty := intercalate_append separator
    (list.splitOn separator) (List.cons_ne_nil ([] : List α) [])
  rw [List.intercalate_singleton, List.append_nil] at hempty
  rw [← hempty, ← List.splitOn_nil separator, ← List.splitOn_append_cons_self,
    List.intercalate_splitOn]

namespace Path

theorem slash_not_mem_segment {path : Path} {segment : Text}
    (h : segment ∈ path.splitOn '/') : '/' ∉ segment := by
  induction path generalizing segment with
  | nil =>
      rw [List.splitOn_nil, List.mem_singleton] at h
      rw [h]
      exact List.not_mem_nil
  | cons c path ih =>
      rw [List.splitOn_cons_eq_if_modifyHead] at h
      split at h
      · rcases List.mem_cons.mp h with rfl | h
        · exact List.not_mem_nil
        · exact ih h
      · next hslash =>
        cases hsegments : path.splitOn '/' with
        | nil => exact absurd hsegments (List.splitOn_ne_nil _ _)
        | cons first rest =>
            rw [hsegments, List.modifyHead_cons] at h
            rw [hsegments] at ih
            rcases List.mem_cons.mp h with rfl | h
            · have hfirst := ih List.mem_cons_self
              simp [hfirst, Ne.symm (by simpa using hslash)]
            · exact ih (List.mem_cons_of_mem _ h)

/-- The first segment of an absolute path is empty. -/
theorem isAbsolute_eq_false_of_splitOn {path : Path}
    (h : [] ∉ path.splitOn '/') : path.isAbsolute = false := by
  cases path with
  | nil => rfl
  | cons c rest =>
      by_cases hslash : c = '/'
      · rw [hslash, ← List.nil_append ('/' :: rest),
          List.splitOn_append_cons_self] at h
        simp at h
      · simpa [isAbsolute] using hslash

/-- The segments of what stands before a slash are segments of the path, and not the last
ones. -/
theorem splitOn_prefix_of_append {path rest : Path} {segments : List Text}
    {last : Text}
    (h : (path ++ '/' :: rest).splitOn '/' = segments ++ [last]) :
    path.splitOn '/' <+: segments := by
  obtain ⟨start, final, hrest⟩ := (List.eq_nil_or_concat'
    (List.splitOn '/' rest)).resolve_left (List.splitOn_ne_nil _ _)
  rw [List.splitOn_append_cons_self, hrest, ← List.append_assoc] at h
  exact ⟨start, (List.append_inj' h rfl).1⟩

/-- Whole segments with a slash behind each are the first segments of a path. -/
theorem splitOn_flatMap_append {segments : List Text}
    (h : ∀ segment ∈ segments, '/' ∉ segment) (rest : Path) :
    (segments.flatMap (· ++ ['/']) ++ rest).splitOn '/' =
      segments ++ rest.splitOn '/' := by
  have hjoin := intercalate_append '/' segments (List.splitOn_ne_nil '/' rest)
  rw [List.intercalate_splitOn] at hjoin
  rw [← hjoin]
  apply List.splitOn_intercalate
  · exact List.forall_mem_append.mpr ⟨h, fun _ => slash_not_mem_segment⟩
  · simp [List.splitOn_ne_nil]

theorem fileName_flatMap (segments : List Text) :
    fileName (segments.flatMap (· ++ ['/'])) = [] := by
  rcases List.eq_nil_or_concat' segments with rfl | ⟨start, last, rfl⟩
  · rfl
  · simp [fileName]

end Path
end HeaderMake
