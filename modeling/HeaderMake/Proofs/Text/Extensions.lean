import HeaderMake.Proofs.Text.Cutting
import Mathlib.Data.List.TakeWhile

/-!
# Extensions of paths

A path ends in an extension if the last dot of its file name has something before it.
`Path.splitExtension` finds the extension where there is one
(`Path.splitExtension_eq_of_endsInExtension`) and keeps the path where there is none
(`Path.stem_eq_self`).
-/

namespace HeaderMake
namespace Path

/-- A name without slash behind a path stands at the end of its file name. -/
theorem fileName_append {name : Text} (h : '/' ∉ name) (path : Path) :
    (path ++ name).fileName = path.fileName ++ name := by
  rw [fileName, fileName, List.reverse_append, List.takeWhile_append_of_pos,
    List.reverse_append, List.reverse_reverse]
  intro c hc
  have hne : c ≠ '/' := by
    rintro rfl
    exact h (List.mem_reverse.mp hc)
  simpa using hne

theorem fileName_eq_self {name : Text} (h : '/' ∉ name) :
    Path.fileName name = name :=
  fileName_append h []

theorem slash_not_mem_fileName (path : Path) : '/' ∉ path.fileName := by
  intro h
  have htaken := List.mem_takeWhile_imp (List.mem_reverse.mp h)
  simp at htaken

/-- The path is `base` with an extension, and more than the extension stands in the file
name. -/
structure EndsInExtension (path base : Path) (extension : Text) : Prop where
  path_eq : path = base ++ '.' :: extension
  dot_not_mem : '.' ∉ extension
  slash_not_mem : '/' ∉ extension
  fileName_ne_nil : base.fileName ≠ []

/-- The last component of the path has an extension. -/
def HasExtension (path : Path) : Prop :=
  ∃ base extension, path.EndsInExtension base extension

variable {path base : Path} {extension : Text}

theorem splitExtension_eq_of_endsInExtension
    (h : path.EndsInExtension base extension) :
    path.splitExtension = (base, '.' :: extension) := by
  obtain ⟨rfl, hdot, hslash, hname⟩ := h
  have hending : '/' ∉ '.' :: extension := by
    rw [List.mem_cons, not_or]
    exact ⟨by decide, hslash⟩
  have hfile : (base ++ '.' :: extension).fileName.reverse =
      extension.reverse ++ '.' :: base.fileName.reverse := by
    rw [fileName_append hending, List.reverse_append, List.reverse_cons,
      List.append_assoc, List.singleton_append]
  have hkept : ∀ c ∈ extension.reverse, (c != '.') = true := by
    intro c hc
    have hne : c ≠ '.' := by
      rintro rfl
      exact hdot (List.mem_reverse.mp hc)
    simpa using hne
  have hdropped : (base ++ '.' :: extension).fileName.reverse.dropWhile
      (· != '.') = '.' :: base.fileName.reverse := by
    rw [hfile, List.dropWhile_append_of_pos hkept]
    rfl
  have htaken : (base ++ '.' :: extension).fileName.reverse.takeWhile
      (· != '.') = extension.reverse := by
    rw [hfile, List.takeWhile_append_of_pos hkept]
    exact List.append_nil _
  obtain ⟨last, start, hlast⟩ :=
    List.exists_cons_of_ne_nil (List.reverse_ne_nil_iff.mpr hname)
  have hbase : base.directory ++ (last :: start).reverse = base := by
    rw [← hlast, List.reverse_reverse, directory_append_fileName]
  rw [splitExtension, hdropped, htaken, hlast]
  simp only [List.reverse_reverse, directory_append hending, hbase]

theorem stem_eq_of_endsInExtension (h : path.EndsInExtension base extension) :
    path.stem = base :=
  congrArg Prod.fst (splitExtension_eq_of_endsInExtension h)

/-- A path without extension is its own stem. -/
theorem stem_eq_self (h : ¬path.HasExtension) : path.stem = path := by
  unfold stem splitExtension
  split
  · next c start hdropped =>
    -- What was dropped and what was taken make up a file name with an extension.
    refine absurd ⟨path.directory ++ (c :: start).reverse,
      (path.fileName.reverse.takeWhile (· != '.')).reverse, ?_, ?_, ?_, ?_⟩ h
    · have hname : path.fileName.reverse =
          path.fileName.reverse.takeWhile (· != '.') ++ '.' :: c :: start := by
        rw [← hdropped, List.takeWhile_append_dropWhile]
      have hfile := congrArg List.reverse hname
      rw [List.reverse_reverse, List.reverse_append, List.reverse_cons,
        List.append_assoc, List.singleton_append] at hfile
      rw [List.append_assoc, ← hfile, directory_append_fileName]
    · intro hdot
      have htaken := List.mem_takeWhile_imp (List.mem_reverse.mp hdot)
      simp at htaken
    · intro hslash
      have htaken := (List.takeWhile_prefix _).subset
        (List.mem_reverse.mp hslash)
      exact slash_not_mem_fileName path (List.mem_reverse.mp htaken)
    · have hstart : '/' ∉ (c :: start).reverse := by
        intro hslash
        apply slash_not_mem_fileName path
        have hrest := (List.dropWhile_suffix (· != '.')).subset
          (hdropped ▸ List.mem_cons_of_mem '.' (List.mem_reverse.mp hslash))
        exact List.mem_reverse.mp hrest
      rw [fileName_append hstart]
      simp
  · rfl

/-- The extension of a name is cut off in any directory alike. -/
theorem stem_append {directory name : Path} (hdirectory : directory.fileName = [])
    (hname : '/' ∉ name) : (directory ++ name).stem = directory ++ name.stem := by
  have hself : directory.directory = directory := by
    have := directory.directory_append_fileName
    rwa [hdirectory, List.append_nil] at this
  have hbare : Path.directory name = [] := directory_eq_nil hname
  have hfile : Path.fileName name = name := fileName_eq_self hname
  rw [stem, stem, splitExtension, splitExtension, fileName_append hname,
    hdirectory, directory_append hname, hself, hbare, hfile, List.nil_append]
  split
  · rw [List.nil_append]
  · rfl

/-- The stem of a path stands in the same directory. -/
theorem directory_stem (path : Path) : path.stem.directory = path.directory := by
  by_cases h : path.HasExtension
  · obtain ⟨base, extension, hends⟩ := h
    rw [stem_eq_of_endsInExtension hends, hends.path_eq, directory_append]
    rw [List.mem_cons, not_or]
    exact ⟨by decide, hends.slash_not_mem⟩
  · rw [stem_eq_self h]

end Path
end HeaderMake
