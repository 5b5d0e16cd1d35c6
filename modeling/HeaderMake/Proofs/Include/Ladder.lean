import HeaderMake.Proofs.Include.LineOrder
import HeaderMake.Proofs.Include.Spelling
import HeaderMake.Workspace

/-!
# A ladder of includes

From the directory of a path an include line reaches everything, unless the directory
holds a `/../`: then the path is cut off behind the first of these, whatever the line
says.  The ladder is a file with two lines that stands under every path.  Its first line
climbs to the next rung, with one `/../` less in the directory, and its second line leads
to the top from a directory that holds none.  So a walk that comes to any rung comes to
the top (`top_mem_visitedFrom`).
-/

namespace HeaderMake

/-! ## The files of the ladder -/

/-- The file that stands on every rung. -/
def ladder (spare : Char) (height : Nat) : Bytes :=
  twoIncludes (List.replicate height spare)
    (detour spare (List.replicate height spare))

/-- The view in which a source has some content, some paths are missing, and the ladder
stands under all other paths that are not too long. -/
def ladderView (spare : Char) (height bound : Nat) (missing : List Path)
    (source : Path) (content : Bytes) : SourceView where
  read path :=
    if path = source then some content
    else if path ∈ missing then none
    else if path.length ≤ bound then some (ladder spare height)
    else none
  finite := by
    obtain ⟨paths, hpaths⟩ := exists_list_of_length_le bound
    refine ⟨source :: paths, ?_⟩
    intro path hread
    by_cases hsource : path = source
    · exact hsource ▸ List.mem_cons_self
    · by_cases hlength : path.length ≤ bound
      · exact List.mem_cons_of_mem _ (hpaths path hlength)
      · simp [hsource, hlength] at hread

theorem reordered_ladderView {content other : Bytes}
    (h : SameLines content other) (spare : Char) (height bound : Nat)
    (missing : List Path) (source : Path) :
    (ladderView spare height bound missing source content).Reordered
      (ladderView spare height bound missing source other) := by
  intro path
  by_cases hsource : path = source
  · simpa [ladderView, hsource] using Option.Rel.some h
  · simp only [ladderView, if_neg hsource]
    split
    · exact .none
    · split
      · exact .some (List.Perm.refl _)
      · exact .none

/-! ## Climbing -/

section Climb

variable {layout : Layout} {spare : Char} {height bound : Nat}
  {missing : List Path} {source : Path} {content : Bytes}

theorem includedPaths_ladder (hordinary : Ordinary spare)
    (path : Path) :
    includedPaths path (ladder spare height) =
      [Path.collapseParent
          (path.directory ++ List.replicate height spare),
        Path.collapseParent
          (path.directory ++ detour spare (List.replicate height spare))] := by
  have htop := hordinary.spellable_replicate height
  rw [includedPaths, ladder, includePayloads_twoIncludes htop
    (hordinary.spellable_detour htop)]
  rfl

/-- A path that the walk reads from the ladder, and from which the next rung is not too
long a path. -/
structure Rung (layout : Layout) (spare : Char) (height bound : Nat)
    (missing : List Path) (source path : Path) : Prop where
  ne_source : path ≠ source
  not_mem_missing : path ∉ missing
  ne_bootstrap : path ≠ layout.bootstrapHeader
  length_le : path.length ≤ bound
  next_length_le : path.directory.length + height ≤ bound
  not_mem_directory : spare ∉ path.directory

theorem Rung.read {path : Path}
    (h : Rung layout spare height bound missing source path) :
    (ladderView spare height bound missing source content).read path =
      some (ladder spare height) := by
  simp [ladderView, h.ne_source, h.not_mem_missing, h.length_le]

/-- A path with as many spare characters as the ladder is high is a rung, when no other
path of the view has so many. -/
theorem rung_append_replicate
    (hordinary : Ordinary spare)
    (hclear : ∀ path : Path, path.count spare = height →
      path ≠ source ∧ path ∉ missing ∧ path ≠ layout.bootstrapHeader)
    {rest : Path} (hrest : spare ∉ rest)
    (hlength : rest.length + height ≤ bound) :
    Rung layout spare height bound missing source
      (rest ++ List.replicate height spare) := by
  have hcount :
      (rest ++ List.replicate height spare).count spare = height := by
    rw [List.count_append, List.count_replicate_self,
      List.count_eq_zero_of_not_mem hrest, Nat.zero_add]
  obtain ⟨hsource, hmissing, hbootstrap⟩ := hclear _ hcount
  have hdirectory := Path.directory_append
    (hordinary.slash_not_mem_replicate height) rest
  have hle := (Path.directory_prefix_self rest).length_le
  refine ⟨hsource, hmissing, hbootstrap, ?_, ?_, ?_⟩
  · simpa using hlength
  · rw [hdirectory]
    omega
  · rw [hdirectory]
    exact fun hmem => hrest ((Path.directory_prefix_self rest).subset hmem)

/-- A walk that comes to a rung comes to the top of the ladder. -/
theorem top_mem_visitedFrom
    (hordinary : Ordinary spare)
    (hclear : ∀ path : Path, path.count spare = height →
      path ≠ source ∧ path ∉ missing ∧ path ≠ layout.bootstrapHeader)
    {file path : Path}
    (hrung : Rung layout spare height bound missing source path)
    (hvisited : path ∈ visitedFrom layout
      (ladderView spare height bound missing source content) file) :
    List.replicate height spare ∈ visitedFrom layout
      (ladderView spare height bound missing source content) file := by
  have hlookup :=
    (mem_visitedFrom_iff.mp hvisited).resolve_left hrung.ne_bootstrap
  have hincluded := included_mem_visitedAfter layout _ _ _ hrung.read hlookup
  rw [includedPaths_ladder hordinary] at hincluded
  cases hcut : Text.cutAt? "/../".toList path.directory with
  | none =>
      -- The second line leads to the top.
      rw [hordinary.collapseParent_detour hcut] at hincluded
      exact hincluded _ (by simp)
  | some parts =>
      -- The first line leads to the next rung, which has a shorter directory.
      obtain ⟨before, rest⟩ := parts
      have hnext : Path.collapseParent
          (path.directory ++ List.replicate height spare) =
            rest ++ List.replicate height spare := by
        rw [Path.collapseParent, Text.cutAt?_append_of_cutAt? hcut]
      rw [hnext] at hincluded
      have hparts := Text.eq_append_of_cutAt? hcut
      have hlength := congrArg List.length hparts
      simp only [List.length_append] at hlength
      have hparent : "/../".toList.length = 4 := by decide
      have hbound := hrung.next_length_le
      have hrest : spare ∉ rest := by
        have hspare := hrung.not_mem_directory
        rw [hparts] at hspare
        exact fun hmem => hspare (List.mem_append_right _ hmem)
      have hshorter :
          (Path.directory (rest ++ List.replicate height spare)).length <
            path.directory.length := by
        rw [Path.directory_append (hordinary.slash_not_mem_replicate height)]
        have hle := (Path.directory_prefix_self rest).length_le
        omega
      exact top_mem_visitedFrom hordinary hclear
        (rung_append_replicate hordinary hclear hrest (by omega))
        (hincluded _ List.mem_cons_self)
termination_by path.directory.length
decreasing_by
  exact hshorter

end Climb

end HeaderMake
