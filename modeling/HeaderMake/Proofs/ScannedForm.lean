import HeaderMake.Listing
import HeaderMake.Proofs.Text.Extensions
import HeaderMake.Proofs.Tree.Collected

/-!
# The form of scanned paths

The path of a scanned file begins with the scanned form of a relative directory text, in
which every segment names something and has a slash behind it, whatever the spelling of
the text (`Path.scannedForm`).  Behind it stand the names that lead down from the
directory (`Tree.LiesBelow`).

The directory text itself begins such a path only if it is the scanned form, but for its
end (`Path.spelling_of_prefix`).  So what is left when the text is taken off in front of
the path is known for every spelling (`Tree.LiesBelow.withoutDirectory_eq`).
-/

namespace HeaderMake

/-! ## Spellings of a directory -/

namespace Path

/-- A directory text in the form that scanned paths begin with: the segments that name
something, each with a slash behind it. -/
def scannedForm (directory : Path) : Path :=
  (Path.plainSegments directory).flatMap (· ++ ['/'])

theorem isAbsolute_scannedForm (directory : Path) :
    directory.scannedForm.isAbsolute = false := by
  rw [scannedForm]
  cases hsegments : directory.plainSegments with
  | nil => rfl
  | cons segment rest =>
      have hmem : segment ∈ directory.plainSegments := by simp [hsegments]
      have hslash := slash_not_mem_plainSegment hmem
      have hplain := (List.mem_filter.mp hmem).2
      cases segment with
      | nil => simp at hplain
      | cons c text =>
          rw [List.mem_cons, not_or] at hslash
          simp [isAbsolute, Ne.symm hslash.1]

/-- A directory text that begins a path of plain segments is its own scanned form, or
the scanned form without the slash at its end, or the scanned form with a dot behind. -/
theorem spelling_of_prefix {directory path : Path}
    (hplain : ∀ segment ∈ path.splitOn '/', segment ≠ [] ∧ segment ≠ ['.'])
    (h : directory <+: path) :
    directory = directory.scannedForm ∨
      directory ++ ['/'] = directory.scannedForm ∨
      directory = directory.scannedForm ++ ['.'] := by
  obtain ⟨rest, rfl⟩ := h
  obtain ⟨start, last, hsegments⟩ := (List.eq_nil_or_concat'
    (directory.splitOn '/')).resolve_left (List.splitOn_ne_nil _ _)
  have hslash : ∀ segment ∈ start, '/' ∉ segment := by
    intro segment hsegment
    have hmem : segment ∈ directory.splitOn '/' := by
      rw [hsegments]
      exact List.mem_append_left _ hsegment
    exact slash_not_mem_segment hmem
  have htext : directory = start.flatMap (· ++ ['/']) ++ last := by
    have hjoin := intercalate_append '/' start
      (List.cons_ne_nil last [])
    rwa [← hsegments, List.intercalate_splitOn,
      List.intercalate_singleton] at hjoin
  -- All segments but the last one are whole segments of the path.
  have hform : directory.scannedForm = start.flatMap (· ++ ['/']) ++
      ([last].filter fun segment => segment != [] && segment != ['.']).flatMap
        (· ++ ['/']) := by
    rw [scannedForm, Path.plainSegments, hsegments, List.filter_append,
      List.flatMap_append, List.filter_eq_self.mpr]
    intro segment hsegment
    rw [htext, List.append_assoc, splitOn_flatMap_append hslash] at hplain
    simpa using hplain segment (List.mem_append_left _ hsegment)
  rw [hform, htext]
  by_cases hempty : last = []
  · simp [hempty]
  · by_cases hdot : last = ['.']
    · simp [hdot]
    · simp [hempty, hdot]

/-- What is left of the path to `relative` below a scanned directory when the text of the
directory is taken off in front of it. -/
def afterDirectory (directory relative : Path) : Path :=
  if directory = directory.scannedForm then relative
  else if directory ++ ['/'] = directory.scannedForm then '/' :: relative
  else if directory = directory.scannedForm ++ ['.'] ∧ ['.'] <+: relative then
    relative.tail
  else directory.scannedForm ++ relative

/-- Nothing is lost of a path by taking the directory off, unless a dot may be. -/
theorem afterDirectory_injective {directory : Path}
    (h : directory ≠ directory.scannedForm ++ ['.']) :
    Function.Injective directory.afterDirectory := by
  intro relative other heq
  simp only [afterDirectory, h, false_and, if_false] at heq
  split at heq
  · exact heq
  · split at heq
    · exact (List.cons.inj heq).2
    · exact List.append_cancel_left heq

theorem withoutDirectory_append (directory rest : Path) :
    withoutDirectory directory (directory ++ rest) = rest := by
  rw [withoutDirectory, Text.dropLeading?_eq_some_iff.mpr rfl]
  rfl

theorem withoutDirectory_eq_self {directory path : Path}
    (h : ¬directory <+: path) : withoutDirectory directory path = path := by
  rw [withoutDirectory, Text.dropLeading?_eq_none_iff.mpr h]
  rfl

/-- Nothing is taken off of a relative path by an absolute directory text. -/
theorem withoutDirectory_of_isAbsolute {directory path : Path}
    (hdirectory : directory.isAbsolute = true)
    (hpath : path.isAbsolute = false) :
    withoutDirectory directory path = path := by
  apply withoutDirectory_eq_self
  rintro ⟨rest, rfl⟩
  cases directory with
  | nil => cases hdirectory
  | cons c directory => exact absurd (hdirectory.symm.trans hpath) nofun

theorem withoutDirectory_scannedForm_append {directory relative : Path}
    (hplain : ∀ segment ∈
      (directory.scannedForm ++ relative : Path).splitOn '/',
      segment ≠ [] ∧ segment ≠ ['.']) :
    withoutDirectory directory (directory.scannedForm ++ relative) =
      directory.afterDirectory relative := by
  unfold afterDirectory
  split
  · next hform =>
    conv => lhs; rw [← hform]
    exact withoutDirectory_append directory relative
  · split
    · next hform =>
      rw [← hform, List.append_assoc]
      exact withoutDirectory_append directory _
    · split
      · next hform =>
        obtain ⟨hdirectory, rest, rfl⟩ := hform
        conv => lhs; rw [← List.append_assoc, ← hdirectory]
        exact withoutDirectory_append directory rest
      · next hplainly hslashed hdotted =>
        apply withoutDirectory_eq_self
        intro hprefix
        rcases spelling_of_prefix hplain hprefix with heq | heq | heq
        · exact hplainly heq
        · exact hslashed heq
        · refine hdotted ⟨heq, ?_⟩
          rwa [← List.prefix_append_right_inj directory.scannedForm, ← heq]

end Path

/-! ## Files below a directory -/

namespace Tree

/-- Names that lead down from a directory text, written as a path. -/
def LiesBelow (tree : Tree) (root directory relative : Path) : Prop :=
  ∃ start names,
    tree.find (root.join directory) = .ok (.directory start) ∧
      tree.LeadsDown [start] start (root.join directory).raw names ∧
      relative = List.intercalate ['/'] (names.map Name.text)

theorem sourcePath_eq (directory : Path) {names : List Name}
    (hne : names ≠ []) :
    sourcePath directory.plainSegments names =
      directory.scannedForm ++ List.intercalate ['/'] (names.map Name.text) :=
  intercalate_append _ _ (by simpa using hne)

namespace LiesBelow

variable {tree : Tree} {root directory relative : Path}

theorem exists_last (h : tree.LiesBelow root directory relative) :
    ∃ (start : List Name) (last : Name),
      relative = (start.map Name.text).flatMap (· ++ ['/']) ++ last.text := by
  obtain ⟨_, names, -, hdown, rfl⟩ := h
  obtain ⟨start, last, rfl⟩ :=
    (List.eq_nil_or_concat' names).resolve_left hdown.ne_nil
  refine ⟨start, last, ?_⟩
  rw [List.map_append, List.map_singleton,
    intercalate_append _ _ (List.cons_ne_nil _ _),
    List.intercalate_singleton]

/-- What is left of the path of a scanned file without the text of the directory. -/
theorem withoutDirectory_eq (h : tree.LiesBelow root directory relative) :
    Path.withoutDirectory directory (directory.scannedForm ++ relative) =
      directory.afterDirectory relative := by
  obtain ⟨_, names, -, hdown, rfl⟩ := h
  apply Path.withoutDirectory_scannedForm_append
  rw [← sourcePath_eq directory hdown.ne_nil, splitOn_sourcePath
    (fun _ => Path.slash_not_mem_plainSegment) hdown.ne_nil]
  intro segment hsegment
  rcases List.mem_append.mp hsegment with hplain | hname
  · simpa using (List.mem_filter.mp hplain).2
  · obtain ⟨name, -, rfl⟩ := List.mem_map.mp hname
    exact ⟨name.text_ne_nil, name.text_ne_dot⟩

theorem fileName_append (h : tree.LiesBelow root directory relative) :
    Path.fileName (directory.scannedForm ++ relative) =
      relative.fileName := by
  obtain ⟨start, last, rfl⟩ := h.exists_last
  have hslash := last.slash_not_mem_text
  rw [← List.append_assoc, Path.scannedForm, ← List.flatMap_append,
    Path.fileName_append hslash, Path.fileName_flatMap,
    Path.fileName_append hslash, Path.fileName_flatMap]

end LiesBelow
end Tree

namespace Workspace

variable {workspace : Workspace} {configuration : Configuration}
variable {collected : CollectedGroup} {directory : Path}

theorem files_eq_collect
    (hmem : collected ∈ workspace.collectGroups configuration)
    (hdirectory : collected.group.directory = some directory) :
    collected.files = workspace.tree.collect workspace.root directory
      configuration.layout.sourceExtension collected.group.recursive := by
  obtain ⟨group, -, rfl⟩ := List.mem_map.mp hmem
  have hgroup : group.directory = some directory := hdirectory
  simp only [collectGroup, hgroup]

theorem isAbsolute_of_mem_files
    (hmem : collected ∈ workspace.collectGroups configuration)
    (hdirectory : collected.group.directory = some directory)
    {source : Path} (hsource : source ∈ collected.files) :
    source.isAbsolute = false := by
  rw [files_eq_collect hmem hdirectory] at hsource
  obtain ⟨_, _, -, -, -, -, -, hrelative⟩ :=
    Tree.mem_collect_iff_leadsDown.mp hsource
  exact RawPath.isAbsolute_of_relative? hrelative

/-- The files of a collected group that scans a directory, each with its path below the
directory.  Where no directories are entered, these paths hold no slash. -/
theorem exists_relatives
    (hmem : collected ∈ workspace.collectGroups configuration)
    (hdirectory : collected.group.directory = some directory)
    (hbelow : directory.isAbsolute = false) :
    ∃ relatives : List Path,
      collected.files = relatives.map (directory.scannedForm ++ ·) ∧
        ∀ relative ∈ relatives,
          workspace.tree.LiesBelow workspace.root directory relative ∧
            (collected.group.recursive = false → '/' ∉ relative) := by
  have hfile : ∀ source ∈ collected.files,
      ∃ relative, source = directory.scannedForm ++ relative ∧
        workspace.tree.LiesBelow workspace.root directory relative ∧
          (collected.group.recursive = false → '/' ∉ relative) := by
    intro source hsource
    rw [files_eq_collect hmem hdirectory] at hsource
    obtain ⟨start, names, hfind, hdown, -, -, hdepth, rfl⟩ :=
      (Tree.mem_collect_iff
        (Path.segmentsBelow?_of_relative _ hbelow)).mp hsource
    refine ⟨_, Tree.sourcePath_eq _ hdown.ne_nil,
      ⟨start, names, hfind, hdown, rfl⟩, fun hflat => ?_⟩
    obtain ⟨name, rfl⟩ := List.length_eq_one_iff.mp
      (hdepth.resolve_left (by simp [hflat]))
    rw [List.map_singleton, List.intercalate_singleton]
    exact name.slash_not_mem_text
  refine ⟨collected.files.map (List.drop directory.scannedForm.length),
    ?_, ?_⟩
  · rw [List.map_map]
    refine (map_eq_self fun source hsource => ?_).symm
    obtain ⟨relative, rfl, -⟩ := hfile source hsource
    rw [Function.comp_apply, List.drop_left]
  · intro relative hrelative
    obtain ⟨source, hsource, rfl⟩ := List.mem_map.mp hrelative
    obtain ⟨relative, rfl, hlies⟩ := hfile source hsource
    rwa [List.drop_left]

end Workspace
end HeaderMake
