import HeaderMake.Proofs.Configuration.Loading
import HeaderMake.Proofs.ScannedForm
import HeaderMake.Proofs.SharedObjects
import HeaderMake.Run.Plan

/-!
# Spellings of the library directory

Three functions look at the text of the library directory.  A scan reads it as a path and
gives its files plain names; the object mapper compares it with these names as a text,
without the slashes at its end; the library listing compares all of it.  They agree on
what lies in the library if the text is spelled as a scan spells it (`library_spelling`).

Nothing in a configuration asks for that spelling.  With the library `./lib/`, files of
the library are scanned and are then taken for files of another directory
(`library_missed_by_spelling`).
-/

namespace HeaderMake

/-! ## What the object mapper takes for library files -/

namespace Path

theorem plainSegments_append_slash (path : Path) :
    plainSegments (path ++ ['/']) = plainSegments path := by
  rw [plainSegments, List.splitOn_append_cons_self, List.filter_append]
  simp [plainSegments]

theorem plainSegments_dropTrailingSlashes (path : Path) :
    plainSegments (Text.dropTrailingSlashes path) = plainSegments path := by
  induction path using List.reverseRecOn with
  | nil => rfl
  | append_singleton path c ih =>
      by_cases hslash : c = '/'
      · have hdrop : Text.dropTrailingSlashes (path ++ ['/']) =
            Text.dropTrailingSlashes path := by
          simp [Text.dropTrailingSlashes]
        rw [hslash, hdrop, ih, plainSegments_append_slash]
      · have hdrop : Text.dropTrailingSlashes (path ++ [c]) = path ++ [c] := by
          simp [Text.dropTrailingSlashes, hslash]
        rw [hdrop]

end Path

namespace Layout

variable {layout : Layout}

/-- Up to slashes at its end, the library directory is spelled as scanned paths spell
it. -/
def SpelledPlainly (layout : Layout) : Prop :=
  layout.libraryDirectory ++ ['/'] = Path.scannedForm layout.library

instance (layout : Layout) : Decidable layout.SpelledPlainly :=
  inferInstanceAs (Decidable (_ = _))

/-- A path in a scanned directory lies in the library only if the library directory is
spelled plainly. -/
theorem spelledPlainly_of_inLibrary {names : List Name} {last : Text}
    (hlast : '/' ∉ last)
    (h : layout.InLibrary (List.intercalate ['/']
      (Path.plainSegments layout.library ++ names.map Name.text ++ [last]))) :
    layout.SpelledPlainly := by
  obtain ⟨rest, heq⟩ := h
  have hwhole : ∀ segment ∈
      Path.plainSegments layout.library ++ names.map Name.text,
      '/' ∉ segment ∧ segment ≠ [] ∧ segment ≠ ['.'] := by
    intro segment hsegment
    rcases List.mem_append.mp hsegment with hplain | hname
    · obtain ⟨hsplit, hplain⟩ := List.mem_filter.mp hplain
      exact ⟨Path.slash_not_mem_segment hsplit, by simpa using hplain⟩
    · obtain ⟨name, -, rfl⟩ := List.mem_map.mp hname
      exact ⟨name.slash_not_mem_text, name.text_ne_nil, name.text_ne_dot⟩
  have hsegments : (List.intercalate ['/'] (Path.plainSegments
      layout.library ++ names.map Name.text ++ [last])).splitOn '/' = _ :=
    List.splitOn_intercalate '/' (List.forall_mem_append.mpr
      ⟨fun segment h => (hwhole segment h).1, by simpa using hlast⟩) (by simp)
  rw [heq] at hsegments
  have hbegins := Path.splitOn_prefix_of_append hsegments
  -- So every segment of the library directory names something.
  have hplain : Path.plainSegments layout.library =
      layout.libraryDirectory.splitOn '/' := by
    rw [← Path.plainSegments_dropTrailingSlashes, Path.plainSegments]
    apply List.filter_eq_self.mpr
    intro segment hsegment
    simpa using (hwhole segment (hbegins.subset hsegment)).2
  rw [SpelledPlainly, Path.scannedForm, hplain, flatMap_splitOn]

theorem inBuildDirectory_of_spelledPlainly (h : layout.SpelledPlainly)
    (rest : Path) :
    layout.inBuildDirectory (layout.library.scannedForm ++ rest) =
      layout.buildDirectory ++ '/' :: rest := by
  rw [← h, List.append_assoc]
  exact layout.inBuildDirectory_append rest

end Layout

/-! ## Rules of library files -/

namespace Tree

theorem slash_not_mem_stem {name : Text} (h : '/' ∉ name) :
    '/' ∉ Path.stem name := by
  intro hslash
  rw [← Path.stem_append_extension name] at h
  exact h (List.mem_append_left _ hslash)

variable {tree : Tree} {root relative : Path} {layout : Layout}

/-- The stem of a scanned path keeps the directory that was scanned. -/
theorem LiesBelow.stem_append {directory : Path}
    (h : tree.LiesBelow root directory relative) :
    Path.stem (directory.scannedForm ++ relative) =
      directory.scannedForm ++ relative.stem := by
  obtain ⟨start, last, rfl⟩ := h.exists_last
  have hslash := last.slash_not_mem_text
  rw [← List.append_assoc, Path.scannedForm, ← List.flatMap_append,
    Path.stem_append (Path.fileName_flatMap _) hslash,
    Path.stem_append (Path.fileName_flatMap _) hslash, List.flatMap_append,
    List.append_assoc]

/-- If the library is not spelled plainly, what is scanned below it does not lie in it
for the object mapper, and neither do the objects. -/
theorem LiesBelow.not_inLibrary
    (h : tree.LiesBelow root layout.library relative)
    (hspelling : ¬layout.SpelledPlainly) :
    ¬layout.InLibrary (layout.library.scannedForm ++ relative) ∧
      ('/' ∉ layout.objectExtension →
        ¬layout.InLibrary (layout.library.scannedForm ++
          (relative.stem ++ layout.objectExtension))) := by
  obtain ⟨start, last, rfl⟩ := h.exists_last
  have hslash := last.slash_not_mem_text
  have hform : ∀ name : Text,
      layout.library.scannedForm ++
          ((start.map Name.text).flatMap (· ++ ['/']) ++ name) =
        List.intercalate ['/'] (Path.plainSegments layout.library ++
          start.map Name.text ++ [name]) := by
    intro name
    rw [intercalate_append _ _ (List.cons_ne_nil _ _),
      List.flatMap_append, List.intercalate_singleton, List.append_assoc]
    rfl
  rw [Path.stem_append (Path.fileName_flatMap _) hslash, List.append_assoc,
    hform, hform]
  constructor
  · exact fun hin => hspelling (Layout.spelledPlainly_of_inLibrary hslash hin)
  · intro hextension hin
    apply hspelling (Layout.spelledPlainly_of_inLibrary _ hin)
    rw [List.mem_append, not_or]
    exact ⟨slash_not_mem_stem hslash, hextension⟩

end Tree

/-- The paths that the rules of a group put into the build directory: the object and the
source of the recipe, for each source. -/
def Workspace.movedPaths (workspace : Workspace) (layout : Layout)
    (collected : CollectedGroup) : List (Path × Path) :=
  (resolveRules layout workspace.view collected).map fun resolved =>
    (resolved.rule.object, resolved.rule.recipeSource)

theorem Workspace.movedPaths_eq (workspace : Workspace) (layout : Layout)
    (collected : CollectedGroup) :
    workspace.movedPaths layout collected =
      collected.files.map fun source =>
        (layout.objectFile source, layout.inBuildDirectory source) := by
  rw [movedPaths, resolveRules, List.map_map]
  rfl

/-! ## The library, seen by scan, mapper and listing -/

theorem exists_libraryListing_eq (configuration : Configuration)
    (files : List Path) :
    ∃ start, configuration.libraryListing files =
      start ++ "\n\nSOURCES += ".toList ++
        List.intercalate listingSeparator
          ((configuration.librarySources files).map besideListing) ++
        "\n".toList :=
  ⟨_, rfl⟩

/-- The files of the first group that scans the library directory are named by the
scanned form of its text and their paths below it.  If the library is spelled plainly,
exactly the scanned form is replaced in the object and in the source of the recipe.
Otherwise the sources of the recipes stay in place, and the objects do unless the object
extension brings a slash with it.  The library listing names the files by their paths
below the directory if the text is the scanned form itself. -/
theorem library_spelling (workspace : Workspace)
    (configuration : Configuration) {library : CollectedGroup}
    (hfirst : (workspace.collectGroups configuration).find?
      (·.group.directory = some configuration.layout.library) = some library)
    (hbelow : configuration.layout.library.isAbsolute = false) :
    ∃ relatives : List Path,
      library.files =
        relatives.map (configuration.layout.library.scannedForm ++ ·) ∧
      (∀ relative ∈ relatives,
        workspace.tree.LiesBelow workspace.root configuration.layout.library
          relative) ∧
      (configuration.layout.SpelledPlainly →
        workspace.movedPaths configuration.layout library =
          relatives.map fun relative : Path =>
            (configuration.layout.buildDirectory ++ '/' ::
                (relative.stem ++ configuration.layout.objectExtension),
              configuration.layout.buildDirectory ++ '/' :: relative)) ∧
      (¬configuration.layout.SpelledPlainly →
        (workspace.movedPaths configuration.layout library).map Prod.snd =
          relatives.map (configuration.layout.library.scannedForm ++ ·)) ∧
      (¬configuration.layout.SpelledPlainly →
        '/' ∉ configuration.layout.objectExtension →
        (workspace.movedPaths configuration.layout library).map Prod.fst =
          relatives.map fun relative : Path =>
            configuration.layout.library.scannedForm ++
              (relative.stem ++ configuration.layout.objectExtension)) ∧
      ∃ listing,
        configuration.libraryOutput? (workspace.collectGroups configuration) =
          some listing ∧
        (configuration.layout.library =
            configuration.layout.library.scannedForm →
          ∃ start, listing.contents = start ++ "\n\nSOURCES += ".toList ++
            List.intercalate listingSeparator (relatives.map besideListing) ++
            "\n".toList) := by
  have hdirectory :
      library.group.directory = some configuration.layout.library := by
    simpa using List.find?_some hfirst
  obtain ⟨relatives, hfiles, hrelatives⟩ := Workspace.exists_relatives
    (List.mem_of_find?_eq_some hfirst) hdirectory hbelow
  have hbelowAll : ∀ relative ∈ relatives,
      workspace.tree.LiesBelow workspace.root configuration.layout.library
        relative := fun relative hrelative => (hrelatives relative hrelative).1
  have hobject : ∀ relative ∈ relatives,
      configuration.layout.objectFile
          (configuration.layout.library.scannedForm ++ relative) =
        configuration.layout.inBuildDirectory
          (configuration.layout.library.scannedForm ++
            (relative.stem ++ configuration.layout.objectExtension)) := by
    intro relative hrelative
    rw [Layout.objectFile, (hbelowAll relative hrelative).stem_append,
      List.append_assoc]
  refine ⟨relatives, hfiles, hbelowAll, ?_, ?_, ?_, ?_⟩
  · intro hspelling
    rw [Workspace.movedPaths_eq, hfiles, List.map_map]
    apply List.map_congr_left
    intro relative hrelative
    rw [Function.comp_apply, hobject relative hrelative,
      Layout.inBuildDirectory_of_spelledPlainly hspelling,
      Layout.inBuildDirectory_of_spelledPlainly hspelling]
  · intro hspelling
    rw [Workspace.movedPaths_eq, hfiles, List.map_map, List.map_map]
    apply List.map_congr_left
    intro relative hrelative
    have hkept := ((hbelowAll relative hrelative).not_inLibrary hspelling).1
    exact Layout.inBuildDirectory_eq_self hkept
  · intro hspelling hextension
    rw [Workspace.movedPaths_eq, hfiles, List.map_map, List.map_map]
    apply List.map_congr_left
    intro relative hrelative
    have hkept := ((hbelowAll relative hrelative).not_inLibrary hspelling).2
    rw [Function.comp_apply, Function.comp_apply, hobject relative hrelative,
      Layout.inBuildDirectory_eq_self (hkept hextension)]
  · refine ⟨_, by rw [Configuration.libraryOutput?, hfirst]; rfl, ?_⟩
    intro hform
    have hsources : configuration.librarySources library.files =
        relatives := by
      rw [Configuration.librarySources, hfiles, List.map_map]
      refine List.map_id'' (fun relative => ?_) relatives
      rw [Function.comp_apply, ← hform]
      exact Path.withoutDirectory_append _ relative
    rw [← hsources]
    exact exists_libraryListing_eq configuration library.files

/-! ## Two spellings of one library -/

/-- The standard configuration with one group, which scans the library directory. -/
def Configuration.scanningLibrary (library : Path) : Configuration :=
  { Configuration.standard with
    layout := { Layout.standard with library }
    groups := [.scanning "lib".toList library [] none] }

/-- A workspace with one source, in the directory `lib`. -/
def Workspace.tokenOnly : Workspace where
  tree := Tree.empty.putFile "lib/token.cpp".toList []
  root := ".".toList

/-- The group that scans the library of the workspace, with its one source. -/
def CollectedGroup.tokenOnly (library : Path) : CollectedGroup :=
  ⟨.scanning "lib".toList library [] none, ["lib/token.cpp".toList]⟩

/-- In any spelling by which the scan finds the source, the group is the first one that
scans the library. -/
theorem find?_collectGroups_tokenOnly {library : Path}
    (hfiles : Workspace.tokenOnly.tree.collect ".".toList library
      ".cpp".toList false = ["lib/token.cpp".toList]) :
    (Workspace.tokenOnly.collectGroups (.scanningLibrary library)).find?
        (·.group.directory = some library) =
      some (.tokenOnly library) := by
  have hgroups : Workspace.tokenOnly.collectGroups
      (.scanningLibrary library) = [.tokenOnly library] :=
    congrArg (fun files => [CollectedGroup.mk _ files]) hfiles
  rw [hgroups]
  simp [CollectedGroup.tokenOnly, SourceGroup.scanning]

/-- The library `lib/` is spelled plainly, so its one source is moved. -/
theorem library_spelling_slashed :
    (Workspace.tokenOnly.collectGroups
        (.scanningLibrary "lib/".toList)).find?
        (·.group.directory = some "lib/".toList) =
      some (.tokenOnly "lib/".toList) ∧
    Path.isAbsolute "lib/".toList = false ∧
    ∃ relatives : List Path,
      ["lib/token.cpp".toList] = relatives.map ("lib/".toList ++ ·) ∧
        Workspace.tokenOnly.movedPaths
            (Configuration.scanningLibrary "lib/".toList).layout
            (.tokenOnly "lib/".toList) =
          relatives.map fun relative : Path =>
            ("$(SRCDIR)/".toList ++ (relative.stem ++ ".o".toList),
              "$(SRCDIR)/".toList ++ relative) := by
  have hfiles : Workspace.tokenOnly.tree.collect ".".toList "lib/".toList
      ".cpp".toList false = ["lib/token.cpp".toList] := by decide +kernel
  have hfirst := find?_collectGroups_tokenOnly hfiles
  have hbelow : Path.isAbsolute "lib/".toList = false := by decide
  obtain ⟨relatives, hfiles, -, hmoved, -, -, -⟩ :=
    library_spelling Workspace.tokenOnly
      (.scanningLibrary "lib/".toList) hfirst hbelow
  exact ⟨hfirst, hbelow, relatives, hfiles, hmoved (by decide)⟩

/-- A document that spells the library with a segment that names nothing. -/
def dottedDocument : Text :=
  "[layout]\nlibrary='./lib/'\n[[group]]\nname='lib'\ndir='./lib/'\n".toList

theorem parse_dotted :
    Configuration.parse dottedDocument =
      .ok (.scanningLibrary "./lib/".toList) := by
  have htoml : Toml.parse? dottedDocument =
      some (.table .header [("layout".toList,
          .table .header [("library".toList, .string "./lib/".toList)]),
        ("group".toList, .tables [[("name".toList, .string "lib".toList),
          ("dir".toList, .string "./lib/".toList)]])]) := by
    with_unfolding_all rfl
  have hvalue : Configuration.ofValue? (.table .header [("layout".toList,
          .table .header [("library".toList, .string "./lib/".toList)]),
        ("group".toList, .tables [[("name".toList, .string "lib".toList),
          ("dir".toList, .string "./lib/".toList)]])]) =
      some (.scanningLibrary "./lib/".toList) := by rfl
  exact Configuration.parse_eq_ok htoml hvalue (by rfl)

/-- A source that is scanned for the library `./lib/` stays in place, as its object does,
and the library listing gives it the directory `lib`. -/
theorem library_missed_by_spelling :
    Configuration.parse dottedDocument =
        .ok (.scanningLibrary "./lib/".toList) ∧
      Path.isAbsolute "./lib/".toList = false ∧
      (Workspace.tokenOnly.collectGroups
          (.scanningLibrary "./lib/".toList)).find?
          (·.group.directory = some "./lib/".toList) =
        some (.tokenOnly "./lib/".toList) ∧
      (∃ moved ∈ Workspace.tokenOnly.movedPaths
          (Configuration.scanningLibrary "./lib/".toList).layout
          (.tokenOnly "./lib/".toList),
        ¬"$(SRCDIR)/".toList <+: moved.1 ∧ ¬"$(SRCDIR)/".toList <+: moved.2) ∧
      "token.cpp".toList ∉
        (Configuration.scanningLibrary "./lib/".toList).librarySources
          (CollectedGroup.tokenOnly "./lib/".toList).files := by
  have hfiles : Workspace.tokenOnly.tree.collect ".".toList "./lib/".toList
      ".cpp".toList false = ["lib/token.cpp".toList] := by decide +kernel
  refine ⟨parse_dotted, by decide, find?_collectGroups_tokenOnly hfiles, ?_,
    by decide⟩
  rw [Workspace.movedPaths_eq]
  decide

end HeaderMake
