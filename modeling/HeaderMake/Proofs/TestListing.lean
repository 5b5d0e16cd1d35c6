import HeaderMake.Proofs.Configuration.Loading
import HeaderMake.Proofs.ScannedForm
import HeaderMake.Run.Plan

/-!
# Tests in the test listing

The test listing is meant to name the tests among the files of the test group: the files
whose own name begins with the mark of tests.  What it compares with the mark is all that
is left of the path of a file when the text of the directory is taken off in front.
`test_listing_exactly` says for every spelling of the directory what that is, and that
exactly the tests are listed if and only if the mark begins what is left of each path
just where it begins the name of the file.

That is so for every tree if the directory is spelled as scans spell it and no
directories are entered.  Where directories are entered, `test/sub/testa.cpp` is left out
of the listing and `test/testdata/options.cpp` is in it (`helper_listed_for_directory`).
-/

namespace HeaderMake

/-- A test listing with these entries. -/
def testListingOf (entries : List Text) : Text :=
  listingHeader ++ "INCLUDEPATH += ../externals/tinyxml\n".toList ++
    "\n\nSOURCES += ".toList ++ List.intercalate listingSeparator entries ++
    "\n".toList

/-! ## Tests and listed files -/

namespace ListingOptions

variable (listing : ListingOptions) (directory : Path) (files : List Path)

/-- A file is a test if the mark begins its own name. -/
def IsTest (file : Path) : Prop :=
  listing.testMark <+: file.fileName

/-- A file is listed if the mark begins what is left of its path without the directory. -/
def Lists (file : Path) : Prop :=
  listing.testMark <+: Path.withoutDirectory directory file

instance (file : Path) : Decidable (listing.IsTest file) :=
  inferInstanceAs (Decidable (_ <+: _))

instance (file : Path) : Decidable (listing.Lists directory file) :=
  inferInstanceAs (Decidable (_ <+: _))

/-- The entries of the listed files, in the order of the files. -/
def testEntries : List Text :=
  ((files.filter (listing.Lists directory ·)).map
    (Path.withoutDirectory directory)).map belowBase

theorem testSources_eq :
    listing.testSources files directory =
      (files.filter (listing.Lists directory ·)).map
        (Path.withoutDirectory directory) := by
  rw [testSources, List.filter_map]
  congr 1
  apply List.filter_congr
  intro file _
  rw [Bool.eq_iff_iff, Function.comp_apply, List.isPrefixOf_iff_prefix,
    decide_eq_true_iff]
  rfl

theorem testListing_eq :
    listing.testListing files directory =
      testListingOf (listing.testEntries directory files) := by
  simp only [testListing, testListingOf, testEntries, testSources_eq]

/-- The listed files are the tests, in the same order. -/
def ListsTests : Prop :=
  files.filter (listing.Lists directory ·) = files.filter (listing.IsTest ·)

variable {listing directory files}

theorem listsTests_iff :
    listing.ListsTests directory files ↔
      ∀ file ∈ files, listing.Lists directory file ↔ listing.IsTest file := by
  constructor
  · intro h file hfile
    have hmem := congrArg (file ∈ ·) h
    simpa [hfile] using hmem
  · intro h
    apply List.filter_congr
    intro file hfile
    rw [Bool.eq_iff_iff, decide_eq_true_iff, decide_eq_true_iff]
    exact h file hfile

section Relatives

variable {tree : Tree} {root relative : Path}

theorem lists_iff (h : tree.LiesBelow root directory relative) :
    listing.Lists directory (directory.scannedForm ++ relative) ↔
      listing.testMark <+: directory.afterDirectory relative := by
  rw [Lists, h.withoutDirectory_eq]

theorem isTest_iff (h : tree.LiesBelow root directory relative) :
    listing.IsTest (directory.scannedForm ++ relative) ↔
      listing.testMark <+: relative.fileName := by
  rw [IsTest, h.fileName_append]

variable {relatives : List Path}

theorem listsTests_relatives_iff
    (h : ∀ relative ∈ relatives, tree.LiesBelow root directory relative) :
    listing.ListsTests directory
        (relatives.map (directory.scannedForm ++ ·)) ↔
      ∀ relative ∈ relatives,
        (listing.testMark <+: directory.afterDirectory relative ↔
          listing.testMark <+: relative.fileName) := by
  rw [listsTests_iff, List.forall_mem_map]
  refine forall₂_congr fun relative hrelative => ?_
  rw [lists_iff (h relative hrelative), isTest_iff (h relative hrelative)]

theorem testEntries_relatives
    (h : ∀ relative ∈ relatives, tree.LiesBelow root directory relative) :
    listing.testEntries directory
        (relatives.map (directory.scannedForm ++ ·)) =
      ((relatives.map directory.afterDirectory).filter
        listing.testMark.isPrefixOf).map belowBase := by
  rw [testEntries, ← testSources_eq, testSources, List.map_map]
  congr 2
  exact List.map_congr_left fun relative hrelative =>
    (h relative hrelative).withoutDirectory_eq

/-- If the names of the files are all that is left of their paths, the tests are listed,
each by its name. -/
theorem listsTests_of_names
    (h : ∀ relative ∈ relatives, tree.LiesBelow root directory relative)
    (hnames : ∀ relative ∈ relatives,
      directory.afterDirectory relative = relative.fileName) :
    listing.ListsTests directory
        (relatives.map (directory.scannedForm ++ ·)) ∧
      listing.testEntries directory
          (relatives.map (directory.scannedForm ++ ·)) =
        (((relatives.map (directory.scannedForm ++ ·)).filter
          (listing.IsTest ·)).map Path.fileName).map belowBase := by
  have htests : listing.ListsTests directory
      (relatives.map (directory.scannedForm ++ ·)) := by
    rw [listsTests_relatives_iff h]
    intro relative hrelative
    rw [hnames relative hrelative]
  refine ⟨htests, ?_⟩
  rw [testEntries, htests]
  congr 1
  apply List.map_congr_left
  intro file hfile
  obtain ⟨relative, hrelative, rfl⟩ :=
    List.mem_map.mp (List.mem_filter.mp hfile).1
  rw [(h relative hrelative).withoutDirectory_eq,
    (h relative hrelative).fileName_append, hnames relative hrelative]

end Relatives
end ListingOptions

/-! ## What the listing holds -/

theorem belowBase_injective : Function.Injective belowBase :=
  fun _ _ h => List.append_cancel_left h

/-- No two files of a group are left with the same path, unless a dot at the end of the
directory text is taken off as well. -/
theorem Workspace.eq_of_withoutDirectory_eq {workspace : Workspace}
    {configuration : Configuration} {collected : CollectedGroup}
    {directory : Path}
    (hmem : collected ∈ workspace.collectGroups configuration)
    (hdirectory : collected.group.directory = some directory)
    (hdot : directory ≠ directory.scannedForm ++ ['.'])
    {file other : Path} (hfile : file ∈ collected.files)
    (hother : other ∈ collected.files)
    (heq : Path.withoutDirectory directory file =
      Path.withoutDirectory directory other) : file = other := by
  by_cases habsolute : directory.isAbsolute = true
  · have hfile' := isAbsolute_of_mem_files hmem hdirectory hfile
    have hother' := isAbsolute_of_mem_files hmem hdirectory hother
    rwa [Path.withoutDirectory_of_isAbsolute habsolute hfile',
      Path.withoutDirectory_of_isAbsolute habsolute hother'] at heq
  · rw [Bool.not_eq_true] at habsolute
    obtain ⟨relatives, hfiles, hrelatives⟩ :=
      exists_relatives hmem hdirectory habsolute
    rw [hfiles] at hfile hother
    obtain ⟨relative, hrelative, rfl⟩ := List.mem_map.mp hfile
    obtain ⟨relative', hrelative', rfl⟩ := List.mem_map.mp hother
    rw [(hrelatives relative hrelative).1.withoutDirectory_eq,
      (hrelatives relative' hrelative').1.withoutDirectory_eq] at heq
    rw [Path.afterDirectory_injective hdot heq]

/-- The test listing of a group that scans a directory names the files by what is left of
their paths without the directory text, in the order of the files.  The files that it
names are the tests if and only if the mark begins what is left of each path just where it
begins the name of the file.

If all names of the tree are Unicode, no file is named twice, unless a dot at the end of
the text is taken off as well.  An absolute text is taken off nowhere, and for every
spelling of a relative one it is said what is left.  The tests are listed if the directory
is spelled as scanned paths begin and no directories are entered. -/
theorem test_listing_exactly (workspace : Workspace)
    (configuration : Configuration) {test : CollectedGroup}
    {directory : Path}
    (hfirst : (workspace.collectGroups configuration).find?
      (·.group.name = configuration.listing.testGroup) = some test)
    (hdirectory : test.group.directory = some directory) :
    configuration.testOutput? (workspace.collectGroups configuration) =
        some { path := configuration.listing.testFile
               contents := testListingOf
                 (configuration.listing.testEntries directory test.files)
               required := false } ∧
      (configuration.listing.ListsTests directory test.files ↔
        ∀ file ∈ test.files,
          (configuration.listing.testMark <+:
              Path.withoutDirectory directory file ↔
            configuration.listing.testMark <+: file.fileName)) ∧
      (workspace.tree.UnicodeNames →
        test.files.Nodup ∧
          (directory ≠ directory.scannedForm ++ ['.'] →
            (configuration.listing.testEntries directory
              test.files).Nodup)) ∧
      (directory.isAbsolute = true → ∀ file ∈ test.files,
        Path.withoutDirectory directory file = file) ∧
      (directory.isAbsolute = false → ∃ relatives : List Path,
        test.files = relatives.map (directory.scannedForm ++ ·) ∧
        (∀ relative ∈ relatives,
          workspace.tree.LiesBelow workspace.root directory relative) ∧
        configuration.listing.testEntries directory test.files =
          ((relatives.map directory.afterDirectory).filter
            configuration.listing.testMark.isPrefixOf).map belowBase ∧
        (configuration.listing.ListsTests directory test.files ↔
          ∀ relative ∈ relatives,
            (configuration.listing.testMark <+:
                directory.afterDirectory relative ↔
              configuration.listing.testMark <+: relative.fileName))) ∧
      (directory = directory.scannedForm → test.group.recursive = false →
        configuration.listing.ListsTests directory test.files ∧
          configuration.listing.testEntries directory test.files =
            ((test.files.filter (configuration.listing.IsTest ·)).map
              Path.fileName).map belowBase) := by
  have hmem := List.mem_of_find?_eq_some hfirst
  refine ⟨?_, ListingOptions.listsTests_iff, ?_, ?_, ?_, ?_⟩
  · rw [Configuration.testOutput?, hfirst]
    simp only [Option.bind_eq_bind, Option.bind_some, hdirectory,
      ListingOptions.testListing_eq]
    rfl
  · intro hunicode
    have hnodup : test.files.Nodup := by
      rw [Workspace.files_eq_collect hmem hdirectory]
      exact (Tree.ascending_collect hunicode).nodup
    refine ⟨hnodup, fun hdot => ?_⟩
    refine ((hnodup.filter _).map_on ?_).map belowBase_injective
    intro file hfile other hother
    exact Workspace.eq_of_withoutDirectory_eq hmem hdirectory hdot
      (List.mem_of_mem_filter hfile) (List.mem_of_mem_filter hother)
  · intro habsolute file hfile
    exact Path.withoutDirectory_of_isAbsolute habsolute
      (Workspace.isAbsolute_of_mem_files hmem hdirectory hfile)
  · intro hrelative
    obtain ⟨relatives, hfiles, hrelatives⟩ :=
      Workspace.exists_relatives hmem hdirectory hrelative
    have hbelow : ∀ relative ∈ relatives,
        workspace.tree.LiesBelow workspace.root directory relative :=
      fun relative hmem => (hrelatives relative hmem).1
    refine ⟨relatives, hfiles, hbelow, ?_, ?_⟩
    · rw [hfiles]
      exact ListingOptions.testEntries_relatives hbelow
    · rw [hfiles]
      exact ListingOptions.listsTests_relatives_iff hbelow
  · intro hform hflat
    have hrelative : directory.isAbsolute = false := by
      rw [hform]
      exact directory.isAbsolute_scannedForm
    obtain ⟨relatives, hfiles, hrelatives⟩ :=
      Workspace.exists_relatives hmem hdirectory hrelative
    rw [hfiles]
    apply ListingOptions.listsTests_of_names
      fun relative hmem => (hrelatives relative hmem).1
    intro relative hmem
    have hname := (hrelatives relative hmem).2 hflat
    rw [Path.afterDirectory, if_pos hform, Path.fileName_eq_self hname]

/-! ## Tests in directories inside -/

/-- The standard configuration with one group, which scans the test directory. -/
def Configuration.scanningTests (recursive : Bool) : Configuration :=
  { Configuration.standard with
    groups :=
      [{ SourceGroup.scanning "test".toList "test/".toList [] none with
        recursive }] }

/-- A workspace with a test and a helper in the test directory, a test in a directory
inside, and a helper in a directory for the data of tests. -/
def Workspace.tests : Workspace where
  tree := (((Tree.empty.putFile "test/options.cpp".toList []).putFile
    "test/testtoken.cpp".toList []).putFile "test/sub/testa.cpp".toList
    []).putFile "test/testdata/options.cpp".toList []
  root := ".".toList

theorem findRaw_tests : Workspace.tests.tree.findRaw
    (Path.join ".".toList "test/".toList).raw =
      .ok (.directory (⟨Utf8.encode "test".toList, by decide⟩ ::
        Tree.empty.start)) := by
  decide +kernel

/-- The test group with these files. -/
def CollectedGroup.tests (recursive : Bool) (files : List Path) :
    CollectedGroup :=
  ⟨{ SourceGroup.scanning "test".toList "test/".toList [] none with
    recursive }, files⟩

/-- With the files that the scan finds, the group is the first one with the name of the
test group. -/
theorem find?_collectGroups_tests {recursive : Bool} {files : List Path}
    (hfiles : Workspace.tests.tree.collect ".".toList "test/".toList
      ".cpp".toList recursive = files) :
    (Workspace.tests.collectGroups (.scanningTests recursive)).find?
        (·.group.name = ListingOptions.standard.testGroup) =
      some (.tests recursive files) := by
  have hgroups : Workspace.tests.collectGroups (.scanningTests recursive) =
      [.tests recursive files] :=
    congrArg (fun files => [CollectedGroup.mk _ files]) hfiles
  have hname : (CollectedGroup.tests recursive files).group.name =
      ListingOptions.standard.testGroup := rfl
  rw [hgroups]
  exact List.find?_cons_of_pos (decide_eq_true hname)

/-- Without entering directories, the one test of the test directory is listed. -/
theorem test_listing_exactly_flat :
    (Workspace.tests.collectGroups (.scanningTests false)).find?
        (·.group.name = ListingOptions.standard.testGroup) =
      some (.tests false ["test/options.cpp".toList,
        "test/testtoken.cpp".toList]) ∧
    ListingOptions.standard.testEntries "test/".toList
        ["test/options.cpp".toList, "test/testtoken.cpp".toList] =
      [belowBase "testtoken.cpp".toList] := by
  have hfiles : Workspace.tests.tree.collect ".".toList "test/".toList
      ".cpp".toList false =
        ["test/options.cpp".toList, "test/testtoken.cpp".toList] :=
    Tree.collect_eq_of_perm findRaw_tests (by decide +kernel) (by decide)
  have hfirst := find?_collectGroups_tests hfiles
  obtain ⟨-, -, -, -, -, hflat⟩ := test_listing_exactly Workspace.tests
    (.scanningTests false) hfirst rfl
  have htests : (["test/options.cpp".toList, "test/testtoken.cpp".toList].filter
      (ListingOptions.standard.IsTest ·)).map Path.fileName =
        ["testtoken.cpp".toList] := by decide
  exact ⟨hfirst, (hflat (by decide) rfl).2.trans
    (congrArg (List.map belowBase) htests)⟩

/-- A document that enters the directories of the tests. -/
def recursiveTestsDocument : Text :=
  "[[group]]\nname='test'\ndir='test/'\nrecursive=true\n".toList

theorem parse_recursiveTests :
    Configuration.parse recursiveTestsDocument =
      .ok (.scanningTests true) := by
  have htoml : Toml.parse? recursiveTestsDocument =
      some (.table .header [("group".toList,
        .tables [[("name".toList, .string "test".toList),
          ("dir".toList, .string "test/".toList),
          ("recursive".toList, .boolean true)]])]) := by
    with_unfolding_all rfl
  have hvalue : Configuration.ofValue? (.table .header [("group".toList,
        .tables [[("name".toList, .string "test".toList),
          ("dir".toList, .string "test/".toList),
          ("recursive".toList, .boolean true)]])]) =
      some (.scanningTests true) := by rfl
  exact Configuration.parse_eq_ok htoml hvalue (by rfl)

/-- Where the directories of the tests are entered, a helper is listed because of the
name of its directory, and a test is left out for the same reason. -/
theorem helper_listed_for_directory :
    Configuration.parse recursiveTestsDocument = .ok (.scanningTests true) ∧
    (Workspace.tests.collectGroups (.scanningTests true)).find?
        (·.group.name = ListingOptions.standard.testGroup) =
      some (.tests true ["test/options.cpp".toList,
        "test/sub/testa.cpp".toList, "test/testdata/options.cpp".toList,
        "test/testtoken.cpp".toList]) ∧
    ListingOptions.standard.testEntries "test/".toList
        ["test/options.cpp".toList, "test/sub/testa.cpp".toList,
          "test/testdata/options.cpp".toList, "test/testtoken.cpp".toList] =
      [belowBase "testdata/options.cpp".toList,
        belowBase "testtoken.cpp".toList] ∧
    ListingOptions.standard.IsTest "test/sub/testa.cpp".toList ∧
    ¬ListingOptions.standard.IsTest "test/testdata/options.cpp".toList ∧
    ¬ListingOptions.standard.ListsTests "test/".toList
      ["test/options.cpp".toList, "test/sub/testa.cpp".toList,
        "test/testdata/options.cpp".toList, "test/testtoken.cpp".toList] := by
  have hnames : (List.filter (ListingOptions.standard.Lists "test/".toList ·)
      ["test/options.cpp".toList, "test/sub/testa.cpp".toList,
        "test/testdata/options.cpp".toList, "test/testtoken.cpp".toList]).map
          (Path.withoutDirectory "test/".toList) =
        ["testdata/options.cpp".toList, "testtoken.cpp".toList] := by decide
  have hfiles : Workspace.tests.tree.collect ".".toList "test/".toList
      ".cpp".toList true =
        ["test/options.cpp".toList, "test/sub/testa.cpp".toList,
          "test/testdata/options.cpp".toList, "test/testtoken.cpp".toList] :=
    Tree.collect_eq_of_perm findRaw_tests (by decide +kernel) (by decide)
  refine ⟨parse_recursiveTests, find?_collectGroups_tests hfiles,
    congrArg (List.map belowBase) hnames, by decide, by decide, ?_⟩
  rw [ListingOptions.ListsTests]
  decide

end HeaderMake
