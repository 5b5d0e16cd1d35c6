import HeaderMake.Makefile.ObjectList
import HeaderMake.Proofs.LibraryHeaders
import HeaderMake.Proofs.TestListing
import HeaderMake.Proofs.Text.Splitting

/-!
# Lists of continued lines

Object lists and the sections of the listings write one entry a line.  A backslash at the
end of a line says that the list goes on, and the next line is indented.

Such a list is split into its entries again where its lines are continued, and its last
line is not continued, however many entries there are (`Text.showsEntries_intercalate`).
The lists can be found in the texts that hold them: behind the padded name of a variable,
and behind the words at the head of a section (`continued_lists_read_back`).
-/

namespace HeaderMake

namespace Text

/-! ## Cutting at marks with a line feed -/

/-- A text that does not hold the character with which a mark begins has no part in where
the mark is found behind it. -/
theorem cutAt?_append_of_head_not_mem {c : Char} {start : Text}
    (h : c ∉ start) (mark text : Text) :
    cutAt? (c :: mark) (start ++ text) =
      (cutAt? (c :: mark) text).map fun (before, after) =>
        (start ++ before, after) := by
  induction start with
  | nil => exact Option.map_id'.symm
  | cons first start ih =>
      rw [List.mem_cons, not_or] at h
      rw [List.cons_append, cutAt?_cons_of_none, ih h.2, Option.map_map]
      · rfl
      · simp [dropLeading?, h.1]

/-- A text that does not hold the first `c` of a mark ends where the mark behind it
begins, even if it holds what stands before this `c` in the mark. -/
theorem cutAt?_append_mark_of_not_mem {c : Char} {start entry : Text}
    (hstart : c ∉ start) (hentry : c ∉ entry) (tail rest : Text) :
    cutAt? (start ++ c :: tail) (entry ++ (start ++ c :: tail ++ rest)) =
      some (entry, rest) := by
  rw [cutAt?_eq_dropInfix?, dropInfix?_eq_some_iff_first]
  refine ⟨(List.append_assoc _ _ _).symm, ?_⟩
  intro before after heq
  -- The first `c` of the text is the one in the mark behind the entry.
  have hfirst : cutAt? [c] ((entry ++ start) ++ c :: (tail ++ rest)) =
      some (entry ++ start, tail ++ rest) :=
    cutAt?_singleton (by simp [hstart, hentry]) _
  have hother : (entry ++ start) ++ c :: (tail ++ rest) =
      (before ++ start) ++ [c] ++ (tail ++ after) := by
    simpa using heq
  have hle := length_le_of_cutAt? hfirst hother
  simp only [List.length_append] at hle
  omega

/-! ## Entries of a list -/

/-- What ends a line that is continued, and the indentation of the next one. -/
def continuation (indent : Nat) : Text :=
  " \\".toList ++ '\n' :: List.replicate indent ' '

/-- A text that can be an entry: it fills a line, and the line does not look as if it were
continued. -/
structure IsEntry (entry : Text) : Prop where
  ne_nil : entry ≠ []
  newline_not_mem : '\n' ∉ entry
  not_continued : entry.getLast? ≠ some '\\'

instance (entry : Text) : Decidable entry.IsEntry :=
  decidable_of_iff
    (entry ≠ [] ∧ '\n' ∉ entry ∧ entry.getLast? ≠ some '\\')
    ⟨fun ⟨hne, hnewline, hlast⟩ => ⟨hne, hnewline, hlast⟩,
      fun ⟨hne, hnewline, hlast⟩ => ⟨hne, hnewline, hlast⟩⟩

/-- The entries of a list: what stands between the separators.  An empty list has none. -/
def listEntries (separator list : Text) : List Text :=
  if list = [] then [] else pieces separator list

/-- The list has these entries, and no continuation is left over behind the last one. -/
structure ShowsEntries (separator list : Text) (entries : List Text) :
    Prop where
  listEntries_eq : listEntries separator list = entries
  complete : list.getLast? ≠ some '\\'

theorem exists_intercalate_concat (separator : Text) (entries : List Text)
    (last : Text) :
    ∃ start, List.intercalate separator (entries ++ [last]) =
      start ++ last := by
  induction entries with
  | nil => exact ⟨[], List.intercalate_singleton⟩
  | cons entry entries ih =>
      obtain ⟨start, hstart⟩ := ih
      refine ⟨entry ++ separator ++ start, ?_⟩
      rw [List.cons_append, List.intercalate_cons_of_ne_nil (by simp), hstart,
        List.append_assoc _ start]

/-- Entries that are joined by continuations are shown by the list. -/
theorem showsEntries_intercalate (indent : Nat) {entries : List Text}
    (h : ∀ entry ∈ entries, entry.IsEntry) :
    ShowsEntries (continuation indent)
      (List.intercalate (continuation indent) entries) entries := by
  rcases List.eq_nil_or_concat' entries with rfl | ⟨others, last, rfl⟩
  · exact ⟨rfl, by simp⟩
  · have hlast := h last (by simp)
    obtain ⟨start, hstart⟩ :=
      exists_intercalate_concat (continuation indent) others last
    constructor
    · rw [listEntries, if_neg (by simp [hstart, hlast.ne_nil])]
      apply pieces_intercalate (by simp [continuation]) (by simp)
      intro entry hentry rest
      exact cutAt?_append_mark_of_not_mem (by decide)
        (h entry hentry).newline_not_mem _ rest
    · rw [hstart, List.getLast?_append_of_ne_nil _ hlast.ne_nil]
      exact hlast.not_continued

/-- A list of indented lines holds no empty line, so an empty line behind it is found. -/
theorem cutAt?_intercalate_append (indent : Nat) {entries : List Text}
    (h : ∀ entry ∈ entries, '\n' ∉ entry) (mark rest : Text) :
    cutAt? ('\n' :: '\n' :: mark)
        (List.intercalate (continuation (indent + 1)) entries ++
          ('\n' :: '\n' :: mark ++ rest)) =
      some (List.intercalate (continuation (indent + 1)) entries, rest) := by
  induction entries with
  | nil => exact cutAt?_mark_append _ rest
  | cons entry entries ih =>
      obtain ⟨hentry, hentries⟩ := List.forall_mem_cons.mp h
      rcases entries with - | ⟨next, others⟩
      · rw [List.intercalate_singleton]
        exact cutAt?_append_mark hentry rest
      · -- The line feed behind the entry is followed by a blank.
        have hline : '\n' ∉ entry ++ " \\".toList := by
          simp [hentry]
        have hblanks : '\n' ∉ List.replicate (indent + 1) ' ' := by
          simp [List.mem_replicate]
        have htext : ∀ text : Text,
            entry ++ continuation (indent + 1) ++ text =
              (entry ++ " \\".toList) ++
                '\n' :: (List.replicate (indent + 1) ' ' ++ text) := by
          simp [continuation]
        rw [List.intercalate_cons_cons, List.append_assoc, htext,
          cutAt?_append_of_head_not_mem hline, cutAt?_cons_of_none,
          cutAt?_append_of_head_not_mem hblanks, ih hentries]
        · simp [htext]
        · simp [dropLeading?, List.replicate_succ]

end Text

/-! ## Object lists -/

/-- The name of a variable with the sign behind it, padded to the column in which objects
begin. -/
def objectListHead (name : Text) : Text :=
  (name ++ " =".toList).rightpad objectColumn ' '

/-- The name of the variable, which ends at the first blank, and the list of its objects,
which ends with an empty line. -/
def readObjectList? (text : Text) : Option (Text × Text) := do
  let (name, _) ← Text.cutAt? [' '] text
  let rest ← Text.dropLeading? (objectListHead name) text
  let list ← Text.dropEnding? "\n\n".toList rest
  return (name, list)

theorem readObjectList?_objectList {name : Text} (h : ' ' ∉ name)
    (layout : Layout) (files : List Path) :
    readObjectList? (layout.objectList name files) =
      some (name, List.intercalate objectSeparator
        (files.map layout.objectFile)) := by
  have htext : layout.objectList name files =
      objectListHead name ++ (List.intercalate objectSeparator
        (files.map layout.objectFile) ++ "\n\n".toList) :=
    List.append_assoc _ _ _
  obtain ⟨rest, hname⟩ : ∃ rest,
      Text.cutAt? [' '] (layout.objectList name files) =
        some (name, rest) := by
    rw [htext, objectListHead, List.rightpad, List.append_assoc,
      List.append_assoc]
    exact ⟨_, Text.cutAt?_singleton h _⟩
  have hrest : Text.dropLeading? (objectListHead name)
      (layout.objectList name files) = some _ :=
    Text.dropLeading?_eq_some_iff.mpr htext
  simp only [readObjectList?, hname, hrest, Text.dropEnding?_append,
    Option.bind_eq_bind, Option.bind_some]
  rfl

/-! ## Sections of listings -/

/-- The lists of headers and of sources in a library listing.  The headers end with an
empty line. -/
def librarySections? (text : Text) : Option (Text × Text) := do
  let rest ← Text.dropLeading?
    (libraryListingOpening ++ "HEADERS += ".toList) text
  let (headers, rest) ← Text.cutAt? "\n\nSOURCES += ".toList rest
  let sources ← Text.dropEnding? "\n".toList rest
  return (headers, sources)

/-- What stands before the sources in the test listing. -/
def testListingOpening : Text :=
  listingHeader ++ "INCLUDEPATH += ../externals/tinyxml\n".toList ++
    "\n\nSOURCES += ".toList

/-- The list of sources in a test listing. -/
def testSection? (text : Text) : Option Text := do
  let rest ← Text.dropLeading? testListingOpening text
  Text.dropEnding? "\n".toList rest

theorem listingSeparator_eq : listingSeparator = Text.continuation 11 := by
  decide

theorem showsEntries_listing {entries : List Text}
    (h : ∀ entry ∈ entries, entry.IsEntry) :
    Text.ShowsEntries listingSeparator
      (List.intercalate listingSeparator entries) entries := by
  rw [listingSeparator_eq]
  exact Text.showsEntries_intercalate 11 h

theorem librarySections?_libraryListingOf {headers : List Text}
    (h : ∀ entry ∈ headers, '\n' ∉ entry) (sources : List Text) :
    librarySections? (libraryListingOf headers sources) =
      some (List.intercalate listingSeparator headers,
        List.intercalate listingSeparator sources) := by
  have hrest : Text.dropLeading?
      (libraryListingOpening ++ "HEADERS += ".toList)
      (libraryListingOf headers sources) =
        some (List.intercalate listingSeparator headers ++
          ("\n\nSOURCES += ".toList ++
            (List.intercalate listingSeparator sources ++ "\n".toList))) := by
    rw [Text.dropLeading?_eq_some_iff, libraryListingOf]
    simp only [List.append_assoc]
  have hheaders : Text.cutAt? "\n\nSOURCES += ".toList
      (List.intercalate listingSeparator headers ++
        ("\n\nSOURCES += ".toList ++
          (List.intercalate listingSeparator sources ++ "\n".toList))) =
        some (List.intercalate listingSeparator headers,
          List.intercalate listingSeparator sources ++ "\n".toList) := by
    rw [listingSeparator_eq]
    exact Text.cutAt?_intercalate_append 10 h _ _
  simp only [librarySections?, hrest, hheaders, Text.dropEnding?_append,
    Option.bind_eq_bind, Option.bind_some]
  rfl

theorem headerEntries_eq {configuration : Configuration}
    {files : List Path} :
    configuration.headerEntries files =
      besideListing configuration.listing.extraHeader ::
        files.filterMap fun file =>
          (configuration.layout.headerOf? (Path.withoutDirectory
            configuration.layout.library file)).map besideListing := by
  rw [Configuration.headerEntries, Configuration.libraryHeaders,
    List.map_cons, List.map_filterMap]

theorem sourceEntries_eq {configuration : Configuration}
    {files : List Path} :
    configuration.sourceEntries files = files.map fun file =>
      besideListing (Path.withoutDirectory configuration.layout.library
        file) :=
  List.map_map

theorem testEntries_eq {listing : ListingOptions} {files : List Path}
    {directory : Path} :
    listing.testEntries directory files =
      (files.filter fun file => listing.testMark <+:
        Path.withoutDirectory directory file).map fun file =>
          belowBase (Path.withoutDirectory directory file) :=
  List.map_map

theorem testSection?_testListingOf (entries : List Text) :
    testSection? (testListingOf entries) =
      some (List.intercalate listingSeparator entries) := by
  have hrest : Text.dropLeading? testListingOpening (testListingOf entries) =
      some _ := Text.dropLeading?_eq_some_iff.mpr (List.append_assoc _ _ _)
  rw [testSection?, hrest]
  exact Text.dropEnding?_append _ _

/-! ## All lists -/

/-- If what is listed can be written as entries, the lists of the generated files are read
back as these entries: the objects of a variable, behind whose name only a blank must not
stand; the extra header and the header of each library source that has one, and these
sources without the library directory; and the files of the test group that begin with the
mark of tests once the directory is taken off.  No list ends in a continuation. -/
theorem continued_lists_read_back (configuration : Configuration) :
    (∀ (name : Text) (files : List Path), ' ' ∉ name →
      (∀ file ∈ files, (configuration.layout.objectFile file).IsEntry) →
      ∃ list,
        readObjectList? (configuration.layout.objectList name files) =
          some (name, list) ∧
        Text.ShowsEntries objectSeparator list
          (files.map configuration.layout.objectFile)) ∧
    (∀ files : List Path,
      (besideListing configuration.listing.extraHeader).IsEntry →
      (∀ file ∈ files, ∀ header ∈ configuration.layout.headerOf?
        (Path.withoutDirectory configuration.layout.library file),
        (besideListing header).IsEntry) →
      (∀ file ∈ files, (besideListing (Path.withoutDirectory
        configuration.layout.library file)).IsEntry) →
      ∃ headers sources,
        librarySections? (configuration.libraryListing files) =
          some (headers, sources) ∧
        Text.ShowsEntries listingSeparator headers
          (besideListing configuration.listing.extraHeader ::
            files.filterMap fun file =>
              (configuration.layout.headerOf? (Path.withoutDirectory
                configuration.layout.library file)).map besideListing) ∧
        Text.ShowsEntries listingSeparator sources
          (files.map fun file => besideListing (Path.withoutDirectory
            configuration.layout.library file))) ∧
    ∀ (files : List Path) (directory : Path),
      (∀ file ∈ files, configuration.listing.testMark <+:
          Path.withoutDirectory directory file →
        (belowBase (Path.withoutDirectory directory file)).IsEntry) →
      ∃ list,
        testSection? (configuration.listing.testListing files directory) =
          some list ∧
        Text.ShowsEntries listingSeparator list
          ((files.filter fun file => configuration.listing.testMark <+:
            Path.withoutDirectory directory file).map fun file =>
              belowBase (Path.withoutDirectory directory file)) := by
  refine ⟨?_, ?_, ?_⟩
  · intro name files hname hentries
    exact ⟨_, readObjectList?_objectList hname _ files,
      Text.showsEntries_intercalate objectColumn
        (List.forall_mem_map.mpr hentries)⟩
  · intro files hextra hheaders hsources
    have hentries : ∀ entry ∈ besideListing
        configuration.listing.extraHeader :: files.filterMap fun file =>
          (configuration.layout.headerOf? (Path.withoutDirectory
            configuration.layout.library file)).map besideListing,
        entry.IsEntry := by
      rw [List.forall_mem_cons]
      refine ⟨hextra, fun entry hentry => ?_⟩
      obtain ⟨file, hfile, hmap⟩ := List.mem_filterMap.mp hentry
      obtain ⟨header, hheader, rfl⟩ := Option.map_eq_some_iff.mp hmap
      exact hheaders file hfile header hheader
    have hsections := librarySections?_libraryListingOf
      (fun entry hentry => (hentries entry hentry).newline_not_mem)
      (configuration.sourceEntries files)
    rw [← headerEntries_eq, ← configuration.libraryListing_eq,
      sourceEntries_eq] at hsections
    refine ⟨_, _, hsections, ?_,
      showsEntries_listing (List.forall_mem_map.mpr hsources)⟩
    rw [headerEntries_eq]
    exact showsEntries_listing hentries
  · intro files directory hentries
    rw [ListingOptions.testListing_eq, testEntries_eq]
    refine ⟨_, testSection?_testListingOf _, showsEntries_listing ?_⟩
    rw [List.forall_mem_map]
    intro file hfile
    obtain ⟨hmem, hmark⟩ := List.mem_filter.mp hfile
    exact hentries file hmem (of_decide_eq_true hmark)

/-- Entries with blanks and backslashes in them, behind a name that is longer than the
column of the objects; a library with a file that has no header; and a test group whose
last file is no test. -/
theorem continued_lists_read_back_spaced :
    (∃ list,
      readObjectList? (Layout.standard.objectList "LIBRARY_OBJECTS".toList
        ["lib/ a b .cpp".toList, "lib/c\\ \\d.cpp".toList]) =
          some ("LIBRARY_OBJECTS".toList, list) ∧
      Text.ShowsEntries objectSeparator list
        ["$(SRCDIR)/ a b .o".toList, "$(SRCDIR)/c\\ \\d.o".toList]) ∧
    (∃ headers sources,
      librarySections? (Configuration.standard.libraryListing
        ["lib/ a b .cpp".toList, "lib/README".toList,
          "lib/c\\ \\d.cpp".toList]) = some (headers, sources) ∧
      Text.ShowsEntries listingSeparator headers
        [besideListing "check.h".toList, besideListing " a b .h".toList,
          besideListing "c\\ \\d.h".toList] ∧
      Text.ShowsEntries listingSeparator sources
        [besideListing " a b .cpp".toList, besideListing "README".toList,
          besideListing "c\\ \\d.cpp".toList]) ∧
    ∃ list,
      testSection? (ListingOptions.standard.testListing
        ["test/testa.cpp".toList, "test/test b\\.cpp".toList,
          "test/options.cpp".toList] "test/".toList) = some list ∧
      Text.ShowsEntries listingSeparator list
        [belowBase "testa.cpp".toList, belowBase "test b\\.cpp".toList] := by
  obtain ⟨hobjects, hlibrary, htests⟩ :=
    continued_lists_read_back Configuration.standard
  refine ⟨?_, ?_, ?_⟩
  · exact hobjects "LIBRARY_OBJECTS".toList
      ["lib/ a b .cpp".toList, "lib/c\\ \\d.cpp".toList]
      (by decide) (by decide)
  · exact hlibrary ["lib/ a b .cpp".toList, "lib/README".toList,
      "lib/c\\ \\d.cpp".toList] (by decide) (by decide) (by decide)
  · exact htests ["test/testa.cpp".toList, "test/test b\\.cpp".toList,
      "test/options.cpp".toList] "test/".toList (by decide)

end HeaderMake
