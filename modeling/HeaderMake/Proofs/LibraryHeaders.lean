import HeaderMake.Listing
import HeaderMake.Proofs.Text.Occurrences
import HeaderMake.Tree.Edit
import HeaderMake.Workspace

/-!
# Headers of the library listing

The library listing puts the header of a source at the position that the source has in
the list of sources, after the extra header.  The header is named by what stands before
the first occurrence of the source extension.

For a name that ends in the source extension this is the stem exactly if the extension
occurs nowhere before the end (`header_swaps_exactly`).  The header of `a.cpp.cpp` is
`a.h` (`header_cut_inside_stem`).
-/

namespace HeaderMake

/-! ## The text of the listing -/

/-- What stands before the headers in the library listing. -/
def libraryListingOpening : Text :=
  listingHeader ++ "include($$PWD/pcrerules.pri)\n".toList ++
    "include($$PWD/../externals/externals.pri)\n".toList ++
    "INCLUDEPATH += $$PWD\n".toList

/-- A library listing with these entries in its two sections. -/
def libraryListingOf (headers sources : List Text) : Text :=
  libraryListingOpening ++
    "HEADERS += ".toList ++ List.intercalate listingSeparator headers ++
    "\n\nSOURCES += ".toList ++ List.intercalate listingSeparator sources ++
    "\n".toList

namespace Configuration

variable (configuration : Configuration) (files : List Path)

/-- The entries of the section of headers. -/
def headerEntries : List Text :=
  (configuration.libraryHeaders files).map besideListing

/-- The entries of the section of sources. -/
def sourceEntries : List Text :=
  (configuration.librarySources files).map besideListing

/-- The name of a library file, as the listing takes it from its path. -/
def libraryName (file : Path) : Text :=
  Path.withoutDirectory configuration.layout.library file

theorem libraryListing_eq :
    configuration.libraryListing files =
      libraryListingOf (configuration.headerEntries files)
        (configuration.sourceEntries files) := by
  simp only [libraryListing, libraryListingOf, libraryListingOpening,
    headerEntries, sourceEntries]

end Configuration

theorem besideListing_inj {name other : Text} :
    besideListing name = besideListing other ↔ name = other :=
  List.append_right_inj _

/-! ## Where the extension occurs first -/

namespace Text

/-- The stem with the extension behind it holds no occurrence of the extension that
begins inside the stem. -/
def FirstBehind (stem extension : Text) : Prop :=
  ∀ before after, stem ++ extension = before ++ extension ++ after →
    stem.length ≤ before.length

theorem firstBehind_iff {stem extension : Text} :
    FirstBehind stem extension ↔
      cutAt? extension (stem ++ extension) = some (stem, []) := by
  rw [cutAt?_eq_dropInfix?, dropInfix?_eq_some_iff_first, List.append_nil]
  exact ⟨fun h => ⟨rfl, h⟩, And.right⟩

/-- A cut gives the stem of a text exactly if the extension is not found earlier. -/
theorem eq_stem_iff_firstBehind {stem extension before after : Text}
    (h : cutAt? extension (stem ++ extension) = some (before, after)) :
    before = stem ↔ FirstBehind stem extension := by
  rw [firstBehind_iff, h, Option.some_inj, Prod.mk.injEq, iff_self_and]
  rintro rfl
  have heq := eq_append_of_cutAt? h
  rw [List.append_assoc, List.append_cancel_left_eq] at heq
  exact List.self_eq_append_right.mp heq

end Text

/-! ## Positions -/

/-- With a value for every element, the values stand where the elements stand. -/
theorem getElem?_filterMap_of_isSome {α β : Type} {f : α → Option β}
    {elements : List α} (h : ∀ element ∈ elements, (f element).isSome)
    (i : Nat) : (elements.filterMap f)[i]? = elements[i]?.bind f := by
  induction elements generalizing i with
  | nil => rfl
  | cons element elements ih =>
      obtain ⟨helement, helements⟩ := List.forall_mem_cons.mp h
      obtain ⟨value, hvalue⟩ := Option.isSome_iff_exists.mp helement
      rw [List.filterMap_cons_some hvalue]
      cases i with
      | zero => exact hvalue.symm
      | succ i => exact ih helements i

namespace Configuration

variable {configuration : Configuration} {files : List Path}

theorem isSome_headerOf? {layout : Layout} {name : Text}
    (h : Text.contains layout.sourceExtension name) :
    (layout.headerOf? name).isSome := by
  rwa [Layout.headerOf?, Option.isSome_map]

theorem getElem?_headerEntries
    (hnames : ∀ file ∈ files, Text.contains
      configuration.layout.sourceExtension (configuration.libraryName file))
    {i : Nat} {file : Path} (hfile : files[i]? = some file) :
    (configuration.headerEntries files)[i + 1]? =
      (configuration.layout.headerOf? (configuration.libraryName file)).map
        besideListing := by
  have hheaders := getElem?_filterMap_of_isSome (i := i)
    fun file hmem => isSome_headerOf? (hnames file hmem)
  rw [hfile] at hheaders
  rw [headerEntries, List.getElem?_map, libraryHeaders,
    List.getElem?_cons_succ]
  exact congrArg (Option.map besideListing) hheaders

end Configuration

/-- In the listing of files whose names hold the source extension, a file with the name
`stem ++ sourceExtension` stands under this name among the sources, and the entry at the
same position after the extra header is the stem with the header extension exactly if
the source extension occurs first behind the stem. -/
theorem header_swaps_exactly (configuration : Configuration)
    {files : List Path}
    (hnames : ∀ file ∈ files, Text.contains
      configuration.layout.sourceExtension
      (configuration.libraryName file)) :
    configuration.libraryListing files =
        libraryListingOf (configuration.headerEntries files)
          (configuration.sourceEntries files) ∧
      (configuration.headerEntries files).length = files.length + 1 ∧
      (configuration.headerEntries files)[0]? =
        some (besideListing configuration.listing.extraHeader) ∧
      (configuration.sourceEntries files).length = files.length ∧
      ∀ i file stem, files[i]? = some file →
        configuration.libraryName file =
            stem ++ configuration.layout.sourceExtension →
        (configuration.sourceEntries files)[i]? =
            some (besideListing
              (stem ++ configuration.layout.sourceExtension)) ∧
          ((configuration.headerEntries files)[i + 1]? =
              some (besideListing
                (stem ++ configuration.layout.headerExtension)) ↔
            Text.FirstBehind stem configuration.layout.sourceExtension) := by
  refine ⟨configuration.libraryListing_eq files, ?_, rfl, ?_, ?_⟩
  · rw [Configuration.headerEntries, List.length_map,
      Configuration.libraryHeaders, List.length_cons,
      List.filterMap_length_eq_length.mpr]
    exact fun file hmem => Configuration.isSome_headerOf? (hnames file hmem)
  · rw [Configuration.sourceEntries, Configuration.librarySources,
      List.length_map, List.length_map]
  · intro i file stem hfile hname
    constructor
    · rw [Configuration.sourceEntries, Configuration.librarySources,
        List.getElem?_map, List.getElem?_map, hfile, ← hname]
      rfl
    · have hcontains := hnames file (List.mem_of_getElem? hfile)
      rw [Configuration.getElem?_headerEntries hnames hfile, Layout.headerOf?]
      rw [hname] at hcontains ⊢
      obtain ⟨⟨before, after⟩, hcut⟩ :=
        Option.isSome_iff_exists.mp hcontains
      rw [hcut, ← Text.eq_stem_iff_firstBehind hcut, Option.map_some,
        Option.map_some, Option.some_inj, besideListing_inj]
      exact List.append_left_inj _

/-- A stem with a dot in it keeps the dot in the name of the header. -/
theorem header_swaps_token :
    (∀ file ∈ ["lib/token.list.cpp".toList], Text.contains
        Configuration.standard.layout.sourceExtension
        (Configuration.standard.libraryName file)) ∧
      (Configuration.standard.headerEntries
        ["lib/token.list.cpp".toList])[1]? =
          some (besideListing "token.list.h".toList) := by
  have hnames : ∀ file ∈ ["lib/token.list.cpp".toList], Text.contains
      Configuration.standard.layout.sourceExtension
      (Configuration.standard.libraryName file) := by decide
  have hfirst : Text.FirstBehind "token.list".toList
      Configuration.standard.layout.sourceExtension :=
    Text.firstBehind_iff.mpr (by decide)
  obtain ⟨-, -, -, -, hfiles⟩ :=
    header_swaps_exactly Configuration.standard hnames
  have hfile := hfiles 0 "lib/token.list.cpp".toList "token.list".toList
    rfl rfl
  exact ⟨hnames, hfile.2.mpr hfirst⟩

/-! ## An extension inside the stem -/

/-- A library source whose stem ends in the source extension. -/
def Workspace.doubled : Workspace where
  tree := Tree.empty.putFile "lib/a.cpp.cpp".toList []
  root := ".".toList

/-- A collected library source ends in the source extension, with a stem before it, and
the listing names its header by a part of the stem. -/
theorem header_cut_inside_stem :
    Workspace.doubled.tree.collect Workspace.doubled.root
        Configuration.standard.layout.library
        Configuration.standard.layout.sourceExtension false =
      ["lib/a.cpp.cpp".toList] ∧
    Configuration.standard.libraryName "lib/a.cpp.cpp".toList =
      "a.cpp".toList ++ Configuration.standard.layout.sourceExtension ∧
    Configuration.standard.headerEntries ["lib/a.cpp.cpp".toList] =
      [besideListing "check.h".toList, besideListing "a.h".toList] ∧
    (Configuration.standard.headerEntries ["lib/a.cpp.cpp".toList])[1]? ≠
      some (besideListing
        ("a.cpp".toList ++ Configuration.standard.layout.headerExtension)) := by
  have hcollected : Workspace.doubled.tree.collect ".".toList "lib/".toList
      ".cpp".toList false = ["lib/a.cpp.cpp".toList] := by decide +kernel
  have hheaders : Configuration.standard.libraryHeaders
      ["lib/a.cpp.cpp".toList] = ["check.h".toList, "a.h".toList] := by decide
  have hentries := congrArg (List.map besideListing) hheaders
  refine ⟨hcollected, by decide, hentries, ?_⟩
  rw [Configuration.headerEntries, hheaders, List.map_cons, List.map_cons,
    List.getElem?_cons_succ, List.getElem?_cons_zero, ne_eq, Option.some_inj,
    besideListing_inj]
  decide

end HeaderMake
