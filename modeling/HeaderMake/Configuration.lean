import HeaderMake.Layout

/-!
# Configuration

What a run is told about its source tree: the layout, the groups of sources, the order of
the object lists, the compiler flags and the project listings.  Every field has a value
in the standard configuration, which describes a tree with a library, a command line, a
test runner, vendored sources and tools.
-/

namespace HeaderMake

/-- A group of sources that are compiled alike. -/
structure SourceGroup where
  name : Text
  /-- The directory that is scanned for the sources.  It takes precedence over `files`. -/
  directory : Option Path
  /-- The sources of a group that is not scanned. -/
  files : List Path
  /-- Whether the directories inside the scanned directory are scanned too. -/
  recursive : Bool
  /-- The include options of the compiler. -/
  includeFlags : Text
  /-- The variable that holds the objects of the group. -/
  objectsVariable : Option Text
  /-- Whether the sources are not ours, so that warnings are suppressed. -/
  vendored : Bool
  /-- Whether the group counts when a run checks that there are sources at all. -/
  tracked : Bool
  deriving DecidableEq

/-- A group that scans one directory and counts as tracked. -/
def SourceGroup.scanning (name directory includeFlags : Text) (objectsVariable : Option Text) :
    SourceGroup where
  name
  directory := some directory
  files := []
  recursive := false
  includeFlags
  objectsVariable
  vendored := false
  tracked := true

/-- The compiler flags of the two presets. -/
structure FlagPresets where
  release : Text
  debug : Text
  deriving DecidableEq

/-- The flags of the preset that a run asks for. -/
def FlagPresets.select (flags : FlagPresets) (release : Bool) : Text :=
  if release then flags.release else flags.debug

/-- Which project listings are written, and what they list. -/
structure ListingOptions where
  /-- Where the library listing is written. -/
  libraryFile : Path
  /-- Where the test listing is written. -/
  testFile : Path
  /-- The group that the test listing enumerates. -/
  testGroup : Text
  /-- The header that is listed ahead of those of the sources. -/
  extraHeader : Text
  /-- What the name of a listed test begins with. -/
  testMark : Text
  deriving DecidableEq

/-- What a run is told about its source tree. -/
structure Configuration where
  /-- Where the Makefile is written. -/
  makefile : Path
  layout : Layout
  groups : List SourceGroup
  /-- The groups whose object lists come first, in order. -/
  objectLists : List Text
  flags : FlagPresets
  listing : ListingOptions

/-- The first group of that name. -/
def Configuration.group? (configuration : Configuration) (name : Text) : Option SourceGroup :=
  configuration.groups.find? (·.name = name)

/-- The groups of a conventional tree. -/
def SourceGroup.standard : List SourceGroup :=
  [ .scanning "lib".toList "lib/".toList "$\x7bINCLUDE_FOR_LIB\x7d".toList
      (some "LIBOBJ".toList),
    .scanning "cli".toList "cli/".toList "$\x7bINCLUDE_FOR_CLI\x7d".toList
      (some "CLIOBJ".toList),
    .scanning "test".toList "test/".toList "$\x7bINCLUDE_FOR_TEST\x7d".toList
      (some "TESTOBJ".toList),
    { name := "externals".toList
      directory := none
      files := ["externals/simplecpp/simplecpp.cpp".toList,
        "externals/tinyxml/tinyxml2.cpp".toList]
      recursive := false
      includeFlags := []
      objectsVariable := some "EXTOBJ".toList
      vendored := true
      tracked := false },
    { SourceGroup.scanning "tools".toList "tools/".toList "$\x7bINCLUDE_FOR_LIB\x7d".toList
        none with
      tracked := false } ]

/-- The flags of a conventional tree. -/
def FlagPresets.standard : FlagPresets where
  release := "-std=c++0x -O2 -include lib/cxx11emu.h -DNDEBUG -Wall -Wno-sign-compare".toList
  debug := ("-include lib/cxx11emu.h -pedantic -Wall -Wextra -Wabi -Wcast-qual -Wfloat-equal " ++
    "-Wmissing-declarations -Wmissing-format-attribute -Wno-long-long -Wpacked " ++
    "-Wredundant-decls -Wshadow -Wno-missing-field-initializers -Wno-missing-braces " ++
    "-Wno-sign-compare -Wno-multichar $(CPPCHK_GLIBCXX_DEBUG) -g").toList

/-- The listings of a conventional tree. -/
def ListingOptions.standard : ListingOptions where
  libraryFile := "lib/lib.pri".toList
  testFile := "test/testfiles.pri".toList
  testGroup := "test".toList
  extraHeader := "check.h".toList
  testMark := "test".toList

/-- The configuration of a conventional tree. -/
def Configuration.standard : Configuration where
  makefile := "Makefile".toList
  layout := .standard
  groups := SourceGroup.standard
  objectLists := ["lib".toList, "externals".toList, "cli".toList, "test".toList]
  flags := .standard
  listing := .standard

end HeaderMake
