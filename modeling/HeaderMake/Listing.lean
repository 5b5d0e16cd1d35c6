import HeaderMake.Collection

/-!
# Project listings

Two files list sources for another build system: the library listing with the headers
and sources of the library, and the test listing with the tests.  They enumerate the
collected sources; no include is followed for them.
-/

namespace HeaderMake

/-- The comment at the top of a listing. -/
def listingHeader : Text :=
  "# no manual edits - this file is autogenerated by dmake\n\n".toList

/-- What stands between two entries of a listing. -/
def listingSeparator : Text :=
  " \\\n           ".toList

/-- A file name in the directory of the listing. -/
def besideListing (name : Text) : Text :=
  "$$\x7bPWD\x7d/".toList ++ name

/-- A file name in the directory that the including project sets. -/
def belowBase (name : Text) : Text :=
  "$$\x7bBASEPATH\x7d/".toList ++ name

/-- The path without the directory it begins with, if it begins with it. -/
def Path.withoutDirectory (directory path : Path) : Path :=
  (Text.dropLeading? directory path).getD path

/-- The header that belongs to a library source: the name up to the first occurrence of
the source extension, with the header extension.  A name without the source extension
has no header. -/
def Layout.headerOf? (layout : Layout) (name : Text) : Option Text :=
  (Text.cutAt? layout.sourceExtension name).map fun (base, _) => base ++ layout.headerExtension

/-- The headers of the library listing: the extra header, then one for each source. -/
def Configuration.libraryHeaders (configuration : Configuration) (files : List Path) :
    List Text :=
  let layout := configuration.layout
  configuration.listing.extraHeader ::
    files.filterMap fun file => layout.headerOf? (Path.withoutDirectory layout.library file)

/-- The sources of the library listing. -/
def Configuration.librarySources (configuration : Configuration) (files : List Path) :
    List Text :=
  files.map (Path.withoutDirectory configuration.layout.library)

/-- The text of the library listing. -/
def Configuration.libraryListing (configuration : Configuration) (files : List Path) : Text :=
  listingHeader ++
    "include($$PWD/pcrerules.pri)\n".toList ++
    "include($$PWD/../externals/externals.pri)\n".toList ++
    "INCLUDEPATH += $$PWD\n".toList ++
    "HEADERS += ".toList ++
    List.intercalate listingSeparator ((configuration.libraryHeaders files).map besideListing) ++
    "\n\nSOURCES += ".toList ++
    List.intercalate listingSeparator ((configuration.librarySources files).map besideListing) ++
    "\n".toList

/-- The sources of the test listing: those whose name from the test directory begins with
the mark of tests. -/
def ListingOptions.testSources (listing : ListingOptions) (files : List Path)
    (directory : Path) : List Text :=
  (files.map (Path.withoutDirectory directory)).filter listing.testMark.isPrefixOf

/-- The text of the test listing. -/
def ListingOptions.testListing (listing : ListingOptions) (files : List Path)
    (directory : Path) : Text :=
  listingHeader ++
    "INCLUDEPATH += ../externals/tinyxml\n".toList ++
    "\n\nSOURCES += ".toList ++
    List.intercalate listingSeparator ((listing.testSources files directory).map belowBase) ++
    "\n".toList

end HeaderMake
