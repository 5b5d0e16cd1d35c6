import HeaderMake.Layout

/-!
# Paths of objects

Objects are built beside their sources, except those of the library: there the library
directory is replaced by a token, so that a Makefile can move them elsewhere by setting
one variable.
-/

namespace HeaderMake
namespace Layout

/-- The library directory without the slashes at its end. -/
def libraryDirectory (layout : Layout) : Path :=
  Text.dropTrailingSlashes layout.library

/-- The path with the library directory replaced by the build directory.  A path that
lies elsewhere, or only shares a beginning with the library, is kept. -/
def inBuildDirectory (layout : Layout) (path : Path) : Path :=
  match Text.dropLeading? layout.libraryDirectory path with
  | some ('/' :: rest) => layout.buildDirectory ++ '/' :: rest
  | _ => path

/-- The object that a source is compiled to. -/
def objectFile (layout : Layout) (source : Path) : Path :=
  layout.inBuildDirectory (source.stem ++ layout.objectExtension)

end Layout
end HeaderMake
