import HeaderMake.Text

/-!
# Paths

A path is a text of segments separated by slashes.  Include lines, source lists and
rules all work on this textual form: nothing here looks at a file system, and two
different texts are two different paths even where they would lead to the same file.

Main statements: a path is its directory followed by its file name, and a path is its
stem followed by its extension.
-/

namespace HeaderMake

/-- A path is written as segments separated by slashes. -/
abbrev Path := Text

namespace Path

/-- A path that begins with a slash does not depend on a directory to start from. -/
def isAbsolute (path : Path) : Bool :=
  path.head? == some '/'

/-- The directory part of a path with the slash that ends it, or nothing when the path
holds no slash. -/
def directory (path : Path) : Path :=
  (path.reverse.dropWhile (· != '/')).reverse

/-- What follows the last slash of a path. -/
def fileName (path : Path) : Text :=
  (path.reverse.takeWhile (· != '/')).reverse

theorem directory_append_fileName (path : Path) : path.directory ++ path.fileName = path := by
  rw [directory, fileName, ← List.reverse_append, List.takeWhile_append_dropWhile,
    List.reverse_reverse]

/-- Drops everything up to and including the first segment `..` that stands between two
slashes.  This is not a normal form: all that stands before the segment is dropped,
however many directories it names, and later segments `..` are kept. -/
def collapseParent (path : Path) : Path :=
  match Text.cutAt? "/../".toList path with
  | some (_, rest) => rest
  | none => path

/-- The path that `path` names from the directory `root`.  An absolute path ignores the
directory, and the empty directory text leaves the path as it is. -/
def join (root path : Path) : Path :=
  if path.isAbsolute || root.isEmpty then path
  else if root.getLast? == some '/' then root ++ path
  else root ++ '/' :: path

/-- The last extension of a path, with its dot, and what stands before it.  A dot that
is the first character of the file name begins no extension. -/
def splitExtension (path : Path) : Path × Text :=
  match path.fileName.reverse.dropWhile (· != '.') with
  | '.' :: c :: reversedBase =>
    (path.directory ++ (c :: reversedBase).reverse,
      '.' :: (path.fileName.reverse.takeWhile (· != '.')).reverse)
  | _ => (path, [])

/-- The path without its last extension. -/
def stem (path : Path) : Path :=
  path.splitExtension.1

/-- The last extension of the path, with its dot, or nothing. -/
def extension (path : Path) : Text :=
  path.splitExtension.2

theorem stem_append_extension (path : Path) : path.stem ++ path.extension = path := by
  unfold stem extension splitExtension
  split
  · next c reversedBase h =>
    have hname : path.fileName.reverse.takeWhile (· != '.') ++ '.' :: c :: reversedBase
        = path.fileName.reverse := by
      rw [← h, List.takeWhile_append_dropWhile]
    have hfile := congrArg List.reverse hname
    rw [List.reverse_reverse] at hfile
    rw [List.append_assoc]
    conv => rhs; rw [← directory_append_fileName path, ← hfile]
    simp
  · simp

end Path
end HeaderMake
