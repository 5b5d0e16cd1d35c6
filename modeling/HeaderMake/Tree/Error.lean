import HeaderMake.Text

/-!
# Why a path cannot be opened

The causes for which reading or writing a path fails, and the wording of each.  A tree
holds no permissions: whatever stands in it may be read, entered and written, so nothing is
refused for want of a right to it.
-/

namespace HeaderMake

/-- Why a path cannot be opened, read or written. -/
inductive FileError
  /-- A segment of the path names nothing. -/
  | notFound
  /-- A segment that is not the last names a regular file. -/
  | notDirectory
  /-- The path leads to a directory where a file is wanted. -/
  | isDirectory
  /-- The path or one of its segments is longer than the system allows. -/
  | nameTooLong
  /-- More symbolic links stand on the way than are followed for one path. -/
  | tooManyLinks
  /-- The path holds a NUL character, which no name can hold. -/
  | nulInPath
  deriving DecidableEq, Repr

/-- The system's wording of the cause, with its number where it has one. -/
def FileError.message : FileError → Text
  | notFound => "No such file or directory (os error 2)".toList
  | notDirectory => "Not a directory (os error 20)".toList
  | isDirectory => "Is a directory (os error 21)".toList
  | nameTooLong => "File name too long (os error 36)".toList
  | tooManyLinks => "Too many levels of symbolic links (os error 40)".toList
  | nulInPath => "file name contained an unexpected NUL byte".toList

end HeaderMake
