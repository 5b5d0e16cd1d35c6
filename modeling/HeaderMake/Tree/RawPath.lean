import HeaderMake.Path
import HeaderMake.Text.Utf8

/-!
# Paths as the system takes them

The system knows neither characters nor encodings.  A path is handed to it as bytes, in
which slashes separate segments, and the entries of a directory are named by bytes that
need not be UTF-8.  A path text is handed over as its encoding (`Path.raw`); what a scan
goes along is a `RawPath`, and only its last part is turned into a text again.
-/

namespace HeaderMake

/-- A path as bytes. -/
abbrev RawPath := Bytes

/-- The bytes of a path text. -/
def Path.raw (path : Path) : RawPath :=
  Utf8.encode path

namespace RawPath

/-- The byte between two segments. -/
def slash : UInt8 := 0x2F

/-- The byte of which the segments with a meaning of their own are made. -/
def dot : UInt8 := 0x2E

/-- A path that begins with a slash does not depend on a directory to start from. -/
def isAbsolute (path : RawPath) : Bool :=
  path.head? == some slash

/-- The path that `path` names from the directory `root`, as `Path.join` has it for
texts. -/
def join (root path : RawPath) : RawPath :=
  if path.isAbsolute || root.isEmpty then path
  else if root.getLast? == some slash then root ++ path
  else root ++ slash :: path

/-- The path without the slashes at its end. -/
def dropTrailingSlashes (path : RawPath) : RawPath :=
  (path.reverse.dropWhile (· == slash)).reverse

/-- The segments that are neither empty nor `.`. -/
def plainSegments (path : RawPath) : List Bytes :=
  (path.splitOn slash).filter fun segment => segment != [] && segment != [dot]

/-- The segments that lead from `root` to `path`, if the one begins the other: both are
absolute or both are relative, and the segments of `root` come first in `path`.  Empty and
`.` segments do not count, and `..` counts as it stands.

A `.` in front of a relative path is left out like any other: a path that is taken from a
root begins with it just where the root does, and the empty root stands for `.`. -/
def below? (root path : RawPath) : Option (List Bytes) :=
  if root.isAbsolute = path.isAbsolute then
    root.plainSegments.isPrefixOf? path.plainSegments
  else none

/-- The text of the path that leads from `root` to `path`, each segment read lossily. -/
def relative? (root path : RawPath) : Option Path :=
  (root.below? path).map fun segments =>
    List.intercalate ['/'] (segments.map Utf8.decodeLossy)

end RawPath
end HeaderMake
