import HeaderMake.Tree.Basic
import HeaderMake.Tree.Error

/-!
# Path lookup

A path is looked up segment by segment, as the system does it: empty segments and `.`
stay where they are but ask for a directory, `..` goes to the parent of the directory
reached so far, a name is looked up in that directory, and a symbolic link is replaced by
the segments of its target.  At most `maxLinks` links are followed for one path, so
lookup ends although links may form cycles: each link uses up one of those that may be
followed, and puts no more steps in front of the rest than the longest link of the tree
has.

`Tree.find` says where a path text leads, `Tree.read` gives the bytes of the file it leads
to, and `Tree.findSlot` gives the location that writing to a path creates or overwrites.
The empty text leads where `.` does, for which it stands as a root.  The system would refuse
it, but joined to any other root no path is empty.
-/

namespace HeaderMake

/-- One segment of a path, as lookup understands it. -/
inductive Step
  /-- An empty segment or `.`: the directory reached so far. -/
  | here
  /-- The segment `..`: the parent directory. -/
  | parent
  /-- The name of an entry. -/
  | name (name : Name)
  /-- A segment too long to name an entry. -/
  | overlong
  deriving DecidableEq

/-- The meaning of one segment.  A segment of a path without NUL that is neither empty
nor one of the dot segments can only be too long to be a name. -/
def Step.ofSegment (segment : Bytes) : Step :=
  if segment = [] ∨ segment = [RawPath.dot] then .here
  else if segment = [RawPath.dot, RawPath.dot] then .parent
  else if h : Name.Valid segment then .name ⟨segment, h⟩
  else .overlong

/-- The steps of a path, from its first segment to its last. -/
def RawPath.steps (path : RawPath) : List Step :=
  (path.splitOn slash).map Step.ofSegment

/-- The steps of a path that is opened for writing.  A path that ends in a slash can only
name a directory, whatever its last segment is, so that segment is not looked up. -/
def RawPath.writeSteps (path : RawPath) : List Step :=
  if path.getLast? = some slash then
    (path.dropTrailingSlashes.splitOn slash).dropLast.map Step.ofSegment ++ [.here]
  else path.steps

/-- The number of steps that stand in for an entry where it is a link. -/
def Entry.stepCount : Entry → Nat
  | .link target => max target.steps.length target.writeSteps.length
  | _ => 0

/-- Where a lookup ends. -/
inductive Found
  | file (location : Location) (content : Bytes)
  | directory (location : Location)
  deriving DecidableEq

/-- The number of symbolic links that are followed for one path. -/
def maxLinks : Nat := 40

/-- The number of bytes that a path may have. -/
def maxPathBytes : Nat := 4095

namespace Tree

/-- The directory in which the first segment of a path is looked up, when relative paths
are looked up from `directory`. -/
def origin (directory : Location) (path : RawPath) : Location :=
  if path.isAbsolute then [] else directory

/-- The most steps that stand in for one link of the tree. -/
def longestLink (tree : Tree) : Nat :=
  (tree.entries.map (·.2.stepCount)).max?.getD 0

theorem stepCount_le_longestLink {tree : Tree} {name : Name} {parent : Location}
    {entry : Entry} (h : tree.lookup (name :: parent) = some entry) :
    entry.stepCount ≤ tree.longestLink :=
  List.le_max?_getD_of_mem (List.mem_map_of_mem (mem_entries_of_lookup h))

/-- Follows the steps of a path from a directory.  A link on the way is replaced by the
steps of its target, at the cost of one of the links that may still be followed. -/
def walk (tree : Tree) (links : Nat) (directory : Location) :
    List Step → Except FileError Found
  | [] => .ok (.directory directory)
  | .here :: rest => tree.walk links directory rest
  | .parent :: rest => tree.walk links directory.tail rest
  | .overlong :: _ => .error .nameTooLong
  | .name name :: rest =>
    match _hentry : tree.lookup (name :: directory) with
    | none => .error .notFound
    | some .directory => tree.walk links (name :: directory) rest
    | some (.file content) =>
      if rest.isEmpty then .ok (.file (name :: directory) content)
      else .error .notDirectory
    | some (.link target) =>
      match links with
      | 0 => .error .tooManyLinks
      | left + 1 => tree.walk left (origin directory target) (target.steps ++ rest)
termination_by steps => links * tree.longestLink + steps.length
decreasing_by
  · simp
  · simp
  · simp
  · have hlongest := Nat.le_trans (Nat.le_max_left ..)
      (stepCount_le_longestLink _hentry)
    simp only [List.length_append, List.length_cons, Nat.succ_mul]
    omega

/-- Refuses the paths that no lookup is begun for. -/
def checkPath (path : RawPath) : Except FileError Unit :=
  if 0 ∈ path then .error .nulInPath
  else if maxPathBytes < path.length then .error .nameTooLong
  else .ok ()

/-- What a path leads to, links followed. -/
def findRaw (tree : Tree) (path : RawPath) : Except FileError Found := do
  checkPath path
  tree.walk maxLinks (origin tree.start path) path.steps

/-- What a path text leads to, links followed. -/
def find (tree : Tree) (path : Path) : Except FileError Found :=
  tree.findRaw path.raw

/-- Whether a path text leads to anything. -/
def pathExists (tree : Tree) (path : Path) : Bool :=
  (tree.find path).isOk

/-- The bytes of the regular file that a path leads to. -/
def read (tree : Tree) (path : Path) : Except FileError Bytes := do
  match ← tree.find path with
  | .file _ content => return content
  | .directory _ => .error .isDirectory

/-- The location that opening a path for writing creates or overwrites.  The directory
part has to exist; the last segment is a new name, a regular file, or a link, which is
followed even when it leads to nothing yet. -/
def slot (tree : Tree) (links : Nat) (directory : Location) :
    List Step → Except FileError Location
  | [] => .error .isDirectory
  | .here :: rest => tree.slot links directory rest
  | .parent :: rest => tree.slot links directory.tail rest
  | .overlong :: _ => .error .nameTooLong
  | [.name name] =>
    match _hentry : tree.lookup (name :: directory) with
    | none => .ok (name :: directory)
    | some (.file _) => .ok (name :: directory)
    | some .directory => .error .isDirectory
    | some (.link target) =>
      match links with
      | 0 => .error .tooManyLinks
      | left + 1 => tree.slot left (origin directory target) target.writeSteps
  | .name name :: rest =>
    match _hentry : tree.lookup (name :: directory) with
    | none => .error .notFound
    | some (.file _) => .error .notDirectory
    | some .directory => tree.slot links (name :: directory) rest
    | some (.link target) =>
      match links with
      | 0 => .error .tooManyLinks
      | left + 1 => tree.slot left (origin directory target) (target.steps ++ rest)
termination_by steps => links * tree.longestLink + steps.length
decreasing_by
  · simp
  · simp
  · have hlongest := Nat.le_trans (Nat.le_max_right ..)
      (stepCount_le_longestLink _hentry)
    simp only [List.length_cons, List.length_nil, Nat.succ_mul]
    omega
  · simp
  · have hlongest := Nat.le_trans (Nat.le_max_left ..)
      (stepCount_le_longestLink _hentry)
    simp only [List.length_append, List.length_cons, Nat.succ_mul]
    omega

/-- The location that writing to a path creates or overwrites. -/
def findSlot (tree : Tree) (path : Path) : Except FileError Location := do
  checkPath path.raw
  tree.slot maxLinks (origin tree.start path.raw) path.raw.writeSteps

/-- The tree after `content` has been written to the file that a path denotes, which is
created when it is missing and loses its former content. -/
def write (tree : Tree) (path : Path) (content : Bytes) : Except FileError Tree := do
  let location ← tree.findSlot path
  return tree.insert location (.file content)

end Tree
end HeaderMake
