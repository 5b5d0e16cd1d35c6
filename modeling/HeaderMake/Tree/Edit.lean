import HeaderMake.Tree.Lookup

/-!
# Building and comparing trees

Operations that set a tree up before a run: directories, files and links are added by
path, with the directories above them made as needed, and entries are removed by path.
`Tree.changes` compares two trees by the regular files that are new or hold other bytes.
-/

namespace HeaderMake
namespace Tree

/-- The tree with a directory at the path, if the path leads to nothing yet and its
parent is a directory. -/
def makeDirectory (tree : Tree) (path : Path) : Tree :=
  if tree.pathExists path then tree
  else match tree.findSlot path with
    | .ok location => tree.insert location .directory
    | .error _ => tree

/-- The tree in which each segment, taken below the segments already `made`, leads to a
directory. -/
def makeDirectoriesBelow (tree : Tree) (made : List Text) : List Text → Tree
  | [] => tree
  | segment :: rest =>
    let made := made ++ [segment]
    (tree.makeDirectory (List.intercalate ['/'] made)).makeDirectoriesBelow made rest

/-- The tree in which the path and each of its beginnings lead to directories. -/
def makeDirectories (tree : Tree) (path : Path) : Tree :=
  tree.makeDirectoriesBelow [] (path.dropTrailingSlashes.splitOn '/')

/-- The location that the last segment of a path names, without following a link that
stands there. -/
def entryLocation? (tree : Tree) (path : Path) : Option Location :=
  let path : Path := path.dropTrailingSlashes
  match tree.find path.directory, Step.ofSegment (Utf8.encode path.fileName) with
  | .ok (.directory parent), .name name => some (name :: parent)
  | _, _ => none

/-- The tree with a regular file at the path. -/
def putFile (tree : Tree) (path : Path) (content : Bytes) : Tree :=
  let tree := tree.makeDirectories path.directory
  match tree.write path content with
  | .ok written => written
  | .error _ => tree

/-- The tree with a symbolic link at the path. -/
def putLink (tree : Tree) (path target : Path) : Tree :=
  let tree := tree.makeDirectories path.directory
  match tree.entryLocation? path with
  | some location => tree.insert location (.link target.raw)
  | none => tree

/-- The tree without the file, the link, or the directory with all it holds, that the
path names. -/
def remove (tree : Tree) (path : Path) : Tree :=
  match tree.entryLocation? path with
  | some location => tree.erase location
  | none => tree

/-- The path from `start` down to a location below it. -/
def relativePath? (start location : Location) : Option Path :=
  if start.isSuffixOf location then
    some (List.intercalate ['/']
      ((location.take (location.length - start.length)).reverse.map Name.text))
  else none

/-- The regular files below the start of `after` that `before` does not hold with the
same bytes, each with its path and its new bytes. -/
def changes (before after : Tree) : List (Path × Bytes) :=
  after.entries.filterMap fun (location, entry) =>
    match entry, relativePath? after.start location with
    | .file content, some path =>
      if before.lookup location = some (.file content) then none else some (path, content)
    | _, _ => none

end Tree
end HeaderMake
