import HeaderMake.CommandLine.Program
import HeaderMake.Tree.Edit

/-!
# The program

The outer layer around `runProgram`: it copies the part of the file system that a run can
see into a `Tree`, runs, writes the files that have changed, and prints.

The tree holds the source directory, the configuration file that the caller names, and
whatever links lead to from there.  Links are copied with the canonical path of what they
lead to, so lookups in the copy end where lookups in the file system end.
-/

namespace HeaderMake

/-- The location of a canonical absolute path. -/
def locationOf? (path : String) : Option Location :=
  (((path.toList.splitOn '/').filter (!·.isEmpty)).mapM Name.ofText?).map List.reverse

/-- A copy in the making: the tree so far and the canonical paths that are in it. -/
structure Copy where
  tree : Tree
  copied : List String

/-- The tree with directories at the location and above it. -/
def Tree.withDirectories (tree : Tree) : Location → Tree
  | [] => tree
  | name :: parent =>
    let tree := tree.withDirectories parent
    if (tree.lookup (name :: parent)).isSome then tree
    else tree.insert (name :: parent) .directory

/-- Copies what a canonical path leads to.  What cannot be read is left out. -/
partial def Copy.add (copy : Copy) (path : String) : IO Copy := do
  let some location := locationOf? path | return copy
  if copy.copied.contains path then return copy
  let mut copy : Copy :=
    { tree := copy.tree.withDirectories location.tail, copied := path :: copy.copied }
  try
    let canonical ← IO.FS.realPath path
    if ← canonical.isDir then
      copy := { copy with tree := copy.tree.withDirectories location }
      for entry in ← canonical.readDir do
        let some name := Name.ofText? entry.fileName.toList | continue
        try
          let target ← IO.FS.realPath entry.path
          if target.toString != entry.path.toString then
            let link : Entry := .link (Path.raw target.toString.toList)
            copy := { copy with tree := copy.tree.insert (name :: location) link }
          copy ← copy.add target.toString
        catch _ => continue
    else
      let content ← IO.FS.readBinFile canonical
      copy := { copy with tree := copy.tree.insert location (.file content.toList) }
  catch _ => return copy
  return copy

/-- A tree with what a run in the current directory can see. -/
def currentTree (arguments : List Text) : IO Tree := do
  let start := (locationOf? (← IO.currentDir).toString).getD []
  let bare : Tree := { entries := [], start }
  let mut copy : Copy := { tree := bare.withDirectories start, copied := [] }
  if let some (.run options) := Request.ofArguments? arguments then
    for path in options.directory :: options.config.toList do
      try
        copy ← copy.add (← IO.FS.realPath (String.ofList path)).toString
      catch _ => continue
  return copy.tree

/-- Writes the files that a run has changed. -/
def writeChanges (before after : Tree) : IO Unit := do
  let changes := Tree.changes { before with start := [] } { after with start := [] }
  for (path, content) in changes do
    IO.FS.writeBinFile ("/" ++ String.ofList path) content.toByteArray

end HeaderMake

open HeaderMake in
/-- Runs the program with the arguments of the command line. -/
def main (arguments : List String) : IO UInt32 := do
  let arguments := arguments.map String.toList
  let before ← currentTree arguments
  let result := runProgram before arguments
  writeChanges before result.tree
  for event in result.events do
    IO.eprint (String.ofList event.render)
  IO.print (String.ofList result.printed)
  IO.eprint (String.ofList result.complaint)
  return .ofNat result.exitCode
