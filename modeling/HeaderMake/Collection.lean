import HeaderMake.Configuration
import HeaderMake.Workspace

/-!
# Collected sources

The sources of a group are found by scanning its directory, or are the files it lists.
A run goes on only if there are sources: some tracked group must have a file, or some
group at all where no group is tracked.
-/

namespace HeaderMake

/-- A group with the sources found for it, in order. -/
structure CollectedGroup where
  group : SourceGroup
  files : List Path
  deriving DecidableEq

/-- The sources of a group. -/
def Workspace.collectGroup (workspace : Workspace) (extension : Text) (group : SourceGroup) :
    CollectedGroup where
  group
  files :=
    match group.directory with
    | some directory =>
      workspace.tree.collect workspace.root directory extension group.recursive
    | none => group.files

/-- The sources of every group, in the order of the configuration. -/
def Workspace.collectGroups (workspace : Workspace) (configuration : Configuration) :
    List CollectedGroup :=
  configuration.groups.map (workspace.collectGroup configuration.layout.sourceExtension)

/-- Whether no source has been found where one is asked for. -/
def lacksSources (groups : List CollectedGroup) : Bool :=
  let tracked := groups.filter (·.group.tracked)
  (if tracked.isEmpty then groups else tracked).all (·.files.isEmpty)

end HeaderMake
