import HeaderMake.Listing
import HeaderMake.Makefile.Render
import HeaderMake.Run.Error

/-!
# Plans

A `Plan` is everything that a run is going to write, rendered before the first file is
opened: the library listing, the test listing and the Makefile, in this order.  The
listings are optional; only the Makefile has to be written.
-/

namespace HeaderMake

/-- A rendered file that waits to be written. -/
structure OutputFile where
  path : Path
  contents : Text
  required : Bool
  deriving DecidableEq

/-- What a run is going to write, and what it reports on the way. -/
structure Plan where
  outputs : List OutputFile
  rules : Nat
  events : List Event
  deriving DecidableEq

/-- The library listing, if a group scans exactly the library directory. -/
def Configuration.libraryOutput? (configuration : Configuration) (groups : List CollectedGroup) :
    Option OutputFile :=
  (groups.find? (·.group.directory = some configuration.layout.library)).map fun library =>
    { path := configuration.listing.libraryFile
      contents := configuration.libraryListing library.files
      required := false }

/-- The test listing, if the first group with the name of the test group scans a
directory. -/
def Configuration.testOutput? (configuration : Configuration) (groups : List CollectedGroup) :
    Option OutputFile := do
  let test ← groups.find? (·.group.name = configuration.listing.testGroup)
  let directory ← test.group.directory
  return {
    path := configuration.listing.testFile
    contents := configuration.listing.testListing test.files directory
    required := false }

/-- The plan of a run over collected groups. -/
def Plan.ofGroups (configuration : Configuration) (view : SourceView)
    (groups : List CollectedGroup) (release : Bool) : Plan :=
  let makefile := renderMakefile configuration view groups release
  { outputs :=
      (configuration.libraryOutput? groups).toList ++
        (configuration.testOutput? groups).toList ++
        [{ path := configuration.makefile, contents := makefile.text, required := true }]
    rules := (groups.flatMap (·.files)).length
    events :=
      groups.map (fun collected =>
        .collectedSources collected.group.name collected.files.length) ++
        makefile.events }

/-- The plan of a run over a workspace.  Nothing is planned where sources are lacking. -/
def Workspace.plan (workspace : Workspace) (configuration : Configuration) (release : Bool) :
    Except RunError Plan :=
  let groups := workspace.collectGroups configuration
  if lacksSources groups then .error .noSources
  else .ok (.ofGroups configuration workspace.view groups release)

end HeaderMake
