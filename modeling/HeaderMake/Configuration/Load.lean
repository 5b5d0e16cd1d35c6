import HeaderMake.Configuration.Decode
import HeaderMake.Workspace

/-!
# Loading the configuration of a workspace

The configuration of a workspace is read from a file that the caller names, or from the
conventional file in the root of the workspace.  Only the conventional file may be
missing; then the standard configuration counts.
-/

namespace HeaderMake

/-- The name of the conventional configuration file. -/
def configurationFile : Path :=
  "dmake.toml".toList

/-- Why a configuration file is refused. -/
inductive LoadCause
  /-- Nothing exists at a path that the caller has named. -/
  | missing
  /-- The file cannot be read. -/
  | unreadable (cause : FileError)
  /-- The bytes of the file are not UTF-8. -/
  | notUtf8
  /-- The text of the file is no configuration. -/
  | rejected (cause : ConfigurationError)
  deriving DecidableEq

/-- The wording of the cause. -/
def LoadCause.message : LoadCause → Text
  | missing => "file not found".toList
  | unreadable cause => cause.message
  | notUtf8 => "stream did not contain valid UTF-8".toList
  | rejected cause => cause.message

/-- A configuration file that is refused. -/
structure LoadError where
  path : Path
  cause : LoadCause
  deriving DecidableEq

/-- The wording of the error. -/
def LoadError.message (error : LoadError) : Text :=
  "Invalid config ".toList ++ error.path ++ ": ".toList ++ error.cause.message

/-- The configuration written in the file that a path leads to. -/
def Tree.readConfiguration (tree : Tree) (path : Path) : Except LoadCause Configuration :=
  match tree.read path with
  | .error cause => .error (.unreadable cause)
  | .ok content =>
    match Utf8.decode? content with
    | none => .error .notUtf8
    | some document => (Configuration.parse document).mapError .rejected

/-- The configuration of a workspace.  A path that is named by the caller is not taken
from the root of the workspace. -/
def Workspace.loadConfiguration (workspace : Workspace) (named : Option Path) :
    Except LoadError Configuration :=
  let path := named.getD (workspace.root.join configurationFile)
  if workspace.tree.pathExists path then
    (workspace.tree.readConfiguration path).mapError (⟨path, ·⟩)
  else if named.isSome then .error ⟨path, .missing⟩
  else .ok .standard

end HeaderMake
