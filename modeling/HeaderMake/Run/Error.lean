import HeaderMake.Configuration.Load

/-!
# Why a run fails

A run fails for one of three causes; a cause may itself be caused by another, which is
kept apart from its wording so that it can be shown on its own.
-/

namespace HeaderMake

/-- Why a run fails. -/
inductive RunError
  /-- There is no source where one is asked for. -/
  | noSources
  /-- A required output cannot be opened for writing. -/
  | outputNotOpened (path : Path) (cause : FileError)
  /-- The configuration is refused. -/
  | configuration (error : LoadError)
  deriving DecidableEq

/-- The wording of the error. -/
def RunError.message : RunError → Text
  | noSources => "No files found. Are you in the correct directory?".toList
  | outputNotOpened path cause =>
    "An error occurred while trying to open ".toList ++ path ++ ": ".toList ++ cause.message
  | configuration error => error.message

/-- The wording of what caused the error, where that is an error of its own. -/
def RunError.source? : RunError → Option Text
  | outputNotOpened _ cause => some cause.message
  | _ => none

end HeaderMake
