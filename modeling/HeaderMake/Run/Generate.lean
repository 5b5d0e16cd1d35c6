import HeaderMake.Run.Plan

/-!
# Writing outputs

`Workspace.writeOutputs` writes a list of outputs in order: an optional output that
cannot be opened is skipped, a required one ends the run.  `Workspace.generate` is a
whole run: it plans, and then writes what it has planned or, in a dry run, only says what
it would write.

Both give the workspace as they leave it together with what they print and how they end,
so that a failed run still shows what it has written before.
-/

namespace HeaderMake

/-- A line that a run prints about one of its outputs. -/
inductive Notice
  | wrote (path : Path)
  | skipped (path : Path) (cause : FileError)
  | wouldWrite (path : Path) (bytes : Nat)
  deriving DecidableEq

/-- The line with its line feed. -/
def Notice.render : Notice → Text
  | wrote path => "   + Wrote ".toList ++ path ++ "\n".toList
  | skipped path cause =>
    "   ! Skipping ".toList ++ path ++ " (".toList ++ cause.message ++ ")\n".toList
  | wouldWrite path bytes =>
    "   ~ Would write ".toList ++ path ++ " (".toList ++ Text.ofNat bytes ++
      " bytes)\n".toList

/-- What a run has produced. -/
structure Report where
  /-- The number of compile rules. -/
  rules : Nat
  /-- The outputs that were written, in order. -/
  written : List Path
  /-- The optional outputs that could not be opened, in order. -/
  skipped : List Path
  deriving DecidableEq

/-- The report of nothing. -/
def Report.empty : Report := ⟨0, [], []⟩

/-- The workspace that a run leaves, what it prints, and how it ends. -/
structure Outcome where
  workspace : Workspace
  notices : List Notice
  result : Except RunError Report

/-- What a run prints. -/
def Outcome.printed (outcome : Outcome) : Text :=
  outcome.notices.flatMap Notice.render

/-- The outcome after one more output, which was written before the others. -/
def Outcome.afterWriting (path : Path) (outcome : Outcome) : Outcome :=
  { outcome with
    notices := .wrote path :: outcome.notices
    result := outcome.result.map fun report =>
      { report with written := path :: report.written } }

/-- The outcome after one more output, which was skipped before the others. -/
def Outcome.afterSkipping (path : Path) (cause : FileError) (outcome : Outcome) : Outcome :=
  { outcome with
    notices := .skipped path cause :: outcome.notices
    result := outcome.result.map fun report =>
      { report with skipped := path :: report.skipped } }

/-- Writes the outputs in order. -/
def Workspace.writeOutputs (workspace : Workspace) : List OutputFile → Outcome
  | [] => ⟨workspace, [], .ok .empty⟩
  | output :: rest =>
    match workspace.write output.path output.contents with
    | .ok written => (written.writeOutputs rest).afterWriting output.path
    | .error cause =>
      if output.required then
        ⟨workspace, [], .error (.outputNotOpened (workspace.root.join output.path) cause)⟩
      else (workspace.writeOutputs rest).afterSkipping output.path cause

/-- What a dry run prints about an output. -/
def OutputFile.announcement (output : OutputFile) : Notice :=
  .wouldWrite output.path output.contents.byteLength

/-- Carries a plan out, or announces it in a dry run. -/
def Workspace.carryOut (workspace : Workspace) (plan : Plan) (dryRun : Bool) : Outcome :=
  if dryRun then
    ⟨workspace, plan.outputs.map OutputFile.announcement,
      .ok { Report.empty with rules := plan.rules }⟩
  else
    let outcome := workspace.writeOutputs plan.outputs
    { outcome with
      result := outcome.result.map fun report => { report with rules := plan.rules } }

/-- A whole run over a workspace. -/
def Workspace.generate (workspace : Workspace) (configuration : Configuration)
    (release dryRun : Bool) : Outcome :=
  match workspace.plan configuration release with
  | .error error => ⟨workspace, [], .error error⟩
  | .ok plan => workspace.carryOut plan dryRun

end HeaderMake
