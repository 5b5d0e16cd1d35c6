import HeaderMake.CommandLine.Arguments
import HeaderMake.Run.Generate

/-!
# The command line

`runProgram` is the whole program as a function: from the file tree and the arguments it
gives the exit code, what is printed, and the tree that is left.  The program succeeds
exactly when the configuration loads and the run succeeds.
-/

namespace HeaderMake

/-- How the program ends. -/
structure ProgramResult where
  tree : Tree
  exitCode : Nat
  /-- What is printed on the standard output. -/
  printed : Text
  /-- The report on the standard error. -/
  complaint : Text
  /-- What a verbose run tells about its progress. -/
  events : List Event

/-- The answer to a request for help. -/
def helpText : Text :=
  ("Generate a Makefile with header dependencies\n\n" ++
    "Usage: dmake [OPTIONS]\n\n" ++
    "Options:\n" ++
    "      --release          Use the release CXXFLAGS preset instead of the development one\n" ++
    "  -v, --verbose          Log include resolution details to stderr\n" ++
    "      --dry-run          Render everything but write nothing\n" ++
    "      --config <FILE>    Config file (default: <DIR>/dmake.toml, optional)\n" ++
    "  -C, --directory <DIR>  Root of the source tree [default: .]\n" ++
    "  -h, --help             Print help\n" ++
    "  -V, --version          Print version\n").toList

/-- The answer to a request for the version. -/
def versionText : Text :=
  "dmake 0.1.0\n".toList

/-- The complaint about arguments that the program does not know. -/
def usageText : Text :=
  "Usage: dmake [OPTIONS]\n\nFor more information, try '--help'.\n".toList

/-- A text in which every line but the first is indented like a cause. -/
def indentCause (text : Text) : Text :=
  text.flatMap fun c => if c = '\n' then "\n    ".toList else [c]

/-- The report of an error and, where it has one, of its cause. -/
def errorReport (message : Text) (cause : Option Text) : Text :=
  "Error: ".toList ++ message ++
    (match cause with
      | some cause => "\n\nCaused by:\n    ".toList ++ indentCause cause
      | none => []) ++
    "\n".toList

/-- The report of an error of a run.  A refused configuration is reported as the cause of
a failed loading. -/
def RunError.report (error : RunError) : Text :=
  match error with
  | .configuration _ =>
    errorReport "Failed to load dmake configuration".toList (some error.message)
  | _ => errorReport error.message error.source?

/-- The first line that a run prints. -/
def openingLine (makefile : Path) (release : Bool) : Text :=
  "⚙️ Generating ".toList ++ makefile ++
    (if release then " (release preset)...\n" else " (development preset)...\n").toList

/-- The last line that a successful run prints. -/
def closingLine (rules : Nat) : Text :=
  "✓ ".toList ++ Text.ofNat rules ++ " compile rules\n".toList

/-- Runs with the given options over a file tree. -/
def Options.run (options : Options) (tree : Tree) : ProgramResult :=
  let workspace : Workspace := ⟨tree, options.directory⟩
  match workspace.loadConfiguration options.config with
  | .error error =>
    { tree, exitCode := 1, printed := [], complaint := (RunError.configuration error).report,
      events := [] }
  | .ok configuration =>
    let outcome := workspace.generate configuration options.release options.dryRun
    let opening := openingLine configuration.makefile options.release
    let events :=
      match options.verbose, workspace.plan configuration options.release with
      | true, .ok plan => plan.events
      | _, _ => []
    match outcome.result with
    | .error error =>
      { tree := outcome.workspace.tree, exitCode := 1,
        printed := opening ++ outcome.printed, complaint := error.report, events }
    | .ok report =>
      { tree := outcome.workspace.tree, exitCode := 0,
        printed := opening ++ outcome.printed ++ closingLine report.rules, complaint := [],
        events }

/-- Runs the program over a file tree. -/
def runProgram (tree : Tree) (arguments : List Text) : ProgramResult :=
  match Request.ofArguments? arguments with
  | none =>
    { tree, exitCode := 2, printed := [], complaint := usageText, events := [] }
  | some .help =>
    { tree, exitCode := 0, printed := helpText, complaint := [], events := [] }
  | some .version =>
    { tree, exitCode := 0, printed := versionText, complaint := [], events := [] }
  | some (.run options) => options.run tree

end HeaderMake
