import HeaderMake.Path

/-!
# Command line arguments

The arguments are read from left to right.  Long options are written in full; short
options may be joined, and the last of them may take the rest of the argument as its
value.  An option may be given once.  Whatever the program does not know is a usage
error, except that a request for help or for the version counts as soon as it is reached.
-/

namespace HeaderMake

/-- The options of the program. -/
inductive OptionName
  | release
  | verbose
  | dryRun
  | config
  | directory
  | help
  | version
  deriving DecidableEq

namespace OptionName

/-- The option of that long name. -/
def ofLong? (name : Text) : Option OptionName :=
  if name = "release".toList then some release
  else if name = "verbose".toList then some verbose
  else if name = "dry-run".toList then some dryRun
  else if name = "config".toList then some config
  else if name = "directory".toList then some directory
  else if name = "help".toList then some help
  else if name = "version".toList then some version
  else none

/-- The option of that short name. -/
def ofShort? : Char → Option OptionName
  | 'v' => some verbose
  | 'C' => some directory
  | 'h' => some help
  | 'V' => some version
  | _ => none

/-- Whether the option takes a value. -/
def takesValue : OptionName → Bool
  | config => true
  | directory => true
  | _ => false

end OptionName

/-- What a run is asked to do. -/
structure Options where
  release : Bool
  verbose : Bool
  dryRun : Bool
  config : Option Path
  directory : Path
  deriving DecidableEq

/-- What the program is asked to do. -/
inductive Request
  | help
  | version
  | run (options : Options)
  deriving DecidableEq

/-- The options given so far, each with its value or with the empty text. -/
abbrev Given := List (OptionName × Text)

/-- The options that have been given. -/
def Given.options (given : Given) : Options where
  release := (given.lookup .release).isSome
  verbose := (given.lookup .verbose).isSome
  dryRun := (given.lookup .dryRun).isSome
  config := given.lookup .config
  directory := (given.lookup .directory).getD ['.']

/-- What one more argument leads to. -/
inductive Progress
  /-- Reading goes on after these options. -/
  | goOn (given : Given)
  /-- The next argument is the value of `option`. -/
  | awaits (given : Given) (option : OptionName)
  /-- Reading ends with a request, or with a usage error. -/
  | finished (request : Option Request)

namespace Given

/-- Gives an option its value.  An option that has been given before, or an empty value,
is a usage error. -/
def add (given : Given) (option : OptionName) (value : Text) : Progress :=
  if (given.lookup option).isSome ∨ (option.takesValue ∧ value.isEmpty) then .finished none
  else match option with
    | .help => .finished (some .help)
    | .version => .finished (some .version)
    | _ => .goOn ((option, value) :: given)

/-- Whether an argument can be the value of the option before it. -/
def isValue : Text → Bool
  | '-' :: _ :: _ => false
  | _ => true

/-- Reads the joined short options of one argument.  An option that takes a value takes
the rest of the argument, with or without an equals sign, or else the next argument. -/
def readShort (given : Given) : Text → Progress
  | [] => .goOn given
  | c :: rest =>
    match OptionName.ofShort? c with
    | none => .finished none
    | some option =>
      if option.takesValue then
        match rest with
        | [] => .awaits given option
        | '=' :: value => given.add option value
        | value => given.add option value
      else
        match given.add option [] with
        | .goOn given => given.readShort rest
        | ended => ended

/-- Reads one long option, after its two dashes.  An option that takes a value takes what
follows the equals sign, or else the next argument. -/
def readLong (given : Given) (argument : Text) : Progress :=
  let (name, value?) :=
    match Text.cutAt? ['='] argument with
    | some (name, value) => (name, some value)
    | none => (argument, none)
  match OptionName.ofLong? name, value? with
  | none, _ => .finished none
  | some option, some value =>
    if option.takesValue then given.add option value else .finished none
  | some option, none =>
    if option.takesValue then .awaits given option else given.add option []

/-- Reads one argument. -/
def readArgument (given : Given) (argument : Text) : Progress :=
  match argument with
  | '-' :: '-' :: long => given.readLong long
  | '-' :: short@(_ :: _) => given.readShort short
  | _ => .finished none

/-- Reads the arguments after those that have been read.  After two dashes nothing may
follow, since the program takes no arguments of its own. -/
def readAll (given : Given) : List Text → Option Request
  | [] => some (.run given.options)
  | [['-', '-']] => some (.run given.options)
  | argument :: rest =>
    match given.readArgument argument, rest with
    | .finished request, _ => request
    | .goOn given, rest => given.readAll rest
    | .awaits _ _, [] => none
    | .awaits given option, value :: rest =>
      if isValue value then
        match given.add option value with
        | .goOn given => given.readAll rest
        | .awaits _ _ => none
        | .finished request => request
      else none

end Given

/-- What the arguments ask for, unless they are a usage error. -/
def Request.ofArguments? (arguments : List Text) : Option Request :=
  Given.readAll [] arguments

end HeaderMake
