import HeaderMake.Configuration
import HeaderMake.Toml.Document

/-!
# Configuration documents

A configuration is written as a TOML document that overlays the standard configuration:
each field that the document gives replaces the standard value, and each field that it
leaves out keeps it.  Keys that no field has are ignored, whatever their values.

Every part of the configuration that is a record may be written as a table of its fields,
or as an array of their values in a fixed order, where the last ones may be missing.

`Configuration.parse` reads a document, fits it to the configuration and validates the
result; its three ways to fail are the constructors of `ConfigurationError`.
-/

namespace HeaderMake

/-- Why a text is no configuration. -/
inductive ConfigurationError
  /-- The text is no TOML document. -/
  | notToml
  /-- A value of the document does not fit its field, or a group has no name. -/
  | unfitValue
  /-- The library directory is the empty text. -/
  | emptyLibrary
  /-- A group neither scans a directory nor lists a file. -/
  | groupWithoutSources (name : Text)
  deriving DecidableEq

/-- The wording of the cause. -/
def ConfigurationError.message : ConfigurationError → Text
  | notToml => "TOML parse error: this is no TOML document".toList
  | unfitValue => "TOML parse error: a value does not fit the configuration".toList
  | emptyLibrary => "layout.library must not be empty".toList
  | groupWithoutSources name =>
    "group '".toList ++ name ++ "' needs either \x60dir\x60 or \x60files\x60".toList

namespace Toml.Value

/-- The text of a string. -/
def text? : Value → Option Text
  | string text => some text
  | _ => none

/-- The truth value of a boolean. -/
def boolean? : Value → Option Bool
  | boolean value => some value
  | _ => none

/-- The items of an array of either kind. -/
def items? : Value → Option (List Value)
  | array items => some items
  | tables elements => some (elements.map (table .header))
  | _ => none

/-- The entries of a table.  A date stands for a table with one entry that holds it. -/
def entries? : Value → Option Entries
  | table _ entries => some entries
  | datetime text => some [("$__toml_private_datetime".toList, string text)]
  | _ => none

/-- The values of an array, each read the same way. -/
def listOf? {α : Type} (read? : Value → Option α) (value : Value) : Option (List α) := do
  (← value.items?).mapM read?

/-- The fields of a record that is written as a table, or as an array of its values in
the order of `names`. -/
def fields? (names : List String) (value : Value) : Option Entries :=
  match value.items? with
  | some items => some ((names.map String.toList).zip items)
  | none => value.entries?

end Toml.Value

open Toml (Entries Value)

/-- The field of a record, or the standard value where the record does not give it. -/
def fieldOr {α : Type} (fields : Entries) (name : String) (read? : Value → Option α)
    (standard : α) : Option α :=
  match fields.lookup name.toList with
  | some value => read? value
  | none => some standard

/-- The satellite table that a value writes. -/
def SatelliteTable.ofValue? (value : Value) : Option SatelliteTable := do
  let entries ← (← value.entries?).mapM fun (satellite, canonical) =>
    canonical.text?.map fun canonical => (satellite, canonical)
  return .ofList entries

/-- The names of the fields of a layout, in their order. -/
def Layout.fieldNames : List String :=
  ["library", "source_ext", "source_marker", "header_ext", "object_ext",
    "bootstrap_header", "build_dir_token", "satellites"]

/-- The layout that a value writes. -/
def Layout.ofValue? (value : Value) : Option Layout := do
  let fields ← value.fields? fieldNames
  let standard := Layout.standard
  let text (name : String) (default : Text) := fieldOr fields name Value.text? default
  return {
    library := ← text "library" standard.library
    sourceExtension := ← text "source_ext" standard.sourceExtension
    sourceMarker := ← text "source_marker" standard.sourceMarker
    headerExtension := ← text "header_ext" standard.headerExtension
    objectExtension := ← text "object_ext" standard.objectExtension
    bootstrapHeader := ← text "bootstrap_header" standard.bootstrapHeader
    buildDirectory := ← text "build_dir_token" standard.buildDirectory
    satellites := ← fieldOr fields "satellites" SatelliteTable.ofValue? standard.satellites }

/-- The names of the fields of a group, in their order. -/
def SourceGroup.fieldNames : List String :=
  ["name", "dir", "files", "recursive", "include_flags", "objects_var", "vendored",
    "tracked"]

/-- The group that a value writes.  A group has to have a name. -/
def SourceGroup.ofValue? (value : Value) : Option SourceGroup := do
  let fields ← value.fields? fieldNames
  return {
    name := ← (← fields.lookup "name".toList).text?
    directory := ← fieldOr fields "dir" (·.text?.map some) none
    files := ← fieldOr fields "files" (Value.listOf? Value.text?) []
    recursive := ← fieldOr fields "recursive" Value.boolean? false
    includeFlags := ← fieldOr fields "include_flags" Value.text? []
    objectsVariable := ← fieldOr fields "objects_var" (·.text?.map some) none
    vendored := ← fieldOr fields "vendored" Value.boolean? false
    tracked := ← fieldOr fields "tracked" Value.boolean? true }

/-- The names of the fields of the flags, in their order. -/
def FlagPresets.fieldNames : List String :=
  ["release", "debug"]

/-- The flags that a value writes. -/
def FlagPresets.ofValue? (value : Value) : Option FlagPresets := do
  let fields ← value.fields? fieldNames
  return {
    release := ← fieldOr fields "release" Value.text? standard.release
    debug := ← fieldOr fields "debug" Value.text? standard.debug }

/-- The names of the fields of the listing options, in their order. -/
def ListingOptions.fieldNames : List String :=
  ["library_file", "test_file", "test_group", "extra_header", "test_prefix"]

/-- The listing options that a value writes. -/
def ListingOptions.ofValue? (value : Value) : Option ListingOptions := do
  let fields ← value.fields? fieldNames
  let standard := ListingOptions.standard
  let text (name : String) (default : Text) := fieldOr fields name Value.text? default
  return {
    libraryFile := ← text "library_file" standard.libraryFile
    testFile := ← text "test_file" standard.testFile
    testGroup := ← text "test_group" standard.testGroup
    extraHeader := ← text "extra_header" standard.extraHeader
    testMark := ← text "test_prefix" standard.testMark }

namespace Configuration

/-- The names of the fields of a configuration, in their order. -/
def fieldNames : List String :=
  ["makefile", "layout", "group", "object_lists", "flags", "listing"]

/-- The configuration that a value writes. -/
def ofValue? (value : Value) : Option Configuration := do
  let fields ← value.fields? fieldNames
  return {
    makefile := ← fieldOr fields "makefile" Value.text? standard.makefile
    layout := ← fieldOr fields "layout" Layout.ofValue? standard.layout
    groups := ← fieldOr fields "group" (Value.listOf? SourceGroup.ofValue?) standard.groups
    objectLists := ← fieldOr fields "object_lists" (Value.listOf? Value.text?)
      standard.objectLists
    flags := ← fieldOr fields "flags" FlagPresets.ofValue? standard.flags
    listing := ← fieldOr fields "listing" ListingOptions.ofValue? standard.listing }

/-- What is wrong with a configuration: first the library directory is looked at, then
the groups in order. -/
def problem? (configuration : Configuration) : Option ConfigurationError :=
  if configuration.layout.library.isEmpty then some .emptyLibrary
  else (configuration.groups.find? fun group =>
    group.directory.isNone && group.files.isEmpty).map fun group =>
      .groupWithoutSources group.name

/-- The configuration that a document writes. -/
def parse (document : Text) : Except ConfigurationError Configuration :=
  match Toml.parse? document with
  | none => .error .notToml
  | some value =>
    match ofValue? value with
    | none => .error .unfitValue
    | some configuration =>
      match configuration.problem? with
      | some problem => .error problem
      | none => .ok configuration

end Configuration
end HeaderMake
