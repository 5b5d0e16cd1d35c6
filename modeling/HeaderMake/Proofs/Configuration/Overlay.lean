import HeaderMake.Configuration.Decode
import Mathlib.Data.List.Forall2

/-!
# Configurations as overlays

What it means that a document writes a configuration, level by level: each record of the
document has an entry that writes the value of a field, or has no entry for the field and
the field has its standard value (`Overlays`).  The exception is the name of a group, which
has to be given.

A value is decoded to a configuration exactly if it writes this configuration
(`Configuration.ofValue?_eq_some_iff`).  So a value fits exactly if every entry for a field
writes some value of it and every group has a name, and no field has any other source than
its own entry and its standard value.
-/

namespace HeaderMake

open Toml (Entries Value)

/-! ## What single values write -/

namespace Toml.Value

/-- The value is a string with this text. -/
def WritesText (value : Value) (text : Text) : Prop :=
  value = .string text

/-- The value is this boolean. -/
def WritesBoolean (value : Value) (truth : Bool) : Prop :=
  value = .boolean truth

/-- The value is a string with the text of a field that may have none. -/
def WritesSomeText (value : Value) (text? : Option Text) : Prop :=
  ∃ text, value = .string text ∧ text? = some text

/-- The value is an array whose items write the elements of the list one by one. -/
def WritesList {α : Type} (Writes : Value → α → Prop) (value : Value)
    (elements : List α) : Prop :=
  ∃ items, value.items? = some items ∧ List.Forall₂ Writes items elements

theorem text?_eq_some_iff {value : Value} {text : Text} :
    value.text? = some text ↔ value.WritesText text := by
  cases value <;> simp [text?, WritesText]

theorem boolean?_eq_some_iff {value : Value} {truth : Bool} :
    value.boolean? = some truth ↔ value.WritesBoolean truth := by
  cases value <;> simp [boolean?, WritesBoolean]

theorem map_some_text?_eq_some_iff {value : Value} {given : Option Text} :
    value.text?.map some = some given ↔ value.WritesSomeText given := by
  rw [Option.map_eq_some_iff, WritesSomeText]
  refine exists_congr fun text => ?_
  rw [text?_eq_some_iff, WritesText, eq_comm (a := given)]

theorem mapM_eq_some_iff_forall₂ {α β : Type} {f : α → Option β}
    {elements : List α} {images : List β} :
    elements.mapM f = some images ↔
      List.Forall₂ (fun element image => f element = some image)
        elements images := by
  induction elements generalizing images with
  | nil => simp [eq_comm]
  | cons element elements ih =>
      simp only [List.mapM_cons, Option.bind_eq_bind, Option.pure_def,
        Option.bind_eq_some_iff, Option.some_inj, ih,
        List.forall₂_cons_left_iff]
      constructor
      · rintro ⟨image, himage, images, himages, rfl⟩
        exact ⟨image, images, himage, himages, rfl⟩
      · rintro ⟨image, images, himage, himages, rfl⟩
        exact ⟨image, himage, images, himages, rfl⟩

theorem listOf?_eq_some_iff {α : Type} {read? : Value → Option α}
    {Writes : Value → α → Prop}
    (h : ∀ value element, read? value = some element ↔ Writes value element)
    {value : Value} {elements : List α} :
    value.listOf? read? = some elements ↔
      value.WritesList Writes elements := by
  simp only [listOf?, Option.bind_eq_bind, Option.bind_eq_some_iff,
    mapM_eq_some_iff_forall₂, h]
  rfl

end Toml.Value

/-! ## One field -/

/-- A field has the value that the record writes for it, or its standard value if the
record has no entry for it. -/
def Overlays {α : Type} (fields : Entries) (name : String)
    (Writes : Value → α → Prop) (standard value : α) : Prop :=
  match fields.lookup name.toList with
  | some written => Writes written value
  | none => value = standard

theorem fieldOr_eq_some_iff {α : Type} {read? : Value → Option α}
    {Writes : Value → α → Prop}
    (h : ∀ value element, read? value = some element ↔ Writes value element)
    {fields : Entries} {name : String} {standard value : α} :
    fieldOr fields name read? standard = some value ↔
      Overlays fields name Writes standard value := by
  unfold fieldOr Overlays
  cases fields.lookup name.toList with
  | some written => exact h written value
  | none => rw [Option.some_inj, eq_comm]

/-! ## The levels of a configuration -/

/-- The value is a table that names the canonical directories of satellites.  Of two
entries for one satellite the later counts. -/
def Toml.Value.WritesSatellites (value : Value) (table : SatelliteTable) :
    Prop :=
  ∃ entries satellites, value.entries? = some entries ∧
    List.Forall₂ (fun entry satellite =>
      entry.1 = satellite.1 ∧ entry.2.WritesText satellite.2)
      entries satellites ∧
    table = .ofList satellites

/-- Each field of the layout is the one that the record writes, or the standard one. -/
structure Layout.Overlaid (fields : Entries) (layout : Layout) : Prop where
  library : Overlays fields "library" Value.WritesText
    Layout.standard.library layout.library
  sourceExtension : Overlays fields "source_ext" Value.WritesText
    Layout.standard.sourceExtension layout.sourceExtension
  sourceMarker : Overlays fields "source_marker" Value.WritesText
    Layout.standard.sourceMarker layout.sourceMarker
  headerExtension : Overlays fields "header_ext" Value.WritesText
    Layout.standard.headerExtension layout.headerExtension
  objectExtension : Overlays fields "object_ext" Value.WritesText
    Layout.standard.objectExtension layout.objectExtension
  bootstrapHeader : Overlays fields "bootstrap_header" Value.WritesText
    Layout.standard.bootstrapHeader layout.bootstrapHeader
  buildDirectory : Overlays fields "build_dir_token" Value.WritesText
    Layout.standard.buildDirectory layout.buildDirectory
  satellites : Overlays fields "satellites" Value.WritesSatellites
    Layout.standard.satellites layout.satellites

/-- The record writes the name of the group.  Each other field of the group is the one
that the record writes, or the one of a group that says nothing about it. -/
structure SourceGroup.Overlaid (fields : Entries) (group : SourceGroup) :
    Prop where
  name : fields.lookup "name".toList = some (.string group.name)
  directory : Overlays fields "dir" Value.WritesSomeText
    none group.directory
  files : Overlays fields "files" (Value.WritesList Value.WritesText)
    [] group.files
  recursive : Overlays fields "recursive" Value.WritesBoolean
    false group.recursive
  includeFlags : Overlays fields "include_flags" Value.WritesText
    [] group.includeFlags
  objectsVariable : Overlays fields "objects_var" Value.WritesSomeText
    none group.objectsVariable
  vendored : Overlays fields "vendored" Value.WritesBoolean
    false group.vendored
  tracked : Overlays fields "tracked" Value.WritesBoolean
    true group.tracked

/-- Each of the flags is the one that the record writes, or the standard one. -/
structure FlagPresets.Overlaid (fields : Entries) (flags : FlagPresets) :
    Prop where
  release : Overlays fields "release" Value.WritesText
    FlagPresets.standard.release flags.release
  debug : Overlays fields "debug" Value.WritesText
    FlagPresets.standard.debug flags.debug

/-- Each option is the one that the record writes, or the standard one. -/
structure ListingOptions.Overlaid (fields : Entries)
    (listing : ListingOptions) : Prop where
  libraryFile : Overlays fields "library_file" Value.WritesText
    ListingOptions.standard.libraryFile listing.libraryFile
  testFile : Overlays fields "test_file" Value.WritesText
    ListingOptions.standard.testFile listing.testFile
  testGroup : Overlays fields "test_group" Value.WritesText
    ListingOptions.standard.testGroup listing.testGroup
  extraHeader : Overlays fields "extra_header" Value.WritesText
    ListingOptions.standard.extraHeader listing.extraHeader
  testMark : Overlays fields "test_prefix" Value.WritesText
    ListingOptions.standard.testMark listing.testMark

namespace Toml.Value

/-- The value is a record with fields of these names, which write the element as
`Overlaid` says. -/
def WritesRecord {α : Type} (names : List String)
    (Overlaid : Entries → α → Prop) (value : Value) (element : α) : Prop :=
  ∃ fields, value.fields? names = some fields ∧ Overlaid fields element

/-- The value writes a layout over the standard one. -/
def WritesLayout : Value → Layout → Prop :=
  WritesRecord Layout.fieldNames Layout.Overlaid

/-- The value writes a group. -/
def WritesGroup : Value → SourceGroup → Prop :=
  WritesRecord SourceGroup.fieldNames SourceGroup.Overlaid

/-- The value writes flags over the standard ones. -/
def WritesFlags : Value → FlagPresets → Prop :=
  WritesRecord FlagPresets.fieldNames FlagPresets.Overlaid

/-- The value writes listing options over the standard ones. -/
def WritesListing : Value → ListingOptions → Prop :=
  WritesRecord ListingOptions.fieldNames ListingOptions.Overlaid

end Toml.Value

/-- Each field of the configuration is the one that the record writes, or the standard
one. -/
structure Configuration.Overlaid (fields : Entries)
    (configuration : Configuration) : Prop where
  makefile : Overlays fields "makefile" Value.WritesText
    Configuration.standard.makefile configuration.makefile
  layout : Overlays fields "layout" Value.WritesLayout
    Configuration.standard.layout configuration.layout
  groups : Overlays fields "group" (Value.WritesList Value.WritesGroup)
    Configuration.standard.groups configuration.groups
  objectLists : Overlays fields "object_lists"
    (Value.WritesList Value.WritesText)
    Configuration.standard.objectLists configuration.objectLists
  flags : Overlays fields "flags" Value.WritesFlags
    Configuration.standard.flags configuration.flags
  listing : Overlays fields "listing" Value.WritesListing
    Configuration.standard.listing configuration.listing

/-- The value writes a configuration over the standard one. -/
def Toml.Value.WritesConfiguration : Value → Configuration → Prop :=
  WritesRecord Configuration.fieldNames Configuration.Overlaid

/-! ## Decoding -/

theorem SatelliteTable.ofValue?_eq_some_iff {value : Value}
    {table : SatelliteTable} :
    SatelliteTable.ofValue? value = some table ↔
      value.WritesSatellites table := by
  have hentry : ∀ (entry : Text × Value) (satellite : Text × Text),
      (entry.2.text?.map fun canonical => (entry.1, canonical)) =
          some satellite ↔
        entry.1 = satellite.1 ∧ entry.2.WritesText satellite.2 := by
    rintro ⟨key, value⟩ ⟨satellite, canonical⟩
    simp only [Option.map_eq_some_iff, Value.text?_eq_some_iff,
      Prod.mk.injEq]
    constructor
    · rintro ⟨_, hwrites, rfl, rfl⟩
      exact ⟨rfl, hwrites⟩
    · rintro ⟨rfl, hwrites⟩
      exact ⟨_, hwrites, rfl, rfl⟩
  simp only [SatelliteTable.ofValue?, Option.bind_eq_bind, Option.pure_def,
    Option.bind_eq_some_iff, Option.some_inj,
    Value.mapM_eq_some_iff_forall₂, hentry]
  constructor
  · rintro ⟨entries, hentries, satellites, hsatellites, rfl⟩
    exact ⟨entries, satellites, hentries, hsatellites, rfl⟩
  · rintro ⟨entries, satellites, hentries, hsatellites, rfl⟩
    exact ⟨entries, hentries, satellites, hsatellites, rfl⟩

theorem Layout.ofValue?_eq_some_iff {value : Value} {layout : Layout} :
    Layout.ofValue? value = some layout ↔ value.WritesLayout layout := by
  simp only [Layout.ofValue?, Option.bind_eq_bind, Option.pure_def,
    Option.bind_eq_some_iff, Option.some_inj,
    fieldOr_eq_some_iff fun _ _ => Value.text?_eq_some_iff,
    fieldOr_eq_some_iff fun _ _ => SatelliteTable.ofValue?_eq_some_iff]
  constructor
  · rintro ⟨fields, hfields, _, hlibrary, _, hsource, _, hmarker, _, hheader,
      _, hobject, _, hbootstrap, _, hbuild, _, hsatellites, rfl⟩
    exact ⟨fields, hfields, hlibrary, hsource, hmarker, hheader, hobject,
      hbootstrap, hbuild, hsatellites⟩
  · rintro ⟨fields, hfields, h⟩
    exact ⟨fields, hfields, _, h.library, _, h.sourceExtension, _,
      h.sourceMarker, _, h.headerExtension, _, h.objectExtension, _,
      h.bootstrapHeader, _, h.buildDirectory, _, h.satellites, rfl⟩

theorem SourceGroup.ofValue?_eq_some_iff {value : Value}
    {group : SourceGroup} :
    SourceGroup.ofValue? value = some group ↔ value.WritesGroup group := by
  simp only [SourceGroup.ofValue?, Option.bind_eq_bind, Option.pure_def,
    Option.bind_eq_some_iff, Option.some_inj, Value.text?_eq_some_iff,
    fieldOr_eq_some_iff fun _ _ => Value.text?_eq_some_iff,
    fieldOr_eq_some_iff fun _ _ => Value.boolean?_eq_some_iff,
    fieldOr_eq_some_iff fun _ _ => Value.map_some_text?_eq_some_iff,
    fieldOr_eq_some_iff fun _ _ =>
      Value.listOf?_eq_some_iff fun _ _ => Value.text?_eq_some_iff]
  constructor
  · rintro ⟨fields, hfields, _, hname, _, rfl, _, hdirectory, _, hfiles, _,
      hrecursive, _, hflags, _, hvariable, _, hvendored, _, htracked, rfl⟩
    exact ⟨fields, hfields, hname, hdirectory, hfiles, hrecursive, hflags,
      hvariable, hvendored, htracked⟩
  · rintro ⟨fields, hfields, h⟩
    exact ⟨fields, hfields, _, h.name, _, rfl, _, h.directory, _, h.files, _,
      h.recursive, _, h.includeFlags, _, h.objectsVariable, _, h.vendored, _,
      h.tracked, rfl⟩

theorem FlagPresets.ofValue?_eq_some_iff {value : Value}
    {flags : FlagPresets} :
    FlagPresets.ofValue? value = some flags ↔ value.WritesFlags flags := by
  simp only [FlagPresets.ofValue?, Option.bind_eq_bind, Option.pure_def,
    Option.bind_eq_some_iff, Option.some_inj,
    fieldOr_eq_some_iff fun _ _ => Value.text?_eq_some_iff]
  constructor
  · rintro ⟨fields, hfields, _, hrelease, _, hdebug, rfl⟩
    exact ⟨fields, hfields, hrelease, hdebug⟩
  · rintro ⟨fields, hfields, h⟩
    exact ⟨fields, hfields, _, h.release, _, h.debug, rfl⟩

theorem ListingOptions.ofValue?_eq_some_iff {value : Value}
    {listing : ListingOptions} :
    ListingOptions.ofValue? value = some listing ↔
      value.WritesListing listing := by
  simp only [ListingOptions.ofValue?, Option.bind_eq_bind, Option.pure_def,
    Option.bind_eq_some_iff, Option.some_inj,
    fieldOr_eq_some_iff fun _ _ => Value.text?_eq_some_iff]
  constructor
  · rintro ⟨fields, hfields, _, hlibrary, _, htest, _, hgroup, _, hheader, _,
      hmark, rfl⟩
    exact ⟨fields, hfields, hlibrary, htest, hgroup, hheader, hmark⟩
  · rintro ⟨fields, hfields, h⟩
    exact ⟨fields, hfields, _, h.libraryFile, _, h.testFile, _, h.testGroup, _,
      h.extraHeader, _, h.testMark, rfl⟩

/-- A value is decoded to a configuration exactly if it writes this configuration over
the standard one. -/
theorem Configuration.ofValue?_eq_some_iff {value : Value}
    {configuration : Configuration} :
    Configuration.ofValue? value = some configuration ↔
      value.WritesConfiguration configuration := by
  simp only [Configuration.ofValue?, Option.bind_eq_bind, Option.pure_def,
    Option.bind_eq_some_iff, Option.some_inj,
    fieldOr_eq_some_iff fun _ _ => Value.text?_eq_some_iff,
    fieldOr_eq_some_iff fun _ _ => Layout.ofValue?_eq_some_iff,
    fieldOr_eq_some_iff fun _ _ => FlagPresets.ofValue?_eq_some_iff,
    fieldOr_eq_some_iff fun _ _ => ListingOptions.ofValue?_eq_some_iff,
    fieldOr_eq_some_iff fun _ _ =>
      Value.listOf?_eq_some_iff fun _ _ => SourceGroup.ofValue?_eq_some_iff,
    fieldOr_eq_some_iff fun _ _ =>
      Value.listOf?_eq_some_iff fun _ _ => Value.text?_eq_some_iff]
  constructor
  · rintro ⟨fields, hfields, _, hmakefile, _, hlayout, _, hgroups, _, hlists,
      _, hflags, _, hlisting, rfl⟩
    exact ⟨fields, hfields, hmakefile, hlayout, hgroups, hlists, hflags,
      hlisting⟩
  · rintro ⟨fields, hfields, h⟩
    exact ⟨fields, hfields, _, h.makefile, _, h.layout, _, h.groups, _,
      h.objectLists, _, h.flags, _, h.listing, rfl⟩

end HeaderMake
