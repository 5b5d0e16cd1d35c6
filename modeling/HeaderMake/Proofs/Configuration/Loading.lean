import HeaderMake.Configuration.Load
import HeaderMake.Proofs.Configuration.Replacement
import HeaderMake.Proofs.Configuration.UnknownKeys

/-!
# From documents to configurations

What becomes of a document: it is laid over the standard configuration field by field, the
outcome is validated, and a workspace is given the outcome of its conventional file.

A configuration that has a problem is refused for the first one: the library comes before
the groups, and the groups come in their order (`Configuration.Validated`).  Only where
nothing is found under the conventional name is the standard configuration taken without
a document; a file that is found is read, and refused if there is anything wrong with it
(`Workspace.LoadsConventional`).
-/

namespace HeaderMake

open Toml (Entries Value)

/-! ## Validation -/

/-- The group scans a directory or lists a file. -/
def SourceGroup.HasSources (group : SourceGroup) : Prop :=
  group.directory ≠ none ∨ group.files ≠ []

theorem SourceGroup.lacksSources_iff {group : SourceGroup} :
    (group.directory.isNone && group.files.isEmpty) = true ↔
      ¬ group.HasSources := by
  rw [Bool.and_eq_true, Option.isNone_iff_eq_none, List.isEmpty_iff,
    HasSources, not_or, not_not, not_not]

theorem SourceGroup.not_lacksSources_iff {group : SourceGroup} :
    (!(group.directory.isNone && group.files.isEmpty)) = true ↔
      group.HasSources := by
  rw [Bool.not_eq_true', ← Bool.not_eq_true, lacksSources_iff, not_not]

namespace Configuration

/-- The configuration has a library, and each of its groups has sources. -/
def Valid (configuration : Configuration) : Prop :=
  configuration.layout.library ≠ [] ∧
    ∀ group ∈ configuration.groups, group.HasSources

/-- The group is the first one of the configuration that has no sources. -/
def FirstWithoutSources (configuration : Configuration) (group : SourceGroup) :
    Prop :=
  ∃ before after, configuration.groups = before ++ group :: after ∧
    ¬ group.HasSources ∧ ∀ earlier ∈ before, earlier.HasSources

variable {configuration : Configuration}

theorem find?_lacksSources_eq_some_iff {group : SourceGroup} :
    (configuration.groups.find? fun group =>
        group.directory.isNone && group.files.isEmpty) = some group ↔
      configuration.FirstWithoutSources group := by
  rw [List.find?_eq_some_iff_append, SourceGroup.lacksSources_iff]
  simp only [SourceGroup.not_lacksSources_iff]
  constructor
  · rintro ⟨hlacks, before, after, hgroups, hbefore⟩
    exact ⟨before, after, hgroups, hlacks, hbefore⟩
  · rintro ⟨before, after, hgroups, hlacks, hbefore⟩
    exact ⟨hlacks, before, after, hgroups, hbefore⟩

theorem problem?_of_library_eq_nil
    (h : configuration.layout.library = []) :
    configuration.problem? = some .emptyLibrary :=
  if_pos (List.isEmpty_iff.mpr h)

theorem problem?_of_library_ne_nil
    (h : configuration.layout.library ≠ []) :
    configuration.problem? =
      (configuration.groups.find? fun group =>
        group.directory.isNone && group.files.isEmpty).map fun group =>
          .groupWithoutSources group.name :=
  if_neg (mt List.isEmpty_iff.mp h)

theorem problem?_eq_none_iff :
    configuration.problem? = none ↔ configuration.Valid := by
  unfold Valid
  by_cases hlibrary : configuration.layout.library = []
  · simp [problem?_of_library_eq_nil hlibrary, hlibrary]
  · rw [problem?_of_library_ne_nil hlibrary, Option.map_eq_none_iff,
      List.find?_eq_none, and_iff_right hlibrary]
    simp only [SourceGroup.lacksSources_iff, not_not]

theorem problem?_eq_emptyLibrary_iff :
    configuration.problem? = some .emptyLibrary ↔
      configuration.layout.library = [] := by
  by_cases hlibrary : configuration.layout.library = []
  · exact iff_of_true (problem?_of_library_eq_nil hlibrary) hlibrary
  · simp [problem?_of_library_ne_nil hlibrary, hlibrary]

theorem problem?_eq_groupWithoutSources_iff {name : Text} :
    configuration.problem? = some (.groupWithoutSources name) ↔
      configuration.layout.library ≠ [] ∧
        ∃ group, configuration.FirstWithoutSources group ∧
          group.name = name := by
  by_cases hlibrary : configuration.layout.library = []
  · simp [problem?_of_library_eq_nil hlibrary, hlibrary]
  · rw [problem?_of_library_ne_nil hlibrary, Option.map_eq_some_iff,
      and_iff_right hlibrary]
    simp only [find?_lacksSources_eq_some_iff,
      ConfigurationError.groupWithoutSources.injEq]

/-- A document with this configuration is accepted exactly if the configuration is valid.
Otherwise it is refused for its library, or else for the first group without sources. -/
structure Validated (document : Text) (configuration : Configuration) :
    Prop where
  accepted : ∀ outcome, parse document = .ok outcome ↔
    outcome = configuration ∧ configuration.Valid
  emptyLibrary : parse document = .error .emptyLibrary ↔
    configuration.layout.library = []
  groupWithoutSources : ∀ name,
    parse document = .error (.groupWithoutSources name) ↔
      configuration.layout.library ≠ [] ∧
        ∃ group, configuration.FirstWithoutSources group ∧ group.name = name

theorem parse_eq {document : Text} {value : Value}
    (hparse : Toml.parse? document = some value)
    (hvalue : ofValue? value = some configuration) :
    parse document =
      (configuration.problem?.map Except.error).getD (.ok configuration) := by
  rw [parse, hparse]
  simp only [hvalue]
  cases configuration.problem? <;> rfl

/-- A document without a problem has the configuration that its value writes. -/
theorem parse_eq_ok {document : Text} {value : Value}
    (hparse : Toml.parse? document = some value)
    (hvalue : ofValue? value = some configuration)
    (hvalid : configuration.problem? = none) :
    parse document = .ok configuration := by
  rw [parse_eq hparse hvalue, hvalid]
  rfl

theorem validated {document : Text} {value : Value}
    (hparse : Toml.parse? document = some value)
    (hvalue : ofValue? value = some configuration) :
    Validated document configuration := by
  have houtcome := parse_eq hparse hvalue
  have herror : ∀ error, parse document = .error error ↔
      configuration.problem? = some error := by
    intro error
    rw [houtcome]
    cases configuration.problem? <;> simp
  refine ⟨fun outcome => ?_, ?_, fun name => ?_⟩
  · rw [← problem?_eq_none_iff, houtcome]
    cases configuration.problem? <;> simp [eq_comm]
  · rw [herror, problem?_eq_emptyLibrary_iff]
  · rw [herror, problem?_eq_groupWithoutSources_iff]

-- An empty document has the standard configuration, which is valid.
example : parse [] = .ok standard := by with_unfolding_all rfl

end Configuration

/-! ## The conventional file -/

theorem Tree.pathExists_iff {tree : Tree} {path : Path} :
    tree.pathExists path = true ↔ ∃ found, tree.find path = .ok found := by
  unfold pathExists
  cases tree.find path <;> simp [Except.isOk, Except.toBool]

theorem Tree.exists_find_of_read_ok {tree : Tree} {path : Path} {content : Bytes}
    (h : tree.read path = .ok content) : ∃ found, tree.find path = .ok found := by
  cases hfind : tree.find path with
  | ok found => exact ⟨found, rfl⟩
  | error cause =>
      rw [read, hfind] at h
      cases h

namespace Workspace

/-- Where the conventional configuration file of the workspace is looked for. -/
def conventionalPath (workspace : Workspace) : Path :=
  workspace.root.join configurationFile

/-- Without a named file, the standard configuration is taken if nothing is found under
the conventional name.  From anything that is found there, a configuration is loaded
exactly if it is a readable file in UTF-8 with a document that is accepted, and each of
the ways to fail is reported with its cause.  So a file that is found stands for the
standard configuration only if it writes this configuration, as an empty document does. -/
structure LoadsConventional (workspace : Workspace) : Prop where
  missing : (∀ found, workspace.tree.find workspace.conventionalPath ≠ .ok found) →
    workspace.loadConfiguration none = .ok .standard
  loaded : ∀ found, workspace.tree.find workspace.conventionalPath = .ok found →
    ∀ configuration, workspace.loadConfiguration none = .ok configuration ↔
      ∃ content document,
        workspace.tree.read workspace.conventionalPath = .ok content ∧
        Utf8.decode? content = some document ∧
        Configuration.parse document = .ok configuration
  unreadable : ∀ found, workspace.tree.find workspace.conventionalPath = .ok found →
    ∀ cause, workspace.tree.read workspace.conventionalPath = .error cause →
      workspace.loadConfiguration none =
        .error ⟨workspace.conventionalPath, .unreadable cause⟩
  notUtf8 : ∀ content,
    workspace.tree.read workspace.conventionalPath = .ok content →
    Utf8.decode? content = none →
      workspace.loadConfiguration none =
        .error ⟨workspace.conventionalPath, .notUtf8⟩
  rejected : ∀ content document error,
    workspace.tree.read workspace.conventionalPath = .ok content →
    Utf8.decode? content = some document →
    Configuration.parse document = .error error →
      workspace.loadConfiguration none =
        .error ⟨workspace.conventionalPath, .rejected error⟩

variable {workspace : Workspace}

theorem loadConfiguration_of_missing
    (h : ∀ found, workspace.tree.find workspace.conventionalPath ≠ .ok found) :
    workspace.loadConfiguration none = .ok .standard := by
  have hmissing : ¬ workspace.tree.pathExists workspace.conventionalPath := by
    rw [Tree.pathExists_iff]
    rintro ⟨found, hfound⟩
    exact h found hfound
  exact if_neg hmissing

theorem loadConfiguration_of_found {found : Found}
    (h : workspace.tree.find workspace.conventionalPath = .ok found) :
    workspace.loadConfiguration none =
      (workspace.tree.readConfiguration workspace.conventionalPath).mapError
        (⟨workspace.conventionalPath, ·⟩) :=
  if_pos (Tree.pathExists_iff.mpr ⟨found, h⟩)

end Workspace

theorem mapError_eq_ok_iff {ε ε' α : Type} {result : Except ε α} {f : ε → ε'}
    {a : α} : result.mapError f = .ok a ↔ result = .ok a := by
  cases result <;> simp [Except.mapError]

theorem Tree.readConfiguration_eq_ok_iff {tree : Tree} {path : Path}
    {configuration : Configuration} :
    tree.readConfiguration path = .ok configuration ↔
      ∃ content document, tree.read path = .ok content ∧
        Utf8.decode? content = some document ∧
        Configuration.parse document = .ok configuration := by
  unfold readConfiguration
  split
  · next cause hread => simp [hread]
  · next content hread =>
    split
    · next hdecode => simp [hread, hdecode]
    · next document hdecode => simp [hread, hdecode, mapError_eq_ok_iff]

theorem Workspace.loadsConventional (workspace : Workspace) :
    workspace.LoadsConventional where
  missing := loadConfiguration_of_missing
  loaded found hfound configuration := by
    rw [loadConfiguration_of_found hfound, mapError_eq_ok_iff,
      Tree.readConfiguration_eq_ok_iff]
  unreadable found hfound cause hread := by
    rw [loadConfiguration_of_found hfound, Tree.readConfiguration, hread]
    rfl
  notUtf8 content hread hdecode := by
    obtain ⟨found, hfound⟩ := Tree.exists_find_of_read_ok hread
    rw [loadConfiguration_of_found hfound, Tree.readConfiguration, hread]
    simp only [hdecode]
    rfl
  rejected content document error hread hdecode hparse := by
    obtain ⟨found, hfound⟩ := Tree.exists_find_of_read_ok hread
    rw [loadConfiguration_of_found hfound, Tree.readConfiguration, hread]
    simp only [hdecode, hparse]
    rfl

/-! ## Documents over the standard configuration -/

/-- A document that fits is laid over the standard configuration field by field at every
level.  A collection that it gives replaces the standard one and nothing else, where a
table of satellites holds just the given ones, and keys that no field has change nothing.

The outcome is validated completely, and a workspace is given the standard configuration
without a document only if nothing is found under the conventional name. -/
theorem documents_overlay_defaults :
    (∀ (value : Value) (configuration : Configuration),
      Configuration.ofValue? value = some configuration ↔
        value.WritesConfiguration configuration) ∧
    (∀ (origin : Toml.TableOrigin) (fields : Entries)
        (configuration : Configuration),
      Configuration.ofValue? (.table origin fields) = some configuration →
        Configuration.ReplacesCollections origin fields configuration) ∧
    (∀ (origin : Toml.TableOrigin) (entries : Entries) (table : SatelliteTable),
      (Value.table origin entries).WritesSatellites table →
      (entries.map Prod.fst).Nodup →
      ∀ satellite canonical, (satellite, canonical) ∈ table.entries ↔
        (satellite, Value.string canonical) ∈ entries) ∧
    (∀ value value' : Value,
      Relation.ReflTransGen (AddsKey (.record Configuration.shape))
        value value' →
      Configuration.ofValue? value' = Configuration.ofValue? value) ∧
    (∀ (document : Text) (value : Value) (configuration : Configuration),
      Toml.parse? document = some value →
      Configuration.ofValue? value = some configuration →
      Configuration.Validated document configuration) ∧
    ∀ workspace : Workspace, workspace.LoadsConventional := by
  refine ⟨fun _ _ => Configuration.ofValue?_eq_some_iff, ?_,
    fun _ _ _ => Value.WritesSatellites.mem_entries_iff,
    fun _ _ => Configuration.ofValue?_eq_of_addsKeys,
    fun _ _ _ => Configuration.validated, Workspace.loadsConventional⟩
  intro origin fields configuration hvalue
  obtain ⟨_, hfields, hoverlaid⟩ :=
    Configuration.ofValue?_eq_some_iff.mp hvalue
  obtain rfl : fields = _ := Option.some.inj hfields
  exact Configuration.replacesCollections origin hoverlaid

/-- A document with a library and with a group that has no sources.  No field has the
keys `colour` and `language`. -/
def groupOnlyNamedDocument : Text :=
  "colour = 'red'\n[layout]\nlibrary = 'src/'\n[[group]]\nname = 'docs'\nlanguage = 'en'\n".toList

/-- The fields that this document writes, the group with the given keys. -/
def groupOnlyNamedFields (group : Entries) : Entries :=
  [("layout".toList, .table .header [("library".toList, .string "src/".toList)]),
    ("group".toList, .tables [group])]

/-- What this document writes. -/
def groupOnlyNamedValue : Value :=
  .table .header (("colour".toList, .string "red".toList) ::
    groupOnlyNamedFields [("name".toList, .string "docs".toList),
      ("language".toList, .string "en".toList)])

/-- A configuration with another library than the standard one and with a group that has
nothing but a name. -/
def Configuration.groupOnlyNamed : Configuration where
  makefile := Configuration.standard.makefile
  layout := { Layout.standard with library := "src/".toList }
  groups := [{
    name := "docs".toList
    directory := none
    files := []
    recursive := false
    includeFlags := []
    objectsVariable := none
    vendored := false
    tracked := true }]
  objectLists := Configuration.standard.objectLists
  flags := Configuration.standard.flags
  listing := Configuration.standard.listing

theorem addsKeys_groupOnlyNamed :
    Relation.ReflTransGen (AddsKey (.record Configuration.shape))
      (.table .header
        (groupOnlyNamedFields [("name".toList, .string "docs".toList)]))
      groupOnlyNamedValue := by
  have hlanguage : AddsKey (.record SourceGroup.shape)
      (.table .header [("name".toList, .string "docs".toList)])
      (.table .header [("name".toList, .string "docs".toList),
        ("language".toList, .string "en".toList)]) :=
    .here (by decide) .header [("name".toList, .string "docs".toList)] [] _
  have hgroup : AddsKey (.list (.record SourceGroup.shape))
      (.tables [[("name".toList, .string "docs".toList)]])
      (.tables [[("name".toList, .string "docs".toList),
        ("language".toList, .string "en".toList)]]) :=
    .item hlanguage [] [] rfl rfl
  have hfield : ("group", .list (.record SourceGroup.shape)) ∈
      Configuration.shape := Configuration.mem_shape (by decide)
  exact .tail (.single (.field hfield hgroup .header
    [("layout".toList,
      .table .header [("library".toList, .string "src/".toList)])] []))
    (.here (by decide) .header [] _ _)

/-- The fields of the document that are left out have their standard values, the keys
that no field has are ignored, and the document is refused for its group. -/
theorem documents_overlay_defaults_groupOnlyNamed :
    Toml.parse? groupOnlyNamedDocument = some groupOnlyNamedValue ∧
    groupOnlyNamedValue.WritesConfiguration .groupOnlyNamed ∧
    Configuration.ofValue? groupOnlyNamedValue =
      Configuration.ofValue? (.table .header
        (groupOnlyNamedFields [("name".toList, .string "docs".toList)])) ∧
    Configuration.parse groupOnlyNamedDocument =
      .error (.groupWithoutSources "docs".toList) := by
  obtain ⟨hwrites, -, -, hunknown, hvalidated, -⟩ := documents_overlay_defaults
  have hparse : Toml.parse? groupOnlyNamedDocument =
      some groupOnlyNamedValue := by with_unfolding_all rfl
  have hvalue : Configuration.ofValue? groupOnlyNamedValue =
      some .groupOnlyNamed := by rfl
  refine ⟨hparse, (hwrites _ _).mp hvalue,
    hunknown _ _ addsKeys_groupOnlyNamed, ?_⟩
  refine ((hvalidated _ _ _ hparse hvalue).groupWithoutSources _).mpr
    ⟨by decide, _, ⟨[], [], rfl, ?_, List.forall_mem_nil _⟩, rfl⟩
  rintro (hdirectory | hfiles)
  · exact hdirectory rfl
  · exact hfiles rfl

end HeaderMake
