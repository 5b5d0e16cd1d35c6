import HeaderMake.Makefile.Rule
import HeaderMake.Proofs.Include.Rounds
import HeaderMake.Proofs.Tree.Readable

/-!
# The walk from a scanned source

A scan and an include walk come to the same file: what a group collects below its
directory is read under the very path that was collected, and the bytes are those of the
file that the scan has found, if the names that lead down to it are Unicode
(`scanned_sources_are_read`).  So the walk of such a source does not report the source as
missing, and its headers are not lost by a path that leads nowhere.

A name that is not UTF-8 is shown with replacement characters, and the path that shows it
leads nowhere (`source_lost_by_replacement`).  The paths of a listed group are taken as
they are, and none of this holds for them.
-/

namespace HeaderMake

/-! ## Events about missing files -/

/-- The event tells that a path could not be read. -/
def Event.Misses (event : Event) (path : Path) : Prop :=
  event = .unresolvedInclude path ∨
    ∃ canonical, event = .satelliteFallback path canonical

theorem Layout.read_of_misses_finding {layout : Layout} {view : SourceView}
    {next : Pending} {event : Event} {path : Path}
    (hevent : event ∈ (layout.finding view next).events)
    (hmisses : event.Misses path) : view.read path = none := by
  rcases hmisses with rfl | ⟨canonical, rfl⟩
  · simp only [finding] at hevent
    split at hevent
    · cases hevent
    · cases List.mem_singleton.mp hevent
    · next hread _ =>
      cases List.mem_singleton.mp hevent
      exact hread
  · obtain ⟨rfl, hread, -⟩ := of_relocation_mem_finding hevent
    exact hread

/-- A walk misses only paths that cannot be read. -/
theorem read_of_misses (layout : Layout) (view : SourceView)
    (visited : List Path) (pending : List Pending) {event : Event}
    {path : Path} (hmisses : event.Misses path) :
    event ∈ (walkIncludes layout view visited pending).events →
      view.read path = none := by
  induction visited, pending using walk_induction layout view with
  | done visited => simp [Resolution.empty]
  | known visited next rest hvisited ih =>
      rwa [walkIncludes_of_mem hvisited]
  | fresh visited next rest hvisited ih =>
      rw [walkIncludes_of_not_mem hvisited, Resolution.events_append,
        List.mem_append]
      rintro (hevent | hevent)
      · exact Layout.read_of_misses_finding hevent hmisses
      · exact ih hevent

/-! ## Rules of readable sources -/

/-- A rule has been resolved from a source with this content. -/
structure ResolvedRule.ReadsSource (layout : Layout) (view : SourceView)
    (content : Bytes) (resolved : ResolvedRule) : Prop where
  /-- No event tells that the source could not be read. -/
  found : ∀ event ∈ resolved.events, ¬event.Misses resolved.rule.source
  /-- Unless the source is the bootstrap header, it is looked up first, and the walk goes
  on with what the content includes. -/
  walk : resolved.rule.source ≠ layout.bootstrapHeader →
    resolved.resolution.lookups =
      resolved.rule.source :: (walkIncludes layout view
        [resolved.rule.source, layout.bootstrapHeader]
        ((includedPaths resolved.rule.source content).map
          (⟨·, false⟩))).lookups
  /-- What the content includes, and the source itself, is among the prerequisites if it
  counts as a header. -/
  headers : resolved.rule.source ≠ layout.bootstrapHeader →
    ∀ path ∈ resolved.rule.source ::
        includedPaths resolved.rule.source content,
      layout.lists view path → path ∈ resolved.rule.prerequisites

theorem readsSource_resolveRule {layout : Layout} {view : SourceView}
    (group : SourceGroup) {source : Path} {content : Bytes}
    (hread : view.read source = some content) :
    (resolveRule layout view group source).ReadsSource layout view
      content := by
  have hwalk : source ≠ layout.bootstrapHeader →
      (resolve layout view source).lookups =
        source :: (walkIncludes layout view [source, layout.bootstrapHeader]
          ((includedPaths source content).map (⟨·, false⟩))).lookups := by
    intro hheader
    change (walkIncludes layout view [layout.bootstrapHeader]
      [⟨source, false⟩]).lookups = _
    rw [walkIncludes_of_not_mem (by simpa using hheader),
      Layout.followUps_of_read hread, List.append_nil]
    rfl
  constructor
  · intro event hevent hmisses
    rcases List.mem_append.mp hevent with hmissed | hrule
    · have hnone := read_of_misses layout view _ _ hmisses hmissed
      rw [show view.read source = none from hnone] at hread
      cases hread
    · rw [List.mem_singleton.mp hrule] at hmisses
      rcases hmisses with heq | ⟨canonical, heq⟩ <;> cases heq
  · exact hwalk
  · intro hheader path hpath hlists
    have hfirst : source ∈ (resolve layout view source).lookups := by
      rw [hwalk hheader]
      exact List.mem_cons_self
    have hvisited : path ∈ visitedAfter layout view [layout.bootstrapHeader]
        [⟨source, false⟩] := by
      rcases List.mem_cons.mp hpath with rfl | hincluded
      · exact mem_visitedAfter_of_mem_pending layout view _ _ _
          (List.mem_singleton_self _)
      · exact included_mem_visitedAfter layout view _ _ hread
          hfirst path hincluded
    change path ∈ (resolve layout view source).dependencies
    rw [dependencies_resolve, List.mem_cons]
    rcases List.mem_append.mp hvisited with hbootstrap | hlookup
    · exact .inl (List.mem_singleton.mp hbootstrap)
    · exact .inr (List.mem_filter.mpr ⟨hlookup, hlists⟩)

/-! ## Sources that a group scans -/

/-- The scan of a directory text is led by names to the file at a location. -/
def Workspace.Scans (workspace : Workspace) (recursive : Bool)
    (directory : Path) (names : List Name) (location : Location) : Prop :=
  ∃ start,
    workspace.tree.find (workspace.root.join directory) =
        .ok (.directory start) ∧
      workspace.tree.scanned? recursive [start] start
        (workspace.root.join directory).raw names = some location

/-- Every source that a group collects below its directory is the path of a file to which
the scan was led by names, links followed.  If such names are Unicode, and the path from
the root is not too long, this path leads to that very file: its bytes are read, and the
rule of the source is resolved from them. -/
theorem scanned_sources_are_read (workspace : Workspace) (extension : Text)
    {group : SourceGroup} {directory source : Path} {segments : List Text}
    (hdirectory : group.directory = some directory)
    (hbelow : workspace.root.segmentsBelow? directory = some segments)
    (hsource : source ∈ (workspace.collectGroup extension group).files)
    (hlength : Text.byteLength (workspace.root.join source) ≤
      maxPathBytes) :
    (∃ names location,
      workspace.Scans group.recursive directory names location ∧
        Tree.hasExtension extension names = true ∧
        source = Tree.sourcePath segments names) ∧
    ∀ names location,
      workspace.Scans group.recursive directory names location →
      source = Tree.sourcePath segments names →
      (∀ name ∈ names, name.Unicode) →
      ∃ content,
        workspace.tree.find (workspace.root.join source) =
          .ok (.file location content) ∧
        workspace.tree.lookup location = some (.file content) ∧
        workspace.read source = .ok content ∧
        ∀ layout : Layout,
          (resolveRule layout workspace.view group source).ReadsSource layout
            workspace.view content := by
  constructor
  · simp only [Workspace.collectGroup, hdirectory] at hsource
    obtain ⟨start, names, hfind, hdown, hdepth, hextension, hone, heq⟩ :=
      (Tree.mem_collect_iff hbelow).mp hsource
    have hscan := (Tree.mem_scan_iff_leadsDown hfind).mpr
      ⟨hdown, hdepth, hone⟩
    obtain ⟨location, hlocation⟩ :=
      Option.isSome_iff_exists.mp (Tree.mem_scan_iff.mp hscan)
    exact ⟨names, location, ⟨start, hfind, hlocation⟩, hextension, heq⟩
  · rintro names location ⟨start, hfind, hlocation⟩ rfl hunicode
    obtain ⟨content, hfile, hlookup⟩ := Tree.find_sourcePath_of_scanned?
      hbelow hunicode hfind hlocation hlength
    have hread : workspace.read (Tree.sourcePath segments names) =
        .ok content := by
      rw [Workspace.read, Tree.read, hfile]
      rfl
    have hview : workspace.view.read (Tree.sourcePath segments names) =
        some content := by
      change (workspace.read _).toOption = some content
      rw [hread]
      rfl
    exact ⟨content, hfile, hlookup, hread,
      fun layout => readsSource_resolveRule group hview⟩

/-- The names that lead a scan to a file are those of entries. -/
theorem Workspace.Scans.unicode {workspace : Workspace} {recursive : Bool}
    {directory : Path} {names : List Name} {location : Location}
    (hunicode : workspace.tree.UnicodeNames)
    (h : workspace.Scans recursive directory names location) :
    ∀ name ∈ names, name.Unicode := by
  obtain ⟨start, hfind, hlocation⟩ := h
  have hscan := Tree.mem_scan_iff.mpr
    (Option.isSome_iff_exists.mpr ⟨location, hlocation⟩)
  exact ((Tree.mem_scan_iff_leadsDown hfind).mp hscan).1.unicode hunicode

/-- A group that scans the library of the tangled tree, by an absolute text with a segment
that names nothing. -/
def SourceGroup.tangled : SourceGroup :=
  { SourceGroup.scanning "lib".toList "/start-directory/./lib".toList [] none
    with recursive := true }

/-- The tangled tree with its top as the root, by an absolute text. -/
def Workspace.tangled : Workspace :=
  ⟨Tree.tangled, "/start-directory".toList⟩

/-- The path that goes up by a link and down again can be read. -/
theorem scanned_sources_are_read_tangled :
    SourceGroup.tangled.directory = some "/start-directory/./lib".toList ∧
      Workspace.tangled.root.segmentsBelow? "/start-directory/./lib".toList =
        some ["lib".toList] ∧
      "lib/up/main.cpp".toList ∈ (Workspace.tangled.collectGroup
        ".cpp".toList SourceGroup.tangled).files ∧
      Text.byteLength (Workspace.tangled.root.join
        "lib/up/main.cpp".toList) ≤ maxPathBytes ∧
      ∃ content,
        Workspace.tangled.read "lib/up/main.cpp".toList = .ok content ∧
        (resolveRule .standard Workspace.tangled.view SourceGroup.tangled
          "lib/up/main.cpp".toList).ReadsSource .standard
            Workspace.tangled.view content := by
  have hbelow : Workspace.tangled.root.segmentsBelow?
      "/start-directory/./lib".toList = some ["lib".toList] := by decide
  have hsource : "lib/up/main.cpp".toList ∈ (Workspace.tangled.collectGroup
      ".cpp".toList SourceGroup.tangled).files :=
    (Tree.mem_collect_iff hbelow).mpr Tree.collects_tangled_absolute
  have hlength : Text.byteLength (Workspace.tangled.root.join
      "lib/up/main.cpp".toList) ≤ maxPathBytes := by decide
  obtain ⟨⟨names, location, hscans, -, hpath⟩, hread⟩ :=
    scanned_sources_are_read Workspace.tangled ".cpp".toList rfl hbelow
      hsource hlength
  obtain ⟨content, -, -, hcontent, hrule⟩ := hread names location hscans hpath
    (hscans.unicode Tree.unicodeNames_tangled)
  exact ⟨rfl, hbelow, hsource, hlength, content, hcontent, hrule .standard⟩

/-! ## A name that is not UTF-8 -/

/-- The name of a source in Latin-1, in which one byte stands for the last letter before
the dot. -/
def Name.latin : Name :=
  ⟨Utf8.encode "caf".toList ++ [0xE9] ++ Utf8.encode ".cpp".toList, by decide⟩

/-- A source with that name, which includes the header beside it. -/
def Workspace.latin : Workspace where
  tree := (Tree.empty.putFile "lib/b.h".toList []).insert
    (Name.latin :: Tree.libraryLocation)
    (.file (Utf8.encode "#include \"b.h\"\n".toList))
  root := ".".toList

/-- A group that scans the library. -/
def SourceGroup.latin : SourceGroup :=
  .scanning "lib".toList "lib/".toList [] none

/-- A source that cannot be read, and is not relocated, is left with the bootstrap header,
and the walk reports it. -/
theorem resolve_of_unreadable {layout : Layout} {view : SourceView}
    {file : Path} (hheader : file ≠ layout.bootstrapHeader)
    (hread : view.read file = none)
    (hfallback : layout.satellites.relocate? file = none) :
    resolve layout view file =
      ⟨[layout.bootstrapHeader], [.unresolvedInclude file], [file]⟩ := by
  have hnothing : layout.fallback? ⟨file, false⟩ = none := hfallback
  rw [resolve, walkIncludes_of_not_mem (by simpa using hheader),
    Layout.followUps_of_unreadable hread, hnothing, Option.toList_none,
    List.map_nil, List.nil_append, walkIncludes_nil,
    Resolution.append_empty, Layout.finding, hread, hnothing, Layout.lists,
    hread]
  rfl

/-- The source is collected, but the path that shows it leads nowhere: the walk reports it
as missing, and its rule has the bootstrap header only. -/
theorem source_lost_by_replacement :
    Workspace.latin.root.segmentsBelow? "lib/".toList =
        some ["lib".toList] ∧
      "lib/caf\uFFFD.cpp".toList ∈ (Workspace.latin.collectGroup
        ".cpp".toList SourceGroup.latin).files ∧
      Text.byteLength (Workspace.latin.root.join
        "lib/caf\uFFFD.cpp".toList) ≤ maxPathBytes ∧
      (∃ location content,
        Workspace.latin.Scans SourceGroup.latin.recursive "lib/".toList
            [.latin] location ∧
          Workspace.latin.tree.lookup location = some (.file content) ∧
          includedPaths "lib/caf\uFFFD.cpp".toList content =
            ["lib/b.h".toList]) ∧
      Layout.standard.lists Workspace.latin.view "lib/b.h".toList = true ∧
      (∀ content, Workspace.latin.read "lib/caf\uFFFD.cpp".toList ≠
        .ok content) ∧
      "lib/caf\uFFFD.cpp".toList ≠ Layout.standard.bootstrapHeader ∧
      .unresolvedInclude "lib/caf\uFFFD.cpp".toList ∈
        (resolveRule .standard Workspace.latin.view SourceGroup.latin
          "lib/caf\uFFFD.cpp".toList).events ∧
      (resolveRule .standard Workspace.latin.view SourceGroup.latin
          "lib/caf\uFFFD.cpp".toList).rule.prerequisites =
        [Layout.standard.bootstrapHeader] := by
  have hread : Workspace.latin.view.read "lib/caf\uFFFD.cpp".toList =
      none := by decide +kernel
  have hfallback : Layout.standard.satellites.relocate?
      "lib/caf\uFFFD.cpp".toList = none := by decide +kernel
  have hresolve := resolve_of_unreadable (by decide) hread hfallback
  have hfiles : (Workspace.latin.collectGroup ".cpp".toList
      SourceGroup.latin).files = ["lib/caf\uFFFD.cpp".toList] := by
    decide +kernel
  have hscans : Workspace.latin.tree.scanned? false
      [Tree.libraryLocation] Tree.libraryLocation
      (Path.raw "./lib/".toList) [.latin] =
        some (.latin :: Tree.libraryLocation) := by decide +kernel
  have hincludes : ∃ location content,
      Workspace.latin.Scans SourceGroup.latin.recursive "lib/".toList [.latin]
          location ∧
        Workspace.latin.tree.lookup location = some (.file content) ∧
        includedPaths "lib/caf\uFFFD.cpp".toList content =
          ["lib/b.h".toList] :=
    ⟨_, Utf8.encode "#include \"b.h\"\n".toList,
      ⟨_, by decide +kernel, hscans⟩, by decide +kernel, by decide +kernel⟩
  refine ⟨by decide, hfiles ▸ List.mem_singleton_self _, by decide, hincludes,
    by decide +kernel, ?_, by decide, ?_, ?_⟩
  · intro content hcontent
    change (Workspace.latin.read _).toOption = none at hread
    rw [hcontent] at hread
    cases hread
  · rw [ResolvedRule.events, resolveRule, hresolve]
    exact List.mem_cons_self
  · change (resolve _ _ _).dependencies = _
    rw [hresolve]

end HeaderMake
