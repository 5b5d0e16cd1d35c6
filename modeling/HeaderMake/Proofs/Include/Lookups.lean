import HeaderMake.Proofs.Include.Visit
import HeaderMake.Proofs.Satellites
import Mathlib.Tactic.ByContra
import Mathlib.Tactic.Tauto

/-!
# What a walk looks up

The lookups of a walk are the paths that it visits.  They determine the headers that it
lists (`dependencies_resolve`), each path is among them at most once
(`nodup_lookups_walkIncludes`), and together with the paths that were visited before they
are closed: they hold every pending path, everything that a looked-up file includes, and
the canonical path of everything that cannot be read.

The last of these needs a settled satellite table.  A path that was reached by a
relocation is not relocated again, although its text may lie under a satellite, and what
is lost by that must be nothing new.
-/

namespace HeaderMake

/-! ## Each path once -/

/-- A walk does not look up what was visited before. -/
theorem not_mem_of_mem_lookups (layout : Layout) (view : SourceView)
    (visited : List Path) (pending : List Pending) :
    ∀ path ∈ (walkIncludes layout view visited pending).lookups,
      path ∉ visited := by
  induction visited, pending using walk_induction layout view with
  | done visited => simp [Resolution.empty]
  | known visited next rest hvisited ih =>
      rwa [walkIncludes_of_mem hvisited]
  | fresh visited next rest hvisited ih =>
      intro path hpath
      rw [walkIncludes_of_not_mem hvisited, Resolution.lookups_append,
        Layout.lookups_finding, List.singleton_append, List.mem_cons] at hpath
      rcases hpath with rfl | hpath
      · exact hvisited
      · exact fun hmem => ih path hpath (List.mem_cons_of_mem _ hmem)

theorem nodup_lookups_walkIncludes (layout : Layout) (view : SourceView)
    (visited : List Path) (pending : List Pending) :
    (walkIncludes layout view visited pending).lookups.Nodup := by
  induction visited, pending using walk_induction layout view with
  | done visited => simp [Resolution.empty]
  | known visited next rest hvisited ih =>
      rwa [walkIncludes_of_mem hvisited]
  | fresh visited next rest hvisited ih =>
      rw [walkIncludes_of_not_mem hvisited, Resolution.lookups_append,
        Layout.lookups_finding, List.singleton_append, List.nodup_cons]
      refine ⟨?_, ih⟩
      intro hmem
      exact not_mem_of_mem_lookups layout view _ _ next.path hmem
        List.mem_cons_self

/-- The headers of a walk are those of its lookups that can be read and bear no source
marker, in the same order. -/
theorem dependencies_walkIncludes (layout : Layout) (view : SourceView)
    (visited : List Path) (pending : List Pending) :
    (walkIncludes layout view visited pending).dependencies =
      (walkIncludes layout view visited pending).lookups.filter
        (layout.lists view) := by
  induction visited, pending using walk_induction layout view with
  | done visited => simp [Resolution.empty]
  | known visited next rest hvisited ih =>
      rwa [walkIncludes_of_mem hvisited]
  | fresh visited next rest hvisited ih =>
      rw [walkIncludes_of_not_mem hvisited, Resolution.dependencies_append,
        Resolution.lookups_append, List.filter_append, ← ih]
      by_cases hlists : layout.lists view next.path
      · simp [Layout.finding, hlists]
      · simp [Layout.finding, hlists]

theorem mem_dependencies_walkIncludes_iff {layout : Layout}
    {view : SourceView} {visited : List Path} {pending : List Pending}
    {path : Path} :
    path ∈ (walkIncludes layout view visited pending).dependencies ↔
      path ∈ (walkIncludes layout view visited pending).lookups ∧
        (view.read path).isSome ∧
        ¬Text.contains layout.sourceMarker path := by
  rw [dependencies_walkIncludes, List.mem_filter, Layout.lists_iff]

/-- The headers of a source are the bootstrap header and then those of its lookups that
can be read and bear no source marker. -/
theorem dependencies_resolve (layout : Layout) (view : SourceView)
    (file : Path) :
    (resolve layout view file).dependencies =
      layout.bootstrapHeader ::
        (resolve layout view file).lookups.filter (layout.lists view) :=
  congrArg (layout.bootstrapHeader :: ·)
    (dependencies_walkIncludes layout view [layout.bootstrapHeader]
      [⟨file, false⟩])

/-- A listed path is one that the walk looks up. -/
theorem mem_dependencies_resolve_iff {layout : Layout} {view : SourceView}
    {file path : Path} (hheader : path ≠ layout.bootstrapHeader) :
    path ∈ (resolve layout view file).dependencies ↔
      path ∈ (resolve layout view file).lookups ∧
        (view.read path).isSome ∧
        ¬Text.contains layout.sourceMarker path := by
  rw [dependencies_resolve, List.mem_cons, or_iff_right hheader,
    List.mem_filter, Layout.lists_iff]

/-! ## Nothing pending is lost -/

/-- The paths that have been visited when the walk ends. -/
def visitedAfter (layout : Layout) (view : SourceView) (visited : List Path)
    (pending : List Pending) : List Path :=
  visited ++ (walkIncludes layout view visited pending).lookups

theorem mem_visitedAfter_cons_iff {layout : Layout} {view : SourceView}
    {visited : List Path} {next : Pending} {rest : List Pending} {path : Path}
    (hvisited : next.path ∉ visited) :
    path ∈ visitedAfter layout view visited (next :: rest) ↔
      path ∈ visitedAfter layout view (next.path :: visited)
        (layout.followUps view next ++ rest) := by
  simp only [visitedAfter, walkIncludes_of_not_mem hvisited,
    Resolution.lookups_append, Layout.lookups_finding, List.mem_append,
    List.mem_cons, List.not_mem_nil, or_false]
  tauto

theorem visitedAfter_of_mem {layout : Layout} {view : SourceView}
    {visited : List Path} {next : Pending} {rest : List Pending}
    (hvisited : next.path ∈ visited) :
    visitedAfter layout view visited (next :: rest) =
      visitedAfter layout view visited rest := by
  rw [visitedAfter, walkIncludes_of_mem hvisited, visitedAfter]

theorem mem_visitedAfter_of_mem_pending (layout : Layout) (view : SourceView)
    (visited : List Path) (pending : List Pending) :
    ∀ next ∈ pending, next.path ∈ visitedAfter layout view visited pending := by
  induction visited, pending using walk_induction layout view with
  | done visited => simp
  | known visited next rest hvisited ih =>
      rw [visitedAfter_of_mem hvisited]
      intro other hother
      rcases List.mem_cons.mp hother with rfl | hother
      · exact List.mem_append_left _ hvisited
      · exact ih other hother
  | fresh visited next rest hvisited ih =>
      intro other hother
      rw [mem_visitedAfter_cons_iff hvisited]
      rcases List.mem_cons.mp hother with rfl | hother
      · exact List.mem_append_left _ List.mem_cons_self
      · exact ih other (List.mem_append_right _ hother)

/-- What a looked-up file includes has been visited when the walk ends. -/
theorem included_mem_visitedAfter (layout : Layout) (view : SourceView)
    (visited : List Path) (pending : List Pending) {path : Path}
    {content : Bytes} (hread : view.read path = some content) :
    path ∈ (walkIncludes layout view visited pending).lookups →
    ∀ included ∈ includedPaths path content,
      included ∈ visitedAfter layout view visited pending := by
  induction visited, pending using walk_induction layout view with
  | done visited => simp [Resolution.empty]
  | known visited next rest hvisited ih =>
      rwa [walkIncludes_of_mem hvisited, visitedAfter_of_mem hvisited]
  | fresh visited next rest hvisited ih =>
      intro hpath included hincluded
      rw [mem_visitedAfter_cons_iff hvisited]
      rw [walkIncludes_of_not_mem hvisited, Resolution.lookups_append,
        Layout.lookups_finding, List.singleton_append, List.mem_cons] at hpath
      rcases hpath with rfl | hpath
      · apply mem_visitedAfter_of_mem_pending layout view _ _
          ⟨included, false⟩
        rw [Layout.followUps_of_read hread]
        exact List.mem_append_left _ (List.mem_map_of_mem hincluded)
      · exact ih hpath included hincluded

/-- Every pending path that is marked as relocated comes from a visited one. -/
def RelocatedFromVisited (layout : Layout) (visited : List Path)
    (pending : List Pending) : Prop :=
  ∀ next ∈ pending, next.relocated = true →
    ∃ source ∈ visited,
      layout.satellites.relocate? source = some next.path

theorem RelocatedFromVisited.tail {layout : Layout} {visited : List Path}
    {next : Pending} {rest : List Pending}
    (h : RelocatedFromVisited layout visited (next :: rest)) :
    RelocatedFromVisited layout visited rest :=
  fun other hother => h other (List.mem_cons_of_mem _ hother)

theorem RelocatedFromVisited.followUps {layout : Layout} {visited : List Path}
    {next : Pending} {rest : List Pending}
    (h : RelocatedFromVisited layout visited (next :: rest))
    (view : SourceView) :
    RelocatedFromVisited layout (next.path :: visited)
      (layout.followUps view next ++ rest) := by
  intro other hother hrelocated
  rcases List.mem_append.mp hother with hnew | hold
  · exact ⟨next.path, List.mem_cons_self,
      Layout.relocate?_of_fallback?
        (Layout.fallback?_of_mem_followUps hnew hrelocated)⟩
  · obtain ⟨source, hsource, hrelocate⟩ := h.tail other hold hrelocated
    exact ⟨source, List.mem_cons_of_mem _ hsource, hrelocate⟩

/-- By a settled table, the canonical path of a path that cannot be read has been visited
when the walk ends, also where the path itself comes from a relocation. -/
theorem canonical_mem_visitedAfter {layout : Layout}
    (hsettled : layout.satellites.Settled) (view : SourceView)
    (visited : List Path) (pending : List Pending) {path canonical : Path}
    (hread : view.read path = none)
    (hrelocate : layout.satellites.relocate? path = some canonical) :
    RelocatedFromVisited layout visited pending →
    path ∈ (walkIncludes layout view visited pending).lookups →
    canonical ∈ visitedAfter layout view visited pending := by
  induction visited, pending using walk_induction layout view with
  | done visited => simp [Resolution.empty]
  | known visited next rest hvisited ih =>
      rw [walkIncludes_of_mem hvisited, visitedAfter_of_mem hvisited]
      exact fun hpending => ih hpending.tail
  | fresh visited next rest hvisited ih =>
      intro hpending hpath
      rw [walkIncludes_of_not_mem hvisited, Resolution.lookups_append,
        Layout.lookups_finding, List.singleton_append, List.mem_cons] at hpath
      rw [mem_visitedAfter_cons_iff hvisited]
      rcases hpath with rfl | hpath
      · cases hfallback : layout.fallback? next with
        | some other =>
            have hother : other = canonical := by
              have := Layout.relocate?_of_fallback? hfallback
              rw [hrelocate] at this
              exact (Option.some.inj this).symm
            subst hother
            apply mem_visitedAfter_of_mem_pending layout view _ _
              ⟨other, true⟩
            rw [Layout.followUps_of_unreadable hread, hfallback]
            simp
        | none =>
            have hrelocated : next.relocated = true := by
              by_contra hnot
              simp [Layout.fallback?, hnot, hrelocate] at hfallback
            obtain ⟨source, hsource, hfrom⟩ :=
              hpending next List.mem_cons_self hrelocated
            rcases hsettled source next.path canonical hfrom hrelocate with
              rfl | rfl | rfl
            · exact absurd hsource hvisited
            · exact List.mem_append_left _ List.mem_cons_self
            · exact List.mem_append_left _ (List.mem_cons_of_mem _ hsource)
      · exact ih (hpending.followUps view) hpath

end HeaderMake
