import HeaderMake.Include.Walk

/-!
# One visit of the include walk

Whatever a path leads to, visiting it does two things: it adds something of its own to
what the walk finds, and it puts paths in front of those that are still pending.
`Layout.finding` and `Layout.followUps` say what these are, so that a walk is the finding
of its first fresh path followed by the walk over what is then pending.

The module gives this equation and the induction that goes with it.  Every fact about
whole walks is proved by that induction, with one case for a fresh path instead of one
for each way in which a path may be read, relocated or given up.
-/

namespace HeaderMake

/-! ## Joining resolutions -/

/-- What one walk finds, followed by what another one finds. -/
def Resolution.append (first second : Resolution) : Resolution where
  dependencies := first.dependencies ++ second.dependencies
  events := first.events ++ second.events
  lookups := first.lookups ++ second.lookups

instance : Append Resolution := ⟨Resolution.append⟩

namespace Resolution

@[simp]
theorem dependencies_append (first second : Resolution) :
    (first ++ second).dependencies =
      first.dependencies ++ second.dependencies := rfl

@[simp]
theorem events_append (first second : Resolution) :
    (first ++ second).events = first.events ++ second.events := rfl

@[simp]
theorem lookups_append (first second : Resolution) :
    (first ++ second).lookups = first.lookups ++ second.lookups := rfl

theorem append_assoc (first second third : Resolution) :
    first ++ second ++ third = first ++ (second ++ third) := by
  change Resolution.append (Resolution.append first second) third =
    Resolution.append first (Resolution.append second third)
  simp [Resolution.append]

theorem append_empty (resolution : Resolution) :
    resolution ++ Resolution.empty = resolution := by
  change Resolution.append resolution Resolution.empty = resolution
  simp [Resolution.append, Resolution.empty]

end Resolution

/-! ## What a visit adds -/

namespace Layout

/-- Whether a path is listed as a header once the walk has come to it. -/
def lists (layout : Layout) (view : SourceView) (path : Path) : Bool :=
  (view.read path).isSome && !Text.contains layout.sourceMarker path

theorem lists_iff {layout : Layout} {view : SourceView} {path : Path} :
    layout.lists view path = true ↔
      (view.read path).isSome ∧
        ¬Text.contains layout.sourceMarker path := by
  simp [lists]

/-- What visiting a path adds to the walk by itself. -/
def finding (layout : Layout) (view : SourceView) (next : Pending) :
    Resolution where
  dependencies := if layout.lists view next.path then [next.path] else []
  events :=
    match view.read next.path, layout.fallback? next with
    | some _, _ => []
    | none, some canonical => [.satelliteFallback next.path canonical]
    | none, none => [.unresolvedInclude next.path]
  lookups := [next.path]

/-- The paths that visiting a path puts in front of those still pending. -/
def followUps (layout : Layout) (view : SourceView) (next : Pending) :
    List Pending :=
  match view.read next.path with
  | some content => (includedPaths next.path content).map (⟨·, false⟩)
  | none => (layout.fallback? next).toList.map (⟨·, true⟩)

@[simp]
theorem lookups_finding (layout : Layout) (view : SourceView)
    (next : Pending) : (layout.finding view next).lookups = [next.path] := rfl

theorem followUps_of_read {layout : Layout} {view : SourceView}
    {next : Pending} {content : Bytes}
    (hread : view.read next.path = some content) :
    layout.followUps view next =
      (includedPaths next.path content).map (⟨·, false⟩) := by
  simp [followUps, hread]

theorem followUps_of_unreadable {layout : Layout} {view : SourceView}
    {next : Pending} (hread : view.read next.path = none) :
    layout.followUps view next =
      (layout.fallback? next).toList.map (⟨·, true⟩) := by
  simp [followUps, hread]

/-- Only a path that cannot be read is followed by a relocated one. -/
theorem fallback?_of_mem_followUps {layout : Layout} {view : SourceView}
    {next later : Pending} (hmem : later ∈ layout.followUps view next)
    (hrelocated : later.relocated = true) :
    layout.fallback? next = some later.path := by
  cases hread : view.read next.path with
  | some content =>
      rw [followUps_of_read hread, List.mem_map] at hmem
      obtain ⟨path, -, rfl⟩ := hmem
      cases hrelocated
  | none =>
      rw [followUps_of_unreadable hread, List.mem_map] at hmem
      obtain ⟨path, hpath, rfl⟩ := hmem
      simpa using hpath

theorem relocate?_of_fallback? {layout : Layout} {next : Pending}
    {canonical : Path} (h : layout.fallback? next = some canonical) :
    layout.satellites.relocate? next.path = some canonical := by
  unfold fallback? at h
  split at h
  · cases h
  · exact h

end Layout

/-! ## The walk, visit by visit -/

@[simp]
theorem walkIncludes_nil (layout : Layout) (view : SourceView)
    (visited : List Path) :
    walkIncludes layout view visited [] = Resolution.empty := by
  rw [walkIncludes]

theorem walkIncludes_of_mem {layout : Layout} {view : SourceView}
    {visited : List Path} {next : Pending} {rest : List Pending}
    (hvisited : next.path ∈ visited) :
    walkIncludes layout view visited (next :: rest) =
      walkIncludes layout view visited rest := by
  rw [walkIncludes, dif_pos hvisited]

theorem walkIncludes_of_not_mem {layout : Layout} {view : SourceView}
    {visited : List Path} {next : Pending} {rest : List Pending}
    (hvisited : next.path ∉ visited) :
    walkIncludes layout view visited (next :: rest) =
      layout.finding view next ++
        walkIncludes layout view (next.path :: visited)
          (layout.followUps view next ++ rest) := by
  rw [walkIncludes, dif_neg hvisited]
  change _ = Resolution.append (layout.finding view next) _
  split
  · next hread =>
    split
    · next canonical hfallback =>
      simp [Resolution.append, Resolution.addEvent, Resolution.addLookup,
        Layout.finding, Layout.lists, Layout.followUps, hread, hfallback]
    · next hfallback =>
      simp [Resolution.append, Resolution.addEvent, Resolution.addLookup,
        Layout.finding, Layout.lists, Layout.followUps, hread, hfallback]
  · next content hread =>
    by_cases hmarker : Text.contains layout.sourceMarker next.path
    · simp [Resolution.append, Resolution.addLookup, Layout.finding,
        Layout.lists, Layout.followUps, hread, hmarker]
    · simp [Resolution.append, Resolution.addLookup,
        Resolution.addDependency, Layout.finding, Layout.lists,
        Layout.followUps, hread, hmarker]

/-- Induction along a walk: a pending path is either visited already, and is dropped, or
is visited now. -/
@[elab_as_elim]
theorem walk_induction (layout : Layout) (view : SourceView)
    {motive : List Path → List Pending → Prop}
    (done : ∀ visited, motive visited [])
    (known : ∀ visited next rest, next.path ∈ visited →
      motive visited rest → motive visited (next :: rest))
    (fresh : ∀ visited next rest, next.path ∉ visited →
      motive (next.path :: visited) (layout.followUps view next ++ rest) →
      motive visited (next :: rest))
    (visited : List Path) (pending : List Pending) :
    motive visited pending := by
  induction visited, pending using walkIncludes.induct layout view with
  | case1 visited => exact done visited
  | case2 visited next rest hvisited ih =>
      exact known visited next rest hvisited ih
  | case3 visited next rest hvisited _ hread canonical hfallback ih =>
      apply fresh visited next rest hvisited
      simpa [Layout.followUps, hread, hfallback] using ih
  | case4 visited next rest hvisited _ hread hfallback ih =>
      apply fresh visited next rest hvisited
      simpa [Layout.followUps, hread, hfallback] using ih
  | case5 visited next rest hvisited _ content hread _ _ ih =>
      apply fresh visited next rest hvisited
      simpa [Layout.followUps, hread] using ih
  | case6 visited next rest hvisited _ content hread _ _ ih =>
      apply fresh visited next rest hvisited
      simpa [Layout.followUps, hread] using ih

end HeaderMake
