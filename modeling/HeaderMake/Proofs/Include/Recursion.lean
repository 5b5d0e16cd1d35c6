import HeaderMake.Proofs.Include.Visit

/-!
# The walk as a recursive visit

The headers of a source can be described without any list of pending paths: visit the
source, and visiting a path means visiting in turn what it includes.  `Exploration.visit`
is this recursion.  It threads one set of visited paths through all the visits and writes
down what it finds in the order in which it finds it.

The walk keeps a path pending for every include line that it has seen, also several
entries for one path, and looks at the visited paths only when an entry comes up.
`resolve_eq_visit` says that it still finds the same headers, makes the same lookups and
reports the same events as the recursion, all in the same order.
-/

namespace HeaderMake

theorem SourceView.unread_le_of_subset (view : SourceView)
    {visited visited' : List Path} (h : visited ⊆ visited') :
    view.unread visited' ≤ view.unread visited := by
  unfold SourceView.unread
  rw [← List.countP_eq_length_filter, ← List.countP_eq_length_filter]
  apply List.countP_mono_left
  intro path _ hpath
  simp only [Bool.and_eq_true, decide_eq_true_eq] at hpath ⊢
  exact ⟨hpath.1, fun hmem => hpath.2 (h hmem)⟩

/-- How far a recursive visit has come: the paths visited so far, and what has been
found on the way. -/
structure Exploration where
  visited : List Path
  found : Resolution

namespace Exploration

/-- Marks a path as visited. -/
def mark (state : Exploration) (path : Path) : Exploration where
  visited := path :: state.visited
  found := { state.found with lookups := state.found.lookups ++ [path] }

/-- Lists a path as a header, unless it bears the source marker. -/
def append (state : Exploration) (layout : Layout) (path : Path) :
    Exploration :=
  { state with found :=
      { state.found with
        dependencies :=
          if Text.contains layout.sourceMarker path then
            state.found.dependencies
          else state.found.dependencies ++ [path] } }

/-- Reports an event. -/
def report (state : Exploration) (event : Event) : Exploration :=
  { state with found :=
      { state.found with events := state.found.events ++ [event] } }

@[simp]
theorem visited_mark (state : Exploration) (path : Path) :
    (state.mark path).visited = path :: state.visited := rfl

@[simp]
theorem visited_append (state : Exploration) (layout : Layout)
    (path : Path) : (state.append layout path).visited = state.visited := rfl

@[simp]
theorem visited_report (state : Exploration) (event : Event) :
    (state.report event).visited = state.visited := rfl

mutual

/-- Visits a path.  A visited path is left alone.  A path that cannot be read is visited
once more under its canonical path, unless it is `rewritten`, that is, unless it is such
a canonical path itself.  A path that can be read is listed, and what it includes is
visited in the order of its lines. -/
def visitAndExtend (layout : Layout) (view : SourceView)
    (state : Exploration) (path : Path) (rewritten : Bool) :
    { after : Exploration // state.visited ⊆ after.visited } :=
  if _hvisited : path ∈ state.visited then ⟨state, List.Subset.refl _⟩
  else
    match _hread : view.read path with
    | none =>
      match _hfallback :
          if rewritten then none else layout.satellites.relocate? path with
      | some canonical =>
        let after := visitAndExtend layout view
          ((state.mark path).report (.satelliteFallback path canonical))
          canonical true
        ⟨after.1, List.Subset.trans (List.subset_cons_self _ _) after.2⟩
      | none =>
        ⟨(state.mark path).report (.unresolvedInclude path),
          List.subset_cons_self _ _⟩
    | some content =>
      let after := visitAllAndExtend layout view
        ((state.mark path).append layout path) (includedPaths path content)
      ⟨after.1, List.Subset.trans (List.subset_cons_self _ _) after.2⟩
termination_by (view.unread state.visited, if rewritten then 1 else 2)
decreasing_by
  · rcases Nat.lt_or_eq_of_le (view.unread_cons_le state.visited path) with
      hlt | heq
    · exact Prod.Lex.left _ _ hlt
    · rw [visited_report, visited_mark, heq]
      apply Prod.Lex.right
      cases rewritten with
      | false => simp
      | true => cases _hfallback
  · rw [visited_append]
    exact Prod.Lex.left _ _ (SourceView.unread_cons_lt _hread _hvisited)

/-- Visits some paths one after the other. -/
def visitAllAndExtend (layout : Layout) (view : SourceView)
    (state : Exploration) (paths : List Path) :
    { after : Exploration // state.visited ⊆ after.visited } :=
  match paths with
  | [] => ⟨state, List.Subset.refl _⟩
  | path :: rest =>
    let after := visitAndExtend layout view state path false
    let last := visitAllAndExtend layout view after.1 rest
    ⟨last.1, List.Subset.trans after.2 last.2⟩
termination_by (view.unread state.visited, 2 * paths.length + 1)
decreasing_by
  · apply Prod.Lex.right
    simp only [if_false, List.length_cons]
    omega
  · rcases Nat.lt_or_eq_of_le (view.unread_le_of_subset after.2) with
      hlt | heq
    · exact Prod.Lex.left _ _ hlt
    · rw [heq]
      exact Prod.Lex.right _ (by simp)

end

variable (layout : Layout) (view : SourceView)

/-- The state after a path has been visited. -/
def visit (state : Exploration) (path : Path) (rewritten : Bool) :
    Exploration :=
  (visitAndExtend layout view state path rewritten).1

/-- The state after some paths have been visited one after the other. -/
def visitAll (state : Exploration) (paths : List Path) : Exploration :=
  paths.foldl (fun state path => visit layout view state path false) state

variable {layout view}

theorem visitAllAndExtend_eq (state : Exploration) (paths : List Path) :
    (visitAllAndExtend layout view state paths).1 =
      visitAll layout view state paths := by
  induction paths generalizing state with
  | nil => rw [visitAllAndExtend, visitAll, List.foldl_nil]
  | cons path rest ih =>
      rw [visitAllAndExtend, visitAll, List.foldl_cons]
      exact ih _

theorem visit_of_mem {state : Exploration} {path : Path} (rewritten : Bool)
    (hvisited : path ∈ state.visited) :
    visit layout view state path rewritten = state := by
  rw [visit, visitAndExtend, dif_pos hvisited]

theorem visit_of_read {state : Exploration} {path : Path} {content : Bytes}
    (rewritten : Bool) (hvisited : path ∉ state.visited)
    (hread : view.read path = some content) :
    visit layout view state path rewritten =
      visitAll layout view ((state.mark path).append layout path)
        (includedPaths path content) := by
  rw [visit, visitAndExtend, dif_neg hvisited]
  split
  · next hnone =>
    rw [hread] at hnone
    cases hnone
  · next other hother =>
    rw [hread] at hother
    cases hother
    exact visitAllAndExtend_eq _ _

theorem visit_of_relocate {state : Exploration} {path canonical : Path}
    {rewritten : Bool} (hvisited : path ∉ state.visited)
    (hread : view.read path = none)
    (hfallback : layout.fallback? ⟨path, rewritten⟩ = some canonical) :
    visit layout view state path rewritten =
      visit layout view
        ((state.mark path).report (.satelliteFallback path canonical))
        canonical true := by
  rw [visit, visitAndExtend, dif_neg hvisited]
  split
  · split
    · next other hother =>
      have heq : other = canonical :=
        Option.some.inj (hother.symm.trans hfallback)
      rw [heq]
      rfl
    · next hnone => cases hnone.symm.trans hfallback
  · next content hcontent =>
    rw [hread] at hcontent
    cases hcontent

theorem visit_of_leaf {state : Exploration} {path : Path} {rewritten : Bool}
    (hvisited : path ∉ state.visited) (hread : view.read path = none)
    (hfallback : layout.fallback? ⟨path, rewritten⟩ = none) :
    visit layout view state path rewritten =
      (state.mark path).report (.unresolvedInclude path) := by
  rw [visit, visitAndExtend, dif_neg hvisited]
  split
  · split
    · next other hother => cases hother.symm.trans hfallback
    · rfl
  · next content hcontent =>
    rw [hread] at hcontent
    cases hcontent

/-! ## The walk follows the recursion -/

theorem found_mark_append {state : Exploration} {path : Path}
    {rewritten : Bool} {content : Bytes}
    (hread : view.read path = some content) :
    ((state.mark path).append layout path).found =
      state.found ++ layout.finding view ⟨path, rewritten⟩ := by
  change _ = Resolution.append _ _
  by_cases hmarker : Text.contains layout.sourceMarker path
  · simp [append, mark, Resolution.append, Layout.finding, Layout.lists,
      hread, hmarker]
  · simp [append, mark, Resolution.append, Layout.finding, Layout.lists,
      hread, hmarker]

theorem found_mark_report_relocated {state : Exploration}
    {path canonical : Path} {rewritten : Bool}
    (hread : view.read path = none)
    (hfallback : layout.fallback? ⟨path, rewritten⟩ = some canonical) :
    ((state.mark path).report (.satelliteFallback path canonical)).found =
      state.found ++ layout.finding view ⟨path, rewritten⟩ := by
  change _ = Resolution.append _ _
  simp [report, mark, Resolution.append, Layout.finding, Layout.lists,
    hread, hfallback]

theorem found_mark_report_leaf {state : Exploration} {path : Path}
    {rewritten : Bool} (hread : view.read path = none)
    (hfallback : layout.fallback? ⟨path, rewritten⟩ = none) :
    ((state.mark path).report (.unresolvedInclude path)).found =
      state.found ++ layout.finding view ⟨path, rewritten⟩ := by
  change _ = Resolution.append _ _
  simp [report, mark, Resolution.append, Layout.finding, Layout.lists,
    hread, hfallback]

/-- Walking on from one state over some pending paths gives the same as walking on from
another state over others, what has been found before included. -/
def WalksOnAs (layout : Layout) (view : SourceView)
    (state : Exploration) (pending : List Pending)
    (after : Exploration) (rest : List Pending) : Prop :=
  state.found ++ walkIncludes layout view state.visited pending =
    after.found ++ walkIncludes layout view after.visited rest

/-- Whatever is pending behind a path, walking on from the path is visiting it and then
walking on from what is pending behind it. -/
theorem walksOnAs_visit (layout : Layout) (view : SourceView) :
    (∀ state path rewritten rest,
      WalksOnAs layout view state (⟨path, rewritten⟩ :: rest)
        (visit layout view state path rewritten) rest) ∧
    (∀ state paths rest,
      WalksOnAs layout view state (paths.map (⟨·, false⟩) ++ rest)
        (visitAll layout view state paths) rest) := by
  unfold WalksOnAs
  refine visitAndExtend.mutual_induct layout view
    (fun state path rewritten => ∀ rest, WalksOnAs layout view state
      (⟨path, rewritten⟩ :: rest) (visit layout view state path rewritten) rest)
    (fun state paths => ∀ rest, WalksOnAs layout view state
      (paths.map (⟨·, false⟩) ++ rest) (visitAll layout view state paths) rest)
    ?_ ?_ ?_ ?_ ?_ ?_
  all_goals unfold WalksOnAs
  -- The path has been visited.
  · intro state path rewritten hvisited rest
    rw [visit_of_mem rewritten hvisited, walkIncludes_of_mem hvisited]
  -- It cannot be read and is visited under its canonical path.
  · intro state path rewritten hvisited hread canonical hfallback ih rest
    rw [visit_of_relocate hvisited hread hfallback, ← ih rest,
      found_mark_report_relocated hread hfallback,
      walkIncludes_of_not_mem hvisited,
      Layout.followUps_of_unreadable hread,
      show layout.fallback? ⟨path, rewritten⟩ = some canonical from hfallback,
      Resolution.append_assoc]
    rfl
  -- It cannot be read and is given up.
  · intro state path rewritten hvisited hread hfallback rest
    rw [visit_of_leaf hvisited hread hfallback,
      found_mark_report_leaf hread hfallback,
      walkIncludes_of_not_mem hvisited,
      Layout.followUps_of_unreadable hread,
      show layout.fallback? ⟨path, rewritten⟩ = none from hfallback,
      Resolution.append_assoc]
    rfl
  -- It can be read: its includes are visited before what is pending behind it.
  · intro state path rewritten hvisited content hread ih rest
    rw [visit_of_read rewritten hvisited hread, ← ih rest,
      found_mark_append hread, walkIncludes_of_not_mem hvisited,
      Layout.followUps_of_read hread, Resolution.append_assoc]
    rfl
  · intro state rest
    rfl
  · intro state path rest _ ihPath _ ihRest later
    rw [List.map_cons, List.cons_append, ihPath]
    exact ihRest later

end Exploration

/-- What is known before the first visit: the bootstrap header is visited and listed. -/
def Exploration.start (layout : Layout) : Exploration where
  visited := [layout.bootstrapHeader]
  found := ⟨[layout.bootstrapHeader], [], []⟩

/-- The walk from a source finds what the recursive visit of the source finds: the same
headers, the same events and the same lookups, in the same order. -/
theorem resolve_eq_visit (layout : Layout) (view : SourceView) (file : Path) :
    resolve layout view file =
      (Exploration.visit layout view (.start layout) file false).found := by
  have hwalk := (Exploration.walksOnAs_visit layout view).1 (.start layout)
    file false []
  rw [Exploration.WalksOnAs, walkIncludes_nil,
    Resolution.append_empty] at hwalk
  rw [← hwalk]
  rfl

end HeaderMake
