import HeaderMake.Proofs.Include.Lookups
import HeaderMake.Proofs.Include.Recursion
import Mathlib.Logic.Function.Iterate

/-!
# The walk as a loop

A walk can be carried out round by round: each round takes the first pending path, drops
it if it has been visited, and otherwise visits it and puts what follows from it in front
of the others.  `WalkState.round` is one such round.

Nothing in a round says that the pending paths ever run out, since a round may put any
number of paths in front, and paths may grow from round to round.
`rounds_end_each_path_once` says that they do run out, for every layout and every view,
that the loop then has what `resolve` gives, and that on the way no path is looked up
twice and no path that comes from a relocation is relocated by a later one.
-/

namespace HeaderMake

/-! ## One round -/

/-- A walk between two rounds: how far it has come, and the paths still pending, the next
one first. -/
structure WalkState where
  explored : Exploration
  pending : List Pending

namespace WalkState

/-- The walk from a source before its first round. -/
def start (layout : Layout) (file : Path) : WalkState where
  explored := .start layout
  pending := [⟨file, false⟩]

/-- Takes the first pending path and visits it, unless it has been visited. -/
def round (layout : Layout) (view : SourceView) (state : WalkState) :
    WalkState :=
  match state.pending with
  | [] => state
  | next :: rest =>
    if next.path ∈ state.explored.visited then { state with pending := rest }
    else
      let marked := state.explored.mark next.path
      match view.read next.path with
      | none =>
        match layout.fallback? next with
        | some canonical =>
          { explored := marked.report (.satelliteFallback next.path canonical)
            pending := ⟨canonical, true⟩ :: rest }
        | none =>
          { explored := marked.report (.unresolvedInclude next.path)
            pending := rest }
      | some content =>
        { explored := marked.append layout next.path
          pending := (includedPaths next.path content).map (⟨·, false⟩) ++ rest }

variable {layout : Layout} {view : SourceView}

theorem round_of_mem {explored : Exploration} {next : Pending}
    {rest : List Pending} (hvisited : next.path ∈ explored.visited) :
    round layout view ⟨explored, next :: rest⟩ = ⟨explored, rest⟩ := by
  simp only [round, if_pos hvisited]

/-- A round at a fresh path adds the finding of the path and puts its follow-ups in
front. -/
theorem round_of_not_mem {explored : Exploration} {next : Pending}
    {rest : List Pending} (hvisited : next.path ∉ explored.visited) :
    round layout view ⟨explored, next :: rest⟩ =
      { explored :=
          { visited := next.path :: explored.visited
            found := explored.found ++ layout.finding view next }
        pending := layout.followUps view next ++ rest } := by
  simp only [round, if_neg hvisited]
  cases hread : view.read next.path with
  | some content =>
      have hfound : ((explored.mark next.path).append layout next.path).found =
          explored.found ++ layout.finding view next :=
        Exploration.found_mark_append hread
      rw [Layout.followUps_of_read hread, ← hfound]
      rfl
  | none =>
      rw [Layout.followUps_of_unreadable hread]
      cases hfallback : layout.fallback? next with
      | some canonical =>
          have hfound : ((explored.mark next.path).report
              (.satelliteFallback next.path canonical)).found =
                explored.found ++ layout.finding view next :=
            Exploration.found_mark_report_relocated hread hfallback
          rw [← hfound]
          rfl
      | none =>
          have hfound : ((explored.mark next.path).report
              (.unresolvedInclude next.path)).found =
                explored.found ++ layout.finding view next :=
            Exploration.found_mark_report_leaf hread hfallback
          rw [← hfound]
          rfl

/-- From every state the pending paths run out, and what has been found by then is what
the walk over them finds. -/
theorem exists_rounds (layout : Layout) (view : SourceView)
    (visited : List Path) (pending : List Pending) :
    ∀ found, ∃ rounds,
      ((round layout view)^[rounds] ⟨⟨visited, found⟩, pending⟩).pending = [] ∧
      ((round layout view)^[rounds] ⟨⟨visited, found⟩, pending⟩).explored.found =
        found ++ walkIncludes layout view visited pending := by
  induction visited, pending using walk_induction layout view with
  | done visited =>
      intro found
      refine ⟨0, rfl, ?_⟩
      rw [walkIncludes_nil, Resolution.append_empty]
      rfl
  | known visited next rest hvisited ih =>
      intro found
      obtain ⟨rounds, hrounds⟩ := ih found
      refine ⟨rounds + 1, ?_⟩
      rwa [Function.iterate_succ_apply, round_of_mem hvisited,
        walkIncludes_of_mem hvisited]
  | fresh visited next rest hvisited ih =>
      intro found
      obtain ⟨rounds, hrounds⟩ := ih (found ++ layout.finding view next)
      refine ⟨rounds + 1, ?_⟩
      rwa [Function.iterate_succ_apply, round_of_not_mem hvisited,
        walkIncludes_of_not_mem hvisited, ← Resolution.append_assoc]

end WalkState

/-! ## Relocations do not follow each other -/

/-- The second event relocates the path to which the first one has relocated another. -/
def Event.RelocatedAgainBy (first later : Event) : Prop :=
  ∃ path canonical next, first = .satelliteFallback path canonical ∧
    later = .satelliteFallback canonical next

theorem of_relocation_mem_finding {layout : Layout} {view : SourceView}
    {next : Pending} {path canonical : Path}
    (h : .satelliteFallback path canonical ∈
      (layout.finding view next).events) :
    path = next.path ∧ view.read next.path = none ∧
      layout.fallback? next = some canonical := by
  simp only [Layout.finding] at h
  split at h
  · cases h
  · next hread hfallback =>
    obtain ⟨rfl, rfl⟩ := Event.satelliteFallback.inj (List.mem_singleton.mp h)
    exact ⟨rfl, hread, hfallback⟩
  · cases List.mem_singleton.mp h

/-- A walk relocates only paths that it looks up. -/
theorem mem_lookups_of_relocation (layout : Layout) (view : SourceView)
    (visited : List Path) (pending : List Pending) {path canonical : Path} :
    .satelliteFallback path canonical ∈
        (walkIncludes layout view visited pending).events →
      path ∈ (walkIncludes layout view visited pending).lookups := by
  induction visited, pending using walk_induction layout view with
  | done visited => simp [Resolution.empty]
  | known visited next rest hvisited ih =>
      rwa [walkIncludes_of_mem hvisited]
  | fresh visited next rest hvisited ih =>
      rw [walkIncludes_of_not_mem hvisited, Resolution.events_append,
        Resolution.lookups_append, List.mem_append, List.mem_append]
      rintro (h | h)
      · rw [(of_relocation_mem_finding h).1]
        exact .inl (List.mem_singleton_self _)
      · exact .inr (ih h)

theorem not_relocation_of_visited {layout : Layout} {view : SourceView}
    {visited : List Path} {pending : List Pending} {path : Path}
    (hvisited : path ∈ visited) (canonical : Path) :
    .satelliteFallback path canonical ∉
      (walkIncludes layout view visited pending).events := by
  intro h
  have hlookup := mem_lookups_of_relocation layout view visited pending h
  exact not_mem_of_mem_lookups layout view visited pending path hlookup
    hvisited

/-- A path that comes from a relocation is not relocated in the walk that goes on from
it: it is visited at once and then given up. -/
theorem not_relocation_of_relocated {layout : Layout} {view : SourceView}
    {visited : List Path} {rest : List Pending} {path : Path}
    (canonical : Path) :
    .satelliteFallback path canonical ∉
      (walkIncludes layout view visited (⟨path, true⟩ :: rest)).events := by
  by_cases hvisited : path ∈ visited
  · exact not_relocation_of_visited hvisited canonical
  · rw [walkIncludes_of_not_mem hvisited, Resolution.events_append,
      List.mem_append]
    rintro (h | h)
    · have hfallback := (of_relocation_mem_finding h).2.2
      cases hfallback
    · exact not_relocation_of_visited List.mem_cons_self canonical h

theorem pairwise_events_walkIncludes (layout : Layout) (view : SourceView)
    (visited : List Path) (pending : List Pending) :
    (walkIncludes layout view visited pending).events.Pairwise
      fun first later => ¬first.RelocatedAgainBy later := by
  induction visited, pending using walk_induction layout view with
  | done visited =>
      rw [walkIncludes_nil]
      exact .nil
  | known visited next rest hvisited ih =>
      rwa [walkIncludes_of_mem hvisited]
  | fresh visited next rest hvisited ih =>
      rw [walkIncludes_of_not_mem hvisited, Resolution.events_append,
        List.pairwise_append]
      refine ⟨?_, ih, ?_⟩
      · simp only [Layout.finding]
        split <;> simp
      · rintro _ hfirst _ hlater ⟨path, canonical, further, rfl, rfl⟩
        obtain ⟨-, hread, hfallback⟩ := of_relocation_mem_finding hfirst
        rw [Layout.followUps_of_unreadable hread, hfallback] at hlater
        exact not_relocation_of_relocated further hlater

/-! ## The loop ends -/

/-- The loop that starts from a source runs out of pending paths, with the result of
`resolve`.  It looks up each path at most once, and no path to which a relocation has led
is relocated later. -/
theorem rounds_end_each_path_once (layout : Layout) (view : SourceView)
    (file : Path) :
    ∃ rounds,
      ((WalkState.round layout view)^[rounds]
        (.start layout file)).pending = [] ∧
      ((WalkState.round layout view)^[rounds]
        (.start layout file)).explored.found = resolve layout view file ∧
      (resolve layout view file).lookups.Nodup ∧
      (resolve layout view file).events.Pairwise
        fun first later => ¬first.RelocatedAgainBy later := by
  obtain ⟨rounds, hpending, hfound⟩ := WalkState.exists_rounds layout view
    [layout.bootstrapHeader] [⟨file, false⟩]
    ⟨[layout.bootstrapHeader], [], []⟩
  refine ⟨rounds, hpending, hfound, ?_, ?_⟩
  · exact nodup_lookups_walkIncludes layout view _ _
  · exact pairwise_events_walkIncludes layout view _ _

end HeaderMake
