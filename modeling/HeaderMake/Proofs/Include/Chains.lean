import HeaderMake.Proofs.Include.Reachability
import HeaderMake.Proofs.Include.Rounds

/-!
# Chains from a source to its headers

By a satellite table that is not settled, the headers of a source need not be all that
the source reaches.  What can still be said, for every table, is that each header has a
reason: a chain of include lines and relocations leads to it from the source, and no two
relocations in the chain follow each other (`Chained`).  Each lookup without a result has
exactly one event that tells of it, and the event says what the table made of the path
(`Layout.Reports`).

This holds of the finished walk and of every state on the way to it.  What a round keeps
is `WalkState.Coherent`: all that has been found can be computed from the lookups, and
chains lead to the lookups and to the pending paths.
-/

namespace HeaderMake

/-! ## Chains -/

/-- A chain leads from a source to a path.  The flag says whether the last step of the
chain is a relocation; only from a path without the flag may a relocation follow. -/
inductive Chained (layout : Layout) (view : SourceView) (file : Path) :
    Path → Bool → Prop
  | start : Chained layout view file file false
  | includes {path : Path} {relocated : Bool} {content : Bytes}
      {line payload : Text} (hchain : Chained layout view file path relocated)
      (hheader : path ≠ layout.bootstrapHeader)
      (hread : view.read path = some content)
      (hline : line ∈ (Utf8.decodeLossy content).lines)
      (hpayload : quotedInclude? line = some payload) :
      Chained layout view file
        (Path.collapseParent (path.directory ++ payload)) false
  | relocates {path canonical : Path}
      (hchain : Chained layout view file path false)
      (hheader : path ≠ layout.bootstrapHeader)
      (hread : view.read path = none)
      (hlongest : layout.satellites.RelocatesLongest path canonical) :
      Chained layout view file canonical true

/-- The event tells what becomes of a path that cannot be read: it is relocated, or it
comes from a relocation or begins with no satellite and is given up. -/
inductive Layout.Reports (layout : Layout) (view : SourceView) (file : Path) :
    Path → Event → Prop
  | fallback {path canonical : Path}
      (hchain : Chained layout view file path false)
      (hlongest : layout.satellites.RelocatesLongest path canonical) :
      Reports layout view file path (.satelliteFallback path canonical)
  | leaf {path : Path} {relocated : Bool}
      (hchain : Chained layout view file path relocated)
      (hlast : relocated = true ∨
        ∀ entry ∈ layout.satellites.entries, ¬entry.1 <+: path) :
      Reports layout view file path (.unresolvedInclude path)

theorem Layout.fallback?_eq_some_iff {layout : Layout} {next : Pending}
    {canonical : Path} :
    layout.fallback? next = some canonical ↔
      next.relocated = false ∧
        layout.satellites.RelocatesLongest next.path canonical := by
  rw [← SatelliteTable.relocate?_eq_some_iff]
  by_cases hrelocated : next.relocated = true
  · simp [Layout.fallback?, hrelocated]
  · simp [Layout.fallback?, hrelocated]

theorem Layout.fallback?_eq_none_iff {layout : Layout} {next : Pending} :
    layout.fallback? next = none ↔
      next.relocated = true ∨
        ∀ entry ∈ layout.satellites.entries, ¬entry.1 <+: next.path := by
  rw [← SatelliteTable.relocate?_eq_none_iff]
  by_cases hrelocated : next.relocated = true
  · simp [Layout.fallback?, hrelocated]
  · simp [Layout.fallback?, hrelocated]

variable {layout : Layout} {view : SourceView} {file : Path}

/-- A chain to a path goes on to everything that the path puts in front of the pending
paths. -/
theorem Chained.followUps {next later : Pending}
    (hchain : Chained layout view file next.path next.relocated)
    (hheader : next.path ≠ layout.bootstrapHeader)
    (hlater : later ∈ layout.followUps view next) :
    Chained layout view file later.path later.relocated := by
  cases hread : view.read next.path with
  | some content =>
      rw [Layout.followUps_of_read hread, List.mem_map] at hlater
      obtain ⟨included, hincluded, rfl⟩ := hlater
      obtain ⟨line, hline, payload, hpayload, rfl⟩ :=
        mem_includedPaths_iff.mp hincluded
      exact hchain.includes hheader hread hline hpayload
  | none =>
      rw [Layout.followUps_of_unreadable hread, List.mem_map] at hlater
      obtain ⟨canonical, hcanonical, rfl⟩ := hlater
      obtain ⟨hrelocated, hlongest⟩ :=
        Layout.fallback?_eq_some_iff.mp (Option.mem_toList.mp hcanonical)
      rw [hrelocated] at hchain
      exact hchain.relocates hheader hread hlongest

/-! ## What each round keeps -/

/-- Whether a path cannot be read. -/
def SourceView.lacks (view : SourceView) (path : Path) : Bool :=
  (view.read path).isNone

/-- Visiting a path reports one event if the path cannot be read, and none otherwise. -/
theorem reports_finding {next : Pending}
    (hchain : Chained layout view file next.path next.relocated) :
    List.Forall₂ (layout.Reports view file)
      ([next.path].filter view.lacks) (layout.finding view next).events := by
  unfold Layout.finding
  cases hread : view.read next.path with
  | some content => simp [SourceView.lacks, hread]
  | none =>
      rw [List.filter_cons_of_pos (by simp [SourceView.lacks, hread])]
      cases hfallback : layout.fallback? next with
      | some canonical =>
          obtain ⟨hrelocated, hlongest⟩ :=
            Layout.fallback?_eq_some_iff.mp hfallback
          rw [hrelocated] at hchain
          exact .cons (.fallback hchain hlongest) .nil
      | none =>
          have hlast := Layout.fallback?_eq_none_iff.mp hfallback
          exact .cons (.leaf hchain hlast) .nil

namespace WalkState

/-- All that a walk has found so far comes from its lookups, each of which was made
once, and chains from the source lead to its lookups and to its pending paths. -/
structure Coherent (layout : Layout) (view : SourceView) (file : Path)
    (state : WalkState) : Prop where
  visited : state.explored.visited =
    state.explored.found.lookups.reverse ++ [layout.bootstrapHeader]
  nodup : state.explored.visited.Nodup
  dependencies : state.explored.found.dependencies =
    layout.bootstrapHeader ::
      state.explored.found.lookups.filter (layout.lists view)
  reported : List.Forall₂ (layout.Reports view file)
    (state.explored.found.lookups.filter view.lacks)
    state.explored.found.events
  lookups : ∀ path ∈ state.explored.found.lookups,
    ∃ relocated, Chained layout view file path relocated
  pending : ∀ next ∈ state.pending,
    Chained layout view file next.path next.relocated

theorem Coherent.start (layout : Layout) (view : SourceView) (file : Path) :
    Coherent layout view file (.start layout file) where
  visited := rfl
  nodup := List.nodup_singleton _
  dependencies := rfl
  reported := .nil
  lookups _ h := nomatch h
  pending next h := by
    rw [List.mem_singleton.mp h]
    exact .start

theorem Coherent.round {state : WalkState}
    (h : Coherent layout view file state) :
    Coherent layout view file (state.round layout view) := by
  obtain ⟨explored, pending⟩ := state
  cases pending with
  | nil => exact h
  | cons next rest =>
      have hrest : ∀ later ∈ rest,
          Chained layout view file later.path later.relocated :=
        fun later hlater => h.pending later (List.mem_cons_of_mem _ hlater)
      by_cases hvisited : next.path ∈ explored.visited
      · rw [round_of_mem hvisited]
        exact { h with pending := hrest }
      · have hchain := h.pending next List.mem_cons_self
        have hheader : next.path ≠ layout.bootstrapHeader := by
          intro heq
          rw [h.visited, heq] at hvisited
          exact hvisited (List.mem_append_right _ (List.mem_singleton_self _))
        rw [round_of_not_mem hvisited]
        constructor
        · simpa using h.visited
        · exact List.nodup_cons.mpr ⟨hvisited, h.nodup⟩
        · rw [Resolution.dependencies_append, Resolution.lookups_append,
            List.filter_append, h.dependencies]
          by_cases hlists : layout.lists view next.path
          · simp [Layout.finding, hlists]
          · simp [Layout.finding, hlists]
        · rw [Resolution.events_append, Resolution.lookups_append,
            List.filter_append]
          exact List.rel_append h.reported (reports_finding hchain)
        · rw [Resolution.lookups_append, Layout.lookups_finding]
          intro path hpath
          rcases List.mem_append.mp hpath with hpath | hpath
          · exact h.lookups path hpath
          · rw [List.mem_singleton.mp hpath]
            exact ⟨next.relocated, hchain⟩
        · intro later hlater
          rcases List.mem_append.mp hlater with hlater | hlater
          · exact hchain.followUps hheader hlater
          · exact hrest later hlater

theorem Coherent.rounds (layout : Layout) (view : SourceView) (file : Path)
    (rounds : Nat) :
    Coherent layout view file
      ((WalkState.round layout view)^[rounds] (.start layout file)) := by
  induction rounds with
  | zero => exact .start layout view file
  | succ rounds ih =>
      rw [Function.iterate_succ_apply']
      exact ih.round

/-! ## Every header has a reason -/

/-- What has been found up to some point of a walk is sound. -/
structure Sound (layout : Layout) (view : SourceView) (file : Path)
    (state : WalkState) : Prop where
  /-- The bootstrap header comes first. -/
  bootstrap : state.explored.found.dependencies.head? =
    some layout.bootstrapHeader
  nodup : state.explored.found.dependencies.Nodup
  /-- The other headers have been visited, can be read, bear no source marker, and are
  the ends of chains. -/
  headers : ∀ header ∈ state.explored.found.dependencies.tail,
    header ∈ state.explored.visited ∧
      (view.read header).isSome ∧
      header ≠ layout.bootstrapHeader ∧
      ¬Text.contains layout.sourceMarker header ∧
      ∃ relocated, Chained layout view file header relocated
  /-- What has been visited is the bootstrap header and what has been looked up. -/
  visited : ∀ path, path ∈ state.explored.visited ↔
    path = layout.bootstrapHeader ∨ path ∈ state.explored.found.lookups
  lookups_nodup : state.explored.found.lookups.Nodup
  /-- The events are those of the lookups that found nothing to read, one for each. -/
  reported : List.Forall₂ (layout.Reports view file)
    (state.explored.found.lookups.filter view.lacks)
    state.explored.found.events

theorem Coherent.sound {state : WalkState}
    (h : Coherent layout view file state) :
    Sound layout view file state := by
  have hvisited : ∀ path, path ∈ state.explored.visited ↔
      path = layout.bootstrapHeader ∨
        path ∈ state.explored.found.lookups := by
    intro path
    rw [h.visited, List.mem_append, List.mem_reverse, List.mem_singleton,
      or_comm]
  have hnodup := h.nodup
  rw [h.visited, List.nodup_append, List.nodup_reverse] at hnodup
  obtain ⟨hlookups, -, hapart⟩ := hnodup
  have hfresh : ∀ path ∈ state.explored.found.lookups,
      path ≠ layout.bootstrapHeader := fun path hpath =>
    hapart path (List.mem_reverse.mpr hpath) _ (List.mem_singleton_self _)
  constructor
  · rw [h.dependencies]
    rfl
  · rw [h.dependencies, List.nodup_cons]
    refine ⟨?_, hlookups.filter _⟩
    intro hmem
    exact hfresh _ (List.mem_filter.mp hmem).1 rfl
  · rw [h.dependencies, List.tail_cons]
    intro header hheader
    obtain ⟨hlookup, hlists⟩ := List.mem_filter.mp hheader
    obtain ⟨hread, hmarker⟩ := Layout.lists_iff.mp hlists
    exact ⟨(hvisited header).mpr (.inr hlookup), hread,
      hfresh header hlookup, hmarker, h.lookups header hlookup⟩
  · exact hvisited
  · exact hlookups
  · exact h.reported

end WalkState

/-- For every layout and every source, what the loop has found is sound after any number
of rounds, and after some number of them the loop ends with the result of `resolve`. -/
theorem rounds_sound (layout : Layout) (view : SourceView) (file : Path) :
    (∀ rounds, WalkState.Sound layout view file
      ((WalkState.round layout view)^[rounds] (.start layout file))) ∧
    ∃ rounds,
      ((WalkState.round layout view)^[rounds]
        (.start layout file)).pending = [] ∧
      ((WalkState.round layout view)^[rounds]
        (.start layout file)).explored.found = resolve layout view file := by
  constructor
  · intro rounds
    exact (WalkState.Coherent.rounds layout view file rounds).sound
  · exact WalkState.exists_rounds layout view [layout.bootstrapHeader]
      [⟨file, false⟩] ⟨[layout.bootstrapHeader], [], []⟩

end HeaderMake
