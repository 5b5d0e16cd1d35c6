import HeaderMake.Proofs.Include.Visit

/-!
# Views that a walk cannot tell apart

A walk depends on the files only through what it looks up.  A view that gives the same
answers to the lookups of a walk over another view leads to the same walk, whatever it
holds elsewhere (`resolve_congr`).
-/

namespace HeaderMake

variable {layout : Layout} {view other : SourceView}

theorem finding_congr {next : Pending}
    (h : other.read next.path = view.read next.path) :
    layout.finding other next = layout.finding view next := by
  rw [Layout.finding, Layout.finding, Layout.lists, Layout.lists, h]

theorem followUps_congr {next : Pending}
    (h : other.read next.path = view.read next.path) :
    layout.followUps other next = layout.followUps view next := by
  rw [Layout.followUps, Layout.followUps, h]

theorem walkIncludes_congr (visited : List Path) (pending : List Pending) :
    (∀ path ∈ (walkIncludes layout view visited pending).lookups,
      other.read path = view.read path) →
    walkIncludes layout other visited pending =
      walkIncludes layout view visited pending := by
  induction visited, pending using walk_induction layout view with
  | done visited =>
      intro _
      rw [walkIncludes_nil, walkIncludes_nil]
  | known visited next rest hvisited ih =>
      rw [walkIncludes_of_mem hvisited, walkIncludes_of_mem hvisited]
      exact ih
  | fresh visited next rest hvisited ih =>
      intro h
      rw [walkIncludes_of_not_mem hvisited, Resolution.lookups_append,
        Layout.lookups_finding, List.singleton_append] at h
      obtain ⟨hnext, hlater⟩ := List.forall_mem_cons.mp h
      rw [walkIncludes_of_not_mem hvisited, walkIncludes_of_not_mem hvisited,
        finding_congr hnext, followUps_congr hnext, ih hlater]

theorem lookups_resolve (layout : Layout) (view : SourceView) (file : Path) :
    (resolve layout view file).lookups =
      (walkIncludes layout view [layout.bootstrapHeader]
        [⟨file, false⟩]).lookups := rfl

/-- The headers, the events and the lookups of a source are the same over every view that
gives the same answers to these lookups. -/
theorem resolve_congr {file : Path}
    (h : ∀ path ∈ (resolve layout view file).lookups,
      other.read path = view.read path) :
    resolve layout other file = resolve layout view file := by
  rw [lookups_resolve] at h
  rw [resolve, resolve, walkIncludes_congr _ _ h]

end HeaderMake
