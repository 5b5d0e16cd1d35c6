import HeaderMake.Proofs.Include.Unsettled
import HeaderMake.Tree.Edit

/-!
# When the order of lines does not matter

The headers of every source are independent of the order of lines exactly if the
satellite table is settled, a marker that excludes every path aside
(`orderIndependent_exactly`).  The conventional table is settled.  A table that relocates
from `a/` to `b/` and from there to `c/` is not, and loses a header by the order of two
lines (`header_lost_by_line_order`).
-/

namespace HeaderMake

/-! ## A chain of satellites -/

/-- The conventional layout with a chain of two satellites. -/
def Layout.chained : Layout :=
  { Layout.standard with
    satellites := .ofList
      [("a/".toList, "b/".toList), ("b/".toList, "c/".toList)] }

theorem spares_chained : Layout.chained.Spares 'z' where
  ordinary := by unfold Ordinary; decide
  marker := by decide
  satellite := by
    have hall : Layout.chained.satellites.entries.all
        (fun entry => entry.1.all (isSpelled 'z')) = true := by decide
    intro entry hentry
    exact List.all_eq_true.mp (List.all_eq_true.mp hall entry hentry)
  canonical := by
    have hall : Layout.chained.satellites.entries.all
        (fun entry => entry.2.all (isSpelled 'z')) = true := by decide
    intro entry hentry
    exact List.all_eq_true.mp (List.all_eq_true.mp hall entry hentry)

theorem relocate?_chained_a : Layout.chained.satellites.relocate?
    "a/x.h".toList = some "b/x.h".toList := by
  decide +kernel

theorem relocate?_chained_b : Layout.chained.satellites.relocate?
    "b/x.h".toList = some "c/x.h".toList := by
  decide +kernel

theorem not_settled_chained : ¬Layout.chained.satellites.Settled := by
  intro hsettled
  have hnew := hsettled _ _ _ relocate?_chained_a relocate?_chained_b
  revert hnew
  decide

/-! ## The condition -/

/-- By a settled satellite table the headers of a source do not depend on the order of
lines, neither in reordered views nor in reordered workspaces.  By any other table they
do, if include lines can spell the table and some path is no source. -/
theorem orderIndependent_exactly (layout : Layout) :
    (layout.satellites.Settled ∨ layout.sourceMarker = [] →
      layout.OrderIndependent ∧
      ∀ workspace other : Workspace, workspace.Reordered other →
        ∀ file path,
          path ∈ (resolve layout workspace.view file).dependencies ↔
            path ∈ (resolve layout other.view file).dependencies) ∧
    (∀ spare, layout.Spares spare → layout.OrderIndependent →
      layout.satellites.Settled ∨ layout.sourceMarker = []) := by
  constructor
  · intro h
    have hindependent : layout.OrderIndependent := by
      rcases h with hsettled | hmarker
      · exact orderIndependent_of_settled hsettled
      · exact orderIndependent_of_marker_eq_nil hmarker
    refine ⟨hindependent, ?_⟩
    intro workspace other hreordered
    exact hindependent workspace.view other.view hreordered.view
  · intro spare hspares
    exact settled_of_orderIndependent hspares

/-- The conventional layout keeps the headers of a source independent of the order of
lines, and the chained layout does not. -/
theorem standard_orderIndependent_and_not_chained :
    Layout.standard.OrderIndependent ∧ ¬Layout.chained.OrderIndependent := by
  constructor
  · exact ((orderIndependent_exactly .standard).1
      (.inl SatelliteTable.standard_unchained.settled)).1
  · intro hindependent
    have hsettled := (orderIndependent_exactly .chained).2 'z'
      spares_chained hindependent
    rcases hsettled with hsettled | hmarker
    · exact not_settled_chained hsettled
    · revert hmarker
      decide

/-! ## Two orders of two lines -/

theorem valid_source_name : Name.Valid (Utf8.encode "t.cpp".toList) := by
  decide

/-- The workspace of a source that includes two paths, and of the one header that the
chain leads to. -/
def Workspace.crossed (first second : Text) : Workspace where
  tree := (Tree.empty.putFile "c/x.h".toList []).insert
    (⟨Utf8.encode "t.cpp".toList, valid_source_name⟩ :: Tree.empty.start)
    (.file (twoIncludes first second))
  root := ".".toList

theorem reordered_crossed (first second : Text) :
    (Workspace.crossed first second).Reordered
      (Workspace.crossed second first) :=
  ⟨rfl, Tree.reordered_insert _ (by simp)
    (sameLines_twoIncludes_swap first second)⟩

/-- Two workspaces that differ only in the order of two include lines.  The source of
the first one depends on the header at the end of the chain, and the source of the
second one does not. -/
theorem header_lost_by_line_order :
    (Workspace.crossed "b/x.h".toList "a/x.h".toList).Reordered
      (Workspace.crossed "a/x.h".toList "b/x.h".toList) ∧
    "c/x.h".toList ∈ (resolve .chained
      (Workspace.crossed "b/x.h".toList "a/x.h".toList).view
      "t.cpp".toList).dependencies ∧
    "c/x.h".toList ∉ (resolve .chained
      (Workspace.crossed "a/x.h".toList "b/x.h".toList).view
      "t.cpp".toList).dependencies := by
  have hheader : "c/x.h".toList ≠ Layout.chained.bootstrapHeader := by decide
  refine ⟨reordered_crossed _ _, ?_, ?_⟩
  · have hread : (Workspace.crossed "b/x.h".toList
        "a/x.h".toList).view.read "t.cpp".toList =
          some (twoIncludes "b/x.h".toList "a/x.h".toList) := by decide +kernel
    have hincluded : includedPaths "t.cpp".toList
        (twoIncludes "b/x.h".toList "a/x.h".toList) =
          ["b/x.h".toList, "a/x.h".toList] := by decide +kernel
    have hnone : (Workspace.crossed "b/x.h".toList
        "a/x.h".toList).view.read "b/x.h".toList = none := by decide +kernel
    have hvisited := mem_visitedFrom_of_canonical_first (by decide)
      (by decide) hread hincluded hnone relocate?_chained_b
    have hfound : ((Workspace.crossed "b/x.h".toList
        "a/x.h".toList).view.read "c/x.h".toList).isSome := by decide +kernel
    rw [mem_dependencies_resolve_iff hheader]
    exact ⟨(mem_visitedFrom_iff.mp hvisited).resolve_left hheader, hfound,
      by decide⟩
  · have hread : (Workspace.crossed "a/x.h".toList
        "b/x.h".toList).view.read "t.cpp".toList =
          some (twoIncludes "a/x.h".toList "b/x.h".toList) := by decide +kernel
    have hincluded : includedPaths "t.cpp".toList
        (twoIncludes "a/x.h".toList "b/x.h".toList) =
          ["a/x.h".toList, "b/x.h".toList] := by decide +kernel
    have hnone : (Workspace.crossed "a/x.h".toList
        "b/x.h".toList).view.read "a/x.h".toList = none := by decide +kernel
    have hnone' : (Workspace.crossed "a/x.h".toList
        "b/x.h".toList).view.read "b/x.h".toList = none := by decide +kernel
    rw [mem_dependencies_resolve_iff hheader, lookups_resolve_of_path_first
      (by decide) (by decide) (by decide) hread hincluded hnone hnone'
      relocate?_chained_a]
    decide

end HeaderMake
