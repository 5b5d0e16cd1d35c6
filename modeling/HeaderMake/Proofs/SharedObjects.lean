import HeaderMake.Makefile.Render
import HeaderMake.Proofs.Tree.Scanned
import HeaderMake.Tree.Edit
import Mathlib.Tactic.ByContra

/-!
# Sources that share an object

The path of an object keeps everything of its source but the last extension, and moves
the library.  Two sources therefore share an object in two ways only: they differ in
nothing but their last extensions, or one of them is a library source that is moved onto
the object of the other (`objectFile_eq_iff`).

A scan accepts every name that holds the source extension somewhere, so sources of the
first kind are collected: a backup copy beside a source is one.  The compile rules of a
Makefile have different targets exactly if no path is collected twice and no two
collected paths share an object (`nodup_targets_iff`).
-/

namespace HeaderMake
namespace Layout

/-! ## Moving the library -/

/-- The paths that lie in the library directory. -/
def InLibrary (layout : Layout) (path : Path) : Prop :=
  ∃ rest, path = layout.libraryDirectory ++ '/' :: rest

theorem inBuildDirectory_append (layout : Layout) (rest : Path) :
    layout.inBuildDirectory (layout.libraryDirectory ++ '/' :: rest) =
      layout.buildDirectory ++ '/' :: rest := by
  rw [inBuildDirectory, Text.dropLeading?_eq_some_iff.mpr rfl]
  rfl

theorem inBuildDirectory_eq_self {layout : Layout} {path : Path}
    (h : ¬layout.InLibrary path) : layout.inBuildDirectory path = path := by
  unfold inBuildDirectory
  split
  · next rest hdrop =>
    exact absurd ⟨rest, Text.dropLeading?_eq_some_iff.mp hdrop⟩ h
  · rfl

/-- The first path lies in the library and is moved onto the second one, which lies
elsewhere. -/
def MovesOnto (layout : Layout) (path other : Path) : Prop :=
  ¬layout.InLibrary other ∧
    ∃ rest, path = layout.libraryDirectory ++ '/' :: rest ∧
      other = layout.buildDirectory ++ '/' :: rest

theorem movesOnto_iff_of_inLibrary {layout : Layout} {path other : Path}
    (hpath : layout.InLibrary path) (hother : ¬layout.InLibrary other) :
    layout.MovesOnto path other ↔
      layout.inBuildDirectory path = layout.inBuildDirectory other := by
  obtain ⟨rest, rfl⟩ := hpath
  rw [inBuildDirectory_append, inBuildDirectory_eq_self hother]
  constructor
  · rintro ⟨-, rest', hrest, rfl⟩
    rw [List.append_cancel_left hrest]
  · intro h
    exact ⟨hother, rest, rfl, h.symm⟩

theorem MovesOnto.inLibrary {layout : Layout} {path other : Path}
    (h : layout.MovesOnto path other) : layout.InLibrary path := by
  obtain ⟨-, rest, rfl, -⟩ := h
  exact ⟨rest, rfl⟩

theorem inBuildDirectory_eq_iff {layout : Layout} {path other : Path} :
    layout.inBuildDirectory path = layout.inBuildDirectory other ↔
      path = other ∨ layout.MovesOnto path other ∨
        layout.MovesOnto other path := by
  constructor
  · intro h
    by_cases hpath : layout.InLibrary path
    · by_cases hother : layout.InLibrary other
      · obtain ⟨rest, rfl⟩ := hpath
        obtain ⟨rest', rfl⟩ := hother
        rw [inBuildDirectory_append, inBuildDirectory_append] at h
        exact .inl (by rw [List.append_cancel_left h])
      · exact .inr (.inl ((movesOnto_iff_of_inLibrary hpath hother).mpr h))
    · by_cases hother : layout.InLibrary other
      · exact .inr (.inr
          ((movesOnto_iff_of_inLibrary hother hpath).mpr h.symm))
      · rw [inBuildDirectory_eq_self hpath,
          inBuildDirectory_eq_self hother] at h
        exact .inl h
  · rintro (rfl | h | h)
    · rfl
    · exact (movesOnto_iff_of_inLibrary h.inLibrary h.1).mp h
    · exact ((movesOnto_iff_of_inLibrary h.inLibrary h.1).mp h).symm

/-! ## Objects -/

/-- The path of an object before the library is moved. -/
def objectBeside (layout : Layout) (source : Path) : Path :=
  source.stem ++ layout.objectExtension

/-- Two sources differ at most in their last extensions, or one of them is a library
source whose object is moved onto the object of the other. -/
def SharesObject (layout : Layout) (source other : Path) : Prop :=
  source.stem = other.stem ∨
    layout.MovesOnto (layout.objectBeside source) (layout.objectBeside other) ∨
    layout.MovesOnto (layout.objectBeside other) (layout.objectBeside source)

theorem objectFile_eq_iff {layout : Layout} {source other : Path} :
    layout.objectFile source = layout.objectFile other ↔
      layout.SharesObject source other := by
  have hbeside : layout.objectBeside source = layout.objectBeside other ↔
      source.stem = other.stem :=
    List.append_left_inj layout.objectExtension
  rw [SharesObject, ← hbeside]
  exact inBuildDirectory_eq_iff

end Layout

/-! ## Targets -/

/-- The collected sources, group after group. -/
def collectedSources (groups : List CollectedGroup) : List Path :=
  groups.flatMap (·.files)

/-- The targets of the compile rules of a Makefile. -/
def RenderedMakefile.targets (makefile : RenderedMakefile) : List Path :=
  makefile.rules.map (·.rule.object)

/-- There is one rule for each collected source, and its target is the object. -/
theorem targets_renderMakefile (configuration : Configuration)
    (view : SourceView) (groups : List CollectedGroup) (release : Bool) :
    (renderMakefile configuration view groups release).targets =
      (collectedSources groups).map configuration.layout.objectFile := by
  simp only [RenderedMakefile.targets, renderMakefile, collectedSources,
    List.map_flatMap, resolveRules, List.map_map]
  rfl

/-- The compile rules of a workspace have different targets exactly if no path is
collected twice and no two collected paths share an object. -/
theorem nodup_targets_iff (workspace : Workspace)
    (configuration : Configuration) (release : Bool) :
    (renderMakefile configuration workspace.view
        (workspace.collectGroups configuration) release).targets.Nodup ↔
      (collectedSources (workspace.collectGroups configuration)).Nodup ∧
        ∀ source ∈ collectedSources (workspace.collectGroups configuration),
          ∀ other ∈ collectedSources (workspace.collectGroups configuration),
            source ≠ other →
              ¬configuration.layout.SharesObject source other := by
  rw [targets_renderMakefile]
  constructor
  · intro h
    refine ⟨h.of_map, ?_⟩
    intro source hsource other hother hne hshares
    exact hne (List.inj_on_of_nodup_map h hsource hother
      (Layout.objectFile_eq_iff.mpr hshares))
  · rintro ⟨hnodup, hdistinct⟩
    apply hnodup.map_on
    intro source hsource other hother heq
    by_contra hne
    exact hdistinct source hsource other hother hne
      (Layout.objectFile_eq_iff.mp heq)

/-- A source with a backup copy beside it. -/
def Workspace.backedUp : Workspace where
  tree := (Tree.empty.putFile "cli/a.cpp".toList []).putFile
    "cli/a.cpp~".toList []
  root := ".".toList

theorem collectedSources_backedUp :
    collectedSources (Workspace.backedUp.collectGroups .standard) =
      ["cli/a.cpp".toList, "cli/a.cpp~".toList,
        "externals/simplecpp/simplecpp.cpp".toList,
        "externals/tinyxml/tinyxml2.cpp".toList] := by
  have hlibrary : Workspace.backedUp.tree.collect ".".toList "lib/".toList
      ".cpp".toList false = [] := by decide +kernel
  have hstart : Workspace.backedUp.tree.findRaw
      (Path.join ".".toList "cli/".toList).raw =
        .ok (.directory (⟨Utf8.encode "cli".toList, by decide⟩ ::
          Tree.empty.start)) := by decide +kernel
  have hcommandLine : Workspace.backedUp.tree.collect ".".toList "cli/".toList
      ".cpp".toList false =
        ["cli/a.cpp".toList, "cli/a.cpp~".toList] :=
    Tree.collect_eq_of_perm hstart (by decide +kernel) (by decide)
  have htests : Workspace.backedUp.tree.collect ".".toList "test/".toList
      ".cpp".toList false = [] := by decide +kernel
  have htools : Workspace.backedUp.tree.collect ".".toList "tools/".toList
      ".cpp".toList false = [] := by decide +kernel
  change Workspace.backedUp.tree.collect ".".toList "lib/".toList
      ".cpp".toList false ++
    (Workspace.backedUp.tree.collect ".".toList "cli/".toList ".cpp".toList false ++
      (Workspace.backedUp.tree.collect ".".toList "test/".toList
          ".cpp".toList false ++
        (["externals/simplecpp/simplecpp.cpp".toList,
            "externals/tinyxml/tinyxml2.cpp".toList] ++
          (Workspace.backedUp.tree.collect ".".toList "tools/".toList
            ".cpp".toList false ++ [])))) = _
  rw [hlibrary, hcommandLine, htests, htools]
  rfl

/-- No path is collected twice, and yet two compile rules make the same object. -/
theorem not_nodup_targets_backedUp :
    (collectedSources (Workspace.backedUp.collectGroups .standard)).Nodup ∧
      ¬(renderMakefile .standard Workspace.backedUp.view
        (Workspace.backedUp.collectGroups .standard) true).targets.Nodup := by
  rw [targets_renderMakefile, collectedSources_backedUp]
  constructor
  · decide
  · have hobject : Layout.standard.objectFile "cli/a.cpp".toList =
        Layout.standard.objectFile "cli/a.cpp~".toList := by decide +kernel
    intro hnodup
    have heq := List.inj_on_of_nodup_map hnodup (by simp) (by simp) hobject
    revert heq
    decide

end HeaderMake
