import HeaderMake.Proofs.Include.Lookups
import Mathlib.Logic.Relation

/-!
# Reachability along includes and relocations

`LeadsTo` says without any walk how one path leads to another: by an include line of a
file that can be read, or by the satellite table where nothing can be read.  `Reaches` is
its reflexive and transitive closure.

A walk looks up only what its pending paths reach (`reaches_of_mem_lookups`).  By a
settled satellite table the walk from a source visits all that the source reaches
(`mem_visitedFrom_of_reaches`).
-/

namespace HeaderMake

/-- One path leads to another by an include line or by a relocation.  The bootstrap
header leads nowhere. -/
inductive LeadsTo (layout : Layout) (view : SourceView) : Path → Path → Prop
  | includes {path : Path} {content : Bytes} {line payload : Text}
      (hheader : path ≠ layout.bootstrapHeader)
      (hread : view.read path = some content)
      (hline : line ∈ (Utf8.decodeLossy content).lines)
      (hpayload : quotedInclude? line = some payload) :
      LeadsTo layout view path
        (Path.collapseParent (path.directory ++ payload))
  | relocates {path canonical : Path}
      (hheader : path ≠ layout.bootstrapHeader)
      (hread : view.read path = none)
      (hrelocate : layout.satellites.relocate? path = some canonical) :
      LeadsTo layout view path canonical

/-- One path leads to another in any number of steps. -/
abbrev Reaches (layout : Layout) (view : SourceView) : Path → Path → Prop :=
  Relation.ReflTransGen (LeadsTo layout view)

theorem mem_includedPaths_iff {path included : Path} {content : Bytes} :
    included ∈ includedPaths path content ↔
      ∃ line ∈ (Utf8.decodeLossy content).lines, ∃ payload,
        quotedInclude? line = some payload ∧
          included = Path.collapseParent (path.directory ++ payload) := by
  simp only [includedPaths, includePayloads, List.mem_map, List.mem_filterMap]
  constructor
  · rintro ⟨payload, ⟨line, hline, hpayload⟩, rfl⟩
    exact ⟨line, hline, payload, hpayload, rfl⟩
  · rintro ⟨line, hline, payload, hpayload, rfl⟩
    exact ⟨payload, ⟨line, hline, hpayload⟩, rfl⟩

theorem leadsTo_of_mem_includedPaths {layout : Layout} {view : SourceView}
    {path included : Path} {content : Bytes}
    (hheader : path ≠ layout.bootstrapHeader)
    (hread : view.read path = some content)
    (hincluded : included ∈ includedPaths path content) :
    LeadsTo layout view path included := by
  obtain ⟨line, hline, payload, hpayload, rfl⟩ :=
    mem_includedPaths_iff.mp hincluded
  exact .includes hheader hread hline hpayload

/-! ## Soundness -/

theorem leadsTo_of_mem_followUps {layout : Layout} {view : SourceView}
    {next later : Pending} (hheader : next.path ≠ layout.bootstrapHeader)
    (hlater : later ∈ layout.followUps view next) :
    LeadsTo layout view next.path later.path := by
  cases hread : view.read next.path with
  | some content =>
      rw [Layout.followUps_of_read hread, List.mem_map] at hlater
      obtain ⟨included, hincluded, rfl⟩ := hlater
      exact leadsTo_of_mem_includedPaths hheader hread hincluded
  | none =>
      rw [Layout.followUps_of_unreadable hread, List.mem_map] at hlater
      obtain ⟨canonical, hcanonical, rfl⟩ := hlater
      rw [Option.mem_toList] at hcanonical
      exact .relocates hheader hread
        (Layout.relocate?_of_fallback? hcanonical)

/-- A walk looks up only what its pending paths reach. -/
theorem reaches_of_mem_lookups (layout : Layout) (view : SourceView)
    (visited : List Path) (pending : List Pending) :
    layout.bootstrapHeader ∈ visited →
    ∀ path ∈ (walkIncludes layout view visited pending).lookups,
      ∃ next ∈ pending, Reaches layout view next.path path := by
  induction visited, pending using walk_induction layout view with
  | done visited => simp [Resolution.empty]
  | known visited next rest hvisited ih =>
      intro hheader path hpath
      rw [walkIncludes_of_mem hvisited] at hpath
      obtain ⟨later, hlater, hreach⟩ := ih hheader path hpath
      exact ⟨later, List.mem_cons_of_mem _ hlater, hreach⟩
  | fresh visited next rest hvisited ih =>
      intro hheader path hpath
      rw [walkIncludes_of_not_mem hvisited, Resolution.lookups_append,
        Layout.lookups_finding, List.singleton_append, List.mem_cons] at hpath
      rcases hpath with rfl | hpath
      · exact ⟨next, List.mem_cons_self, .refl⟩
      · obtain ⟨later, hlater, hreach⟩ :=
          ih (List.mem_cons_of_mem _ hheader) path hpath
        rcases List.mem_append.mp hlater with hlater | hlater
        · have hne : next.path ≠ layout.bootstrapHeader := by
            rintro heq
            exact hvisited (heq ▸ hheader)
          exact ⟨next, List.mem_cons_self,
            hreach.head (leadsTo_of_mem_followUps hne hlater)⟩
        · exact ⟨later, List.mem_cons_of_mem _ hlater, hreach⟩

/-! ## Completeness -/

/-- What is visited when the walk from a source ends. -/
def visitedFrom (layout : Layout) (view : SourceView) (file : Path) :
    List Path :=
  visitedAfter layout view [layout.bootstrapHeader] [⟨file, false⟩]

theorem mem_visitedFrom_iff {layout : Layout} {view : SourceView}
    {file path : Path} :
    path ∈ visitedFrom layout view file ↔
      path = layout.bootstrapHeader ∨
        path ∈ (resolve layout view file).lookups := by
  simp [visitedFrom, visitedAfter, resolve, Resolution.addDependency]

/-- By a settled table, everything that a source reaches is visited. -/
theorem mem_visitedFrom_of_reaches {layout : Layout}
    (hsettled : layout.satellites.Settled) {view : SourceView}
    {file path : Path} (hreach : Reaches layout view file path) :
    path ∈ visitedFrom layout view file := by
  induction hreach with
  | refl =>
      exact mem_visitedAfter_of_mem_pending layout view _ _ ⟨file, false⟩
        List.mem_cons_self
  | tail _ hstep ih =>
      rw [mem_visitedFrom_iff] at ih
      cases hstep with
      | includes hheader hread hline hpayload =>
          exact included_mem_visitedAfter layout view _ _ hread
            (ih.resolve_left hheader) _
            (mem_includedPaths_iff.mpr ⟨_, hline, _, hpayload, rfl⟩)
      | relocates hheader hread hrelocate =>
          apply canonical_mem_visitedAfter hsettled view _ _ hread hrelocate
          · intro next hnext hrelocated
            rw [List.mem_singleton] at hnext
            subst hnext
            cases hrelocated
          · exact ih.resolve_left hheader

/-- The headers of a source, without the bootstrap header. -/
theorem mem_dependencies_walk_iff {layout : Layout}
    (hsettled : layout.satellites.Settled) {view : SourceView}
    {file path : Path} :
    path ∈ (walkIncludes layout view [layout.bootstrapHeader]
        [⟨file, false⟩]).dependencies ↔
      path ≠ layout.bootstrapHeader ∧ (view.read path).isSome ∧
        ¬Text.contains layout.sourceMarker path ∧
        Reaches layout view file path := by
  rw [mem_dependencies_walkIncludes_iff]
  constructor
  · rintro ⟨hlookup, hread, hmarker⟩
    have hfresh := not_mem_of_mem_lookups layout view _ _ path hlookup
    obtain ⟨next, hnext, hreach⟩ := reaches_of_mem_lookups layout view _ _
      List.mem_cons_self path hlookup
    rw [List.mem_singleton] at hnext hfresh
    subst hnext
    exact ⟨hfresh, hread, hmarker, hreach⟩
  · rintro ⟨hheader, hread, hmarker, hreach⟩
    have hvisited := mem_visitedFrom_of_reaches hsettled hreach
    rw [mem_visitedFrom_iff] at hvisited
    exact ⟨hvisited.resolve_left hheader, hread, hmarker⟩

theorem nodup_dependencies_resolve (layout : Layout) (view : SourceView)
    (file : Path) : (resolve layout view file).dependencies.Nodup := by
  rw [dependencies_resolve, List.nodup_cons]
  constructor
  · intro hmem
    exact not_mem_of_mem_lookups layout view _ _ _
      (List.mem_filter.mp hmem).1 List.mem_cons_self
  · exact (nodup_lookups_walkIncludes layout view _ _).filter _

end HeaderMake
