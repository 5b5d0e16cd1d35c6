import HeaderMake.Proofs.Include.Ladder
import HeaderMake.Proofs.Include.Respelling

/-!
# Tables that are not settled lose headers

If a table relocates a path twice, each time to somewhere new, then the order of two
include lines decides what a source depends on.  Let a source include a path and the
path to which it is relocated, neither of which can be read.  With the relocated path
first, the walk meets it as an included path and relocates it further.  With the other
path first, the walk meets it as the goal of a relocation and gives it up for good.

What is lost may bear the source marker and be no header itself.  So that a header is
lost with it, the view has a ladder of includes, with a header at its top.
-/

namespace HeaderMake

/-! ## Two orders of two includes -/

section Orders

variable {layout : Layout} {view : SourceView} {source path canonical : Path}
  {content : Bytes}

/-- With a path in front of its canonical path, the walk gives the canonical path up. -/
theorem lookups_resolve_of_path_first
    (hsource : source ≠ layout.bootstrapHeader)
    (hpath : path ∉ [source, layout.bootstrapHeader])
    (hcanonical : canonical ∉ [path, source, layout.bootstrapHeader])
    (hread : view.read source = some content)
    (hincluded : includedPaths source content = [path, canonical])
    (hnone : view.read path = none) (hnone' : view.read canonical = none)
    (hrelocate : layout.satellites.relocate? path = some canonical) :
    (resolve layout view source).lookups = [source, path, canonical] := by
  have hstart : source ∉ [layout.bootstrapHeader] := by simpa using hsource
  have hfallback : layout.fallback? ⟨path, false⟩ = some canonical := by
    simpa [Layout.fallback?] using hrelocate
  change (walkIncludes layout view [layout.bootstrapHeader]
    [⟨source, false⟩]).lookups = _
  rw [walkIncludes_of_not_mem hstart, Layout.followUps_of_read hread,
    hincluded, List.append_nil]
  simp only [List.map_cons, List.map_nil]
  rw [walkIncludes_of_not_mem hpath, Layout.followUps_of_unreadable hnone,
    hfallback]
  simp only [Option.toList_some, List.map_cons, List.map_nil,
    List.singleton_append]
  rw [walkIncludes_of_not_mem hcanonical,
    Layout.followUps_of_unreadable hnone']
  simp only [Layout.fallback?, if_true, Option.toList_none, List.map_nil,
    List.nil_append]
  have hknown : (⟨canonical, false⟩ : Pending).path ∈
      [canonical, path, source, layout.bootstrapHeader] := List.mem_cons_self
  rw [walkIncludes_of_mem hknown, walkIncludes_nil]
  rfl

/-- With the canonical path in front, the walk relocates it. -/
theorem mem_visitedFrom_of_canonical_first {next : Path}
    (hsource : source ≠ layout.bootstrapHeader)
    (hcanonical : canonical ∉ [source, layout.bootstrapHeader])
    (hread : view.read source = some content)
    (hincluded : includedPaths source content = [canonical, path])
    (hnone : view.read canonical = none)
    (hrelocate : layout.satellites.relocate? canonical = some next) :
    next ∈ visitedFrom layout view source := by
  have hstart : source ∉ [layout.bootstrapHeader] := by simpa using hsource
  have hfallback : layout.fallback? ⟨canonical, false⟩ = some next := by
    simpa [Layout.fallback?] using hrelocate
  rw [visitedFrom, mem_visitedAfter_cons_iff hstart,
    Layout.followUps_of_read hread, hincluded]
  simp only [List.map_cons, List.map_nil, List.cons_append, List.nil_append]
  rw [mem_visitedAfter_cons_iff hcanonical,
    Layout.followUps_of_unreadable hnone, hfallback]
  exact mem_visitedAfter_of_mem_pending layout view _ _ ⟨next, true⟩
    (by simp)

end Orders

theorem sameLines_twoIncludes_swap (first second : Text) :
    SameLines (twoIncludes first second) (twoIncludes second first) := by
  have hsplit : ∀ before after : Text,
      (Utf8.encode (before ++ '\n' :: after)).splitOn 10 =
        (Utf8.encode before).splitOn 10 ++
          (Utf8.encode after).splitOn 10 := by
    intro before after
    rw [← List.splitOn_append_cons_self]
    simp only [Utf8.encode, List.flatMap_append, List.flatMap_cons]
    rfl
  rw [SameLines, twoIncludes, twoIncludes, hsplit, hsplit]
  exact List.perm_append_comm

theorem includedPaths_detours {spare : Char} (hordinary : Ordinary spare)
    {source first second : Path} (hsource : '/' ∉ source)
    (hfirst : Spellable first) (hsecond : Spellable second) :
    includedPaths source
        (twoIncludes (detour spare first) (detour spare second)) =
      [first, second] := by
  have hdirectory : Text.cutAt? "/../".toList source.directory = none := by
    rw [Path.directory_eq_nil hsource]
    decide
  rw [includedPaths, includePayloads_twoIncludes
    (hordinary.spellable_detour hfirst) (hordinary.spellable_detour hsecond)]
  simp only [List.map_cons, List.map_nil,
    hordinary.collapseParent_detour hdirectory]

/-! ## The lost header -/

/-- A header that only spare characters spell bears no marker but the empty one. -/
theorem not_contains_replicate {layout : Layout} {spare : Char}
    (hspares : layout.Spares spare) (hmarker : layout.sourceMarker ≠ [])
    (count : Nat) :
    ¬Text.contains layout.sourceMarker (List.replicate count spare) := by
  intro hcontains
  obtain ⟨c, marker, hcons⟩ := List.exists_cons_of_ne_nil hmarker
  have hc : c ∈ layout.sourceMarker := hcons ▸ List.mem_cons_self
  have hspare := List.eq_of_mem_replicate (Text.mem_of_contains hcontains hc)
  exact hspares.marker (hspare ▸ hc)

/-- A chain of two relocations, each to somewhere new, that include lines can spell.  How
many spare characters a path holds tells what part it plays: more than the bootstrap
header for the chain, then one more for the source, then one more for the ladder. -/
structure Crossing (layout : Layout) (spare : Char) where
  path : Path
  canonical : Path
  next : Path
  ordinary : Ordinary spare
  relocate_path : layout.satellites.relocate? path = some canonical
  relocate_canonical : layout.satellites.relocate? canonical = some next
  path_ne_canonical : path ≠ canonical
  canonical_ne_next : canonical ≠ next
  path_ne_next : path ≠ next
  spellable_path : Spellable path
  spellable_canonical : Spellable canonical
  count_path : path.count spare = layout.bootstrapHeader.length + 1
  count_canonical :
    canonical.count spare = layout.bootstrapHeader.length + 1
  count_next : next.count spare = layout.bootstrapHeader.length + 1
  not_mem_directory : spare ∉ next.directory

namespace Crossing

variable {layout : Layout} {spare : Char}

/-- The source that includes the first two paths of the chain. -/
def source (_ : Crossing layout spare) : Path :=
  List.replicate (layout.bootstrapHeader.length + 2) spare

/-- The height of the ladder from the last path of the chain. -/
def height (_ : Crossing layout spare) : Nat :=
  layout.bootstrapHeader.length + 3

/-- The header at the top of the ladder. -/
def top (crossing : Crossing layout spare) : Path :=
  List.replicate crossing.height spare

/-- The view in which the source includes two paths. -/
def view (crossing : Crossing layout spare) (first second : Path) :
    SourceView :=
  ladderView spare crossing.height (crossing.next.length + crossing.height)
    [crossing.path, crossing.canonical] crossing.source
    (twoIncludes (detour spare first) (detour spare second))

theorem ne_of_count_ne (spare : Char) {path other : Path}
    (h : path.count spare ≠ other.count spare) : path ≠ other :=
  fun heq => h (heq ▸ rfl)

theorem ne_bootstrap_of_count (spare : Char) {path : Path}
    (h : layout.bootstrapHeader.length < path.count spare) :
    path ≠ layout.bootstrapHeader := by
  have hle : layout.bootstrapHeader.count spare ≤
      layout.bootstrapHeader.length := List.count_le_length
  exact ne_of_count_ne spare (by omega)

theorem count_source (crossing : Crossing layout spare) :
    crossing.source.count spare = layout.bootstrapHeader.length + 2 :=
  List.count_replicate_self

theorem source_ne_bootstrap (crossing : Crossing layout spare) :
    crossing.source ≠ layout.bootstrapHeader :=
  ne_bootstrap_of_count spare (by rw [crossing.count_source]; omega)

theorem fresh (crossing : Crossing layout spare) {path : Path}
    (hcount : path.count spare = layout.bootstrapHeader.length + 1) :
    path ∉ [crossing.source, layout.bootstrapHeader] := by
  have hsource := crossing.count_source
  simp only [List.mem_cons, List.not_mem_nil, or_false, not_or]
  exact ⟨ne_of_count_ne spare (by omega), ne_bootstrap_of_count spare (by omega)⟩

/-- Paths with as many spare characters as the top play no other part. -/
theorem clear (crossing : Crossing layout spare) (path : Path)
    (h : path.count spare = crossing.height) :
    path ≠ crossing.source ∧
      path ∉ [crossing.path, crossing.canonical] ∧
      path ≠ layout.bootstrapHeader := by
  have hsource := crossing.count_source
  have hpath := crossing.count_path
  have hcanonical := crossing.count_canonical
  unfold height at h
  refine ⟨ne_of_count_ne spare (by omega), ?_, ne_bootstrap_of_count spare (by omega)⟩
  simp only [List.mem_cons, List.not_mem_nil, or_false, not_or]
  exact ⟨ne_of_count_ne spare (by omega), ne_of_count_ne spare (by omega)⟩

theorem top_clear (crossing : Crossing layout spare) :
    crossing.top ≠ crossing.source ∧
      crossing.top ∉ [crossing.path, crossing.canonical] ∧
      crossing.top ≠ layout.bootstrapHeader :=
  crossing.clear crossing.top List.count_replicate_self

theorem rung_top (crossing : Crossing layout spare) :
    Rung layout spare crossing.height
      (crossing.next.length + crossing.height)
      [crossing.path, crossing.canonical] crossing.source crossing.top :=
  rung_append_replicate crossing.ordinary crossing.clear
    List.not_mem_nil (by simp)

theorem rung_next (crossing : Crossing layout spare) :
    Rung layout spare crossing.height
      (crossing.next.length + crossing.height)
      [crossing.path, crossing.canonical] crossing.source crossing.next := by
  have hcount := crossing.count_next
  have hsource := crossing.count_source
  have hlength := (Path.directory_prefix_self crossing.next).length_le
  refine ⟨ne_of_count_ne spare (by omega), ?_, ne_bootstrap_of_count spare (by omega),
    by omega, by omega, crossing.not_mem_directory⟩
  simpa using ⟨crossing.path_ne_next.symm, crossing.canonical_ne_next.symm⟩

/-! ### What the source depends on -/

theorem read_source (crossing : Crossing layout spare)
    (first second : Path) :
    (crossing.view first second).read crossing.source =
      some (twoIncludes (detour spare first) (detour spare second)) :=
  if_pos rfl

theorem read_missing (crossing : Crossing layout spare) {path : Path}
    (hmissing : path ∈ [crossing.path, crossing.canonical])
    (hcount : path.count spare = layout.bootstrapHeader.length + 1)
    (first second : Path) : (crossing.view first second).read path = none := by
  have hsource := List.ne_of_not_mem_cons (crossing.fresh hcount)
  simp only [view, ladderView, if_neg hsource, if_pos hmissing]

theorem includedPaths_source (crossing : Crossing layout spare)
    {first second : Path} (hfirst : Spellable first)
    (hsecond : Spellable second) :
    includedPaths crossing.source
        (twoIncludes (detour spare first) (detour spare second)) =
      [first, second] :=
  includedPaths_detours crossing.ordinary
    (crossing.ordinary.slash_not_mem_replicate _) hfirst hsecond

theorem top_not_mem_path_first (crossing : Crossing layout spare) :
    crossing.top ∉ (resolve layout
      (crossing.view crossing.path crossing.canonical)
      crossing.source).dependencies := by
  obtain ⟨hsource, hmissing, hheader⟩ := crossing.top_clear
  have hcanonical : crossing.canonical ∉
      [crossing.path, crossing.source, layout.bootstrapHeader] := by
    rw [List.mem_cons, not_or]
    exact ⟨crossing.path_ne_canonical.symm, crossing.fresh crossing.count_canonical⟩
  rw [mem_dependencies_resolve_iff hheader, lookups_resolve_of_path_first
    crossing.source_ne_bootstrap (crossing.fresh crossing.count_path)
    hcanonical
    (crossing.read_source _ _)
    (crossing.includedPaths_source crossing.spellable_path
      crossing.spellable_canonical)
    (crossing.read_missing (by simp) crossing.count_path _ _)
    (crossing.read_missing (by simp) crossing.count_canonical _ _)
    crossing.relocate_path, List.mem_cons]
  rintro ⟨htop | htop, -⟩
  · exact hsource htop
  · exact hmissing htop

theorem top_mem_canonical_first (crossing : Crossing layout spare)
    (hmarker :
      ¬Text.contains layout.sourceMarker crossing.top) :
    crossing.top ∈ (resolve layout
      (crossing.view crossing.canonical crossing.path)
      crossing.source).dependencies := by
  obtain ⟨-, -, hheader⟩ := crossing.top_clear
  have hnext := mem_visitedFrom_of_canonical_first
    crossing.source_ne_bootstrap (crossing.fresh crossing.count_canonical)
    (crossing.read_source _ _)
    (crossing.includedPaths_source crossing.spellable_canonical
      crossing.spellable_path)
    (crossing.read_missing (by simp) crossing.count_canonical _ _)
    crossing.relocate_canonical
  have htop := top_mem_visitedFrom crossing.ordinary crossing.clear
    crossing.rung_next hnext
  rw [mem_dependencies_resolve_iff hheader]
  refine ⟨(mem_visitedFrom_iff.mp htop).resolve_left hheader, ?_, hmarker⟩
  rw [view, crossing.rung_top.read]
  rfl

theorem not_orderIndependent (crossing : Crossing layout spare)
    (hmarker :
      ¬Text.contains layout.sourceMarker crossing.top) :
    ¬layout.OrderIndependent := by
  intro hindependent
  have hreordered :
      (crossing.view crossing.canonical crossing.path).Reordered
        (crossing.view crossing.path crossing.canonical) :=
    reordered_ladderView (sameLines_twoIncludes_swap _ _) _ _ _ _ _
  exact crossing.top_not_mem_path_first
    ((hindependent _ _ hreordered crossing.source crossing.top).mp
      (crossing.top_mem_canonical_first hmarker))

end Crossing

/-- The chain of two relocations with the paths respelled. -/
def Crossing.respelled {layout : Layout} {spare : Char}
    (hspares : layout.Spares spare) {path canonical next : Path}
    (hfirst : layout.satellites.relocate? path = some canonical)
    (hsecond : layout.satellites.relocate? canonical = some next)
    (hpath : path ≠ canonical) (hcanonical : canonical ≠ next)
    (hnext : path ≠ next) : Crossing layout spare where
  path := respell spare (layout.bootstrapHeader.length + 1) path
  canonical := respell spare (layout.bootstrapHeader.length + 1) canonical
  next := respell spare (layout.bootstrapHeader.length + 1) next
  ordinary := hspares.ordinary
  relocate_path := relocate?_respell hspares _ hfirst
  relocate_canonical := relocate?_respell hspares _ hsecond
  path_ne_canonical h :=
    hpath (eq_of_respell_eq (dropWhile_eq_of_relocate? hspares hfirst) h)
  canonical_ne_next h :=
    hcanonical (eq_of_respell_eq (dropWhile_eq_of_relocate? hspares hsecond) h)
  path_ne_next h :=
    hnext (eq_of_respell_eq ((dropWhile_eq_of_relocate? hspares hfirst).trans
      (dropWhile_eq_of_relocate? hspares hsecond)) h)
  spellable_path := spellable_respell hspares _ path
  spellable_canonical := spellable_respell hspares _ canonical
  count_path := count_respell spare _ path
  count_canonical := count_respell spare _ canonical
  count_next := count_respell spare _ next
  not_mem_directory := not_mem_directory_respell hspares _ next

/-- Only a settled table, or a marker that excludes every path, makes the headers of all
sources independent of the order of lines. -/
theorem settled_of_orderIndependent {layout : Layout} {spare : Char}
    (hspares : layout.Spares spare) (h : layout.OrderIndependent) :
    layout.satellites.Settled ∨ layout.sourceMarker = [] := by
  by_contra hnot
  rw [not_or] at hnot
  obtain ⟨hunsettled, hmarker⟩ := hnot
  apply hunsettled
  intro path canonical next hfirst hsecond
  by_contra hnew
  simp only [not_or] at hnew
  obtain ⟨hpath, hcanonical, hnext⟩ := hnew
  exact (Crossing.respelled hspares hfirst hsecond hpath hcanonical
    hnext).not_orderIndependent (not_contains_replicate hspares hmarker _) h

end HeaderMake
