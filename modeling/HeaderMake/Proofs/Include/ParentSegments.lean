import HeaderMake.Proofs.Include.Entries
import HeaderMake.Proofs.Text.Occurrences
import HeaderMake.Proofs.Text.Segments

/-!
# Includes that go up

An include whose path holds one `/../` is looked up by what stands behind it, whatever
stands before it.  In a tree without links that names the same file exactly if the path
has come back, with its `..`, to the place from which the rest is taken
(`parent_collapse_finds_exactly`): with one directory name before the `..` it has, with
more it has not.  A header that a source in a nested directory includes from the directory
above is therefore lost (`header_lost_above_nested_source`).
-/

namespace HeaderMake

/-! ## One segment that goes up -/

theorem Step.eq_of_ofSegment_eq_parent {segment : Text}
    (h : Step.ofSegment (Utf8.encode segment) = .parent) :
    segment = ['.', '.'] := by
  rw [Step.ofSegment_encode] at h
  split at h
  · contradiction
  · split at h
    · assumption
    · split at h <;> contradiction

theorem Path.steps_ne_nil (path : Path) : path.steps ≠ [] :=
  List.map_eq_nil_iff.not.mpr (List.splitOn_ne_nil _ _)

theorem Path.steps_append_slash (start rest : Path) :
    Path.steps (start ++ '/' :: rest) = start.steps ++ rest.steps := by
  rw [Path.steps_eq_map, List.splitOn_append_cons_self, List.map_append,
    ← Path.steps_eq_map, ← Path.steps_eq_map]

namespace Text.HoldsOnce

variable {path before rest : Path}

theorem eq_append_slash (h : HoldsOnce "/../".toList path before rest) :
    path = (before ++ "/..".toList) ++ '/' :: rest := by
  rw [h.eq_append]
  simp

/-- Behind the only `/../` of a path, another segment `..` could only be the last. -/
theorem eq_nil_of_splitOn (h : HoldsOnce "/../".toList path before rest)
    {first later : List Text}
    (hsegments : rest.splitOn '/' = first ++ ['.', '.'] :: later) :
    later = [] := by
  by_contra hlater
  have hrest : rest = first.flatMap (· ++ ['/']) ++ "../".toList ++
      List.intercalate ['/'] later := by
    have hjoin : List.intercalate ['/'] (rest.splitOn '/') = rest :=
      List.intercalate_splitOn '/'
    rw [← hjoin, hsegments, List.append_cons,
      intercalate_append _ _ hlater, List.flatMap_append]
    rfl
  have hslash : ∃ start,
      '/' :: first.flatMap (· ++ ['/']) = start ++ ['/'] := by
    rcases List.eq_nil_or_concat' first with rfl | ⟨others, last, rfl⟩
    · exact ⟨[], rfl⟩
    · refine ⟨'/' :: others.flatMap (· ++ ['/']) ++ last, ?_⟩
      simp
  obtain ⟨start, hstart⟩ := hslash
  have hagain : path = before ++ ("/..".toList ++ start) ++ "/../".toList ++
      List.intercalate ['/'] later := by
    calc path
        = before ++ "/..".toList ++ ('/' :: first.flatMap (· ++ ['/'])) ++
            "../".toList ++ List.intercalate ['/'] later := by
          rw [h.eq_append, hrest]
          simp
      _ = _ := by
          rw [hstart]
          simp
  have hbefore := h.eq_before _ _ hagain
  rw [List.append_right_eq_self] at hbefore
  exact absurd (List.append_eq_nil_iff.mp hbefore).1 (by decide)

/-- A path that leads to a file goes up only once if it holds one `/../`. -/
theorem parent_not_mem_steps (h : HoldsOnce "/../".toList path before rest)
    {tree : Tree} (hlinkless : tree.Linkless) {links : Nat}
    {directory location : Location} {content : Bytes}
    (hwalk : tree.walk links directory rest.steps =
      .ok (.file location content)) :
    .parent ∉ rest.steps := by
  intro hparent
  rw [Path.steps_eq_map] at hparent
  obtain ⟨segment, hsegment, hstep⟩ := List.mem_map.mp hparent
  obtain rfl := Step.eq_of_ofSegment_eq_parent hstep
  obtain ⟨first, later, hsegments⟩ := List.append_of_mem hsegment
  obtain rfl := h.eq_nil_of_splitOn hsegments
  -- A walk whose last step goes up ends in a directory.
  rw [Path.steps_eq_map, hsegments, List.map_append, List.map_singleton,
    hstep] at hwalk
  have hfirst := Tree.walk_of_append_eq_file hlinkless (by simp) hwalk
  rw [Tree.walk_append_of_directory hlinkless hfirst, Tree.walk, Tree.walk]
    at hwalk
  cases hwalk

end Text.HoldsOnce

/-! ## From where a path is taken -/

namespace Workspace

variable {workspace : Workspace} {path before rest : Path}
variable {location : Location}

/-- The place from which the steps of a source path are followed: the top for an absolute
path, and else the directory that source paths are taken from. -/
def base (workspace : Workspace) (path : Path) : Location :=
  Tree.origin (workspace.tree.spelled workspace.root) path.raw

/-- A source path is not too long, and the directory that it is taken from exists. -/
structure CanLookUp (workspace : Workspace) (path : Path) : Prop where
  check : Tree.checkPath (workspace.root.join path).raw = .ok ()
  find_root : path.isAbsolute = false →
    workspace.tree.find workspace.root =
      .ok (.directory (workspace.tree.spelled workspace.root))

theorem spelled_eq (workspace : Workspace) (path : Path) :
    workspace.spelled path =
      path.steps.foldl Step.follow (workspace.base path) := by
  by_cases h : path.isAbsolute
  · rw [spelled, Path.join_of_isAbsolute _ h, Tree.spelled, base,
      Tree.origin_raw, Tree.origin_raw, h]
    rfl
  · rw [Bool.not_eq_true] at h
    rw [spelled, Path.spelled_join_of_relative _ _ h, base, Tree.origin_raw, h]
    rfl

theorem CanLookUp.find_eq (h : workspace.CanLookUp path)
    (hlinkless : workspace.tree.Linkless) :
    workspace.tree.find (workspace.root.join path) =
      workspace.tree.walk maxLinks (workspace.base path) path.steps := by
  by_cases hpath : path.isAbsolute
  · have hcheck := h.check
    rw [Path.join_of_isAbsolute _ hpath] at hcheck ⊢
    rw [Tree.find, Tree.findRaw, hcheck, base, Tree.origin_raw,
      Tree.origin_raw, hpath]
    rfl
  · rw [Bool.not_eq_true] at hpath
    have hcheck := h.check
    rw [Path.raw_join] at hcheck
    obtain ⟨left, hleft⟩ := Tree.find_join_of_relative
      ((Path.isAbsolute_raw path).trans hpath) (h.find_root hpath) hcheck
    rw [Tree.find, Path.raw_join, hleft, base, Tree.origin_raw, hpath,
      Tree.walk_links hlinkless left]
    rfl

theorem canLookUp_of_find (hlinkless : workspace.tree.Linkless)
    {content : Bytes}
    (h : workspace.tree.find (workspace.root.join path) =
      .ok (.file location content)) : workspace.CanLookUp path := by
  have hcheck := Tree.checkPath_of_findRaw h
  refine ⟨hcheck, fun hpath => ?_⟩
  have hwalk : workspace.tree.walk maxLinks (Tree.origin workspace.tree.start
      (workspace.root.join path).raw) (workspace.root.join path).steps =
        .ok (.file location content) := Tree.walk_of_findRaw h
  obtain ⟨steps, hroot, hjoin⟩ :=
    Path.exists_steps_join_of_relative workspace.root
  have horigin : Tree.origin workspace.tree.start
      (workspace.root.join path).raw =
        Tree.origin workspace.tree.start workspace.root.raw := by
    rw [Tree.origin_raw, Tree.origin_raw,
      Path.isAbsolute_join_of_relative _ hpath]
  rw [hjoin path hpath, horigin] at hwalk
  have hsteps := Tree.walk_of_append_eq_file hlinkless path.steps_ne_nil hwalk
  have hstands : workspace.tree.walk maxLinks
      (Tree.origin workspace.tree.start workspace.root.raw)
      workspace.root.steps = .ok (.directory (steps.foldl Step.follow
        (Tree.origin workspace.tree.start workspace.root.raw))) := by
    rcases hroot with heq | heq
    · rw [heq, hsteps]
    · rw [heq, Tree.walk_append_of_directory hlinkless hsteps, Tree.walk,
        Tree.walk]
  rw [Path.raw_join] at hcheck
  rw [Tree.find, Tree.findRaw, Tree.checkPath_of_sublist
      (RawPath.sublist_join_left _ ((Path.isAbsolute_raw path).trans hpath))
      hcheck,
    Tree.spelled, Tree.walk_eq_directory hlinkless hstands]
  exact hstands

/-- A source path names a file if it can be looked up and its steps lead there. -/
theorem fileAt?_eq_some_iff_walk (hlinkless : workspace.tree.Linkless) :
    workspace.fileAt? path = some location ↔
      workspace.CanLookUp path ∧ ∃ content,
        workspace.tree.walk maxLinks (workspace.base path) path.steps =
          .ok (.file location content) := by
  rw [fileAt?_eq_some_iff]
  constructor
  · rintro ⟨content, hfind⟩
    have hpath := canLookUp_of_find hlinkless hfind
    exact ⟨hpath, content, (hpath.find_eq hlinkless).symm.trans hfind⟩
  · rintro ⟨hpath, content, hwalk⟩
    exact ⟨content, (hpath.find_eq hlinkless).trans hwalk⟩

/-! ## The place that is reached -/

theorem base_before_parent
    (h : Text.HoldsOnce "/../".toList path before rest) :
    workspace.base (before ++ "/..".toList) = workspace.base path := by
  have habsolute : Path.isAbsolute (before ++ "/..".toList) =
      path.isAbsolute := by
    rw [h.eq_append_slash]
    rcases before with _ | ⟨c, before⟩ <;> rfl
  rw [base, base, Tree.origin_raw, Tree.origin_raw, habsolute]

theorem canLookUp_rest (h : Text.HoldsOnce "/../".toList path before rest)
    (hpath : workspace.CanLookUp path)
    (hrelative : path.isAbsolute = false ∨ rest.isAbsolute = true) :
    workspace.CanLookUp rest := by
  have hsublist : List.Sublist rest.raw path.raw := by
    rw [h.eq_append, Path.raw, Path.raw, Utf8.encode_append]
    exact List.sublist_append_right _ _
  have hcheck := hpath.check
  rw [Path.raw_join] at hcheck
  by_cases hrest : rest.isAbsolute
  · refine ⟨?_, fun hnot => absurd hrest (ne_true_of_eq_false hnot)⟩
    rw [Path.join_of_isAbsolute _ hrest]
    exact Tree.checkPath_of_sublist
      (hsublist.trans (RawPath.sublist_join _ _)) hcheck
  · have hup := hrelative.resolve_right hrest
    rw [Bool.not_eq_true] at hrest
    refine ⟨?_, fun _ => hpath.find_root hup⟩
    rw [Path.raw_join]
    exact Tree.checkPath_of_sublist (RawPath.join_sublist_join _
      ((Path.isAbsolute_raw rest).trans hrest)
      ((Path.isAbsolute_raw path).trans hup) hsublist) hcheck

/-- In a tree without links a path with one `/../` leads where the steps behind it lead
from the place that it has reached there. -/
theorem walk_rest (hlinkless : workspace.tree.Linkless)
    (h : Text.HoldsOnce "/../".toList path before rest)
    {location : Location} {content : Bytes}
    (hwalk : workspace.tree.walk maxLinks (workspace.base path) path.steps =
      .ok (.file location content)) :
    workspace.tree.walk maxLinks
        (workspace.spelled (before ++ "/..".toList)) rest.steps =
      .ok (.file location content) := by
  rw [h.eq_append_slash, Path.steps_append_slash, ← h.eq_append_slash,
    ← base_before_parent h] at hwalk
  have hup := Tree.walk_of_append_eq_file hlinkless rest.steps_ne_nil hwalk
  rw [Tree.walk_append_of_directory hlinkless hup,
    ← spelled_eq] at hwalk
  exact hwalk

theorem spelled_before_parent (workspace : Workspace) (before : Path) :
    workspace.spelled (before ++ "/..".toList) =
      (before.steps.foldl Step.follow
        (workspace.base (before ++ "/..".toList))).tail := by
  have hsteps : Path.steps (before ++ "/..".toList) =
      before.steps ++ [.parent] :=
    Path.steps_append_slash before ['.', '.']
  rw [spelled_eq, hsteps, List.foldl_append]
  rfl

end Workspace

/-! ## Where a collapsed include leads -/

/-- What becomes of an include line whose path leads to a file and holds one `/../`, with
`before` in front of it and `rest` behind it. -/
structure ParentCollapse (workspace : Workspace) (includer : Path)
    (payload : Text) (before rest : Path) (location : Location) : Prop where
  /-- What stands behind the segment is looked up. -/
  collapsed : Path.collapseParent (includer.directory ++ payload) = rest
  /-- It names the same file exactly if it can be looked up and is taken from the place
  that the path has reached with its `..`. -/
  same_file_iff :
    workspace.fileAt? rest = some location ↔
      workspace.CanLookUp rest ∧
        workspace.spelled (before ++ "/..".toList) = workspace.base rest
  /-- Only behind an absolute path there may be something relative that cannot be looked
  up. -/
  canLookUp :
    Path.isAbsolute (includer.directory ++ payload) = false ∨
      rest.isAbsolute = true →
    workspace.CanLookUp rest
  /-- Where names stand before the segment, it is the same place exactly behind one. -/
  same_place_iff : ∀ names : List Name, names ≠ [] →
    before.steps.filter (· ≠ .here) = names.map Step.name →
    Path.isAbsolute (includer.directory ++ payload) = rest.isAbsolute →
    (workspace.spelled (before ++ "/..".toList) = workspace.base rest ↔
      names.length = 1)
  /-- If it names the same file, each walk that reads the include line lists it, unless
  its text bears the source marker. -/
  listed : workspace.fileAt? rest = some location →
    ∀ (layout : Layout) (file : Path) (content : Bytes),
    includer ∈ (resolve layout workspace.view file).lookups →
    workspace.view.read includer = some content →
    payload ∈ includePayloads content →
    ¬Text.contains layout.sourceMarker rest →
    rest ∈ (resolve layout workspace.view file).dependencies

/-- A header that a walk has read an include line for is listed, if it can be read and its
text does not bear the source marker. -/
theorem mem_dependencies_of_included {layout : Layout} {view : SourceView}
    {file path included : Path} {content : Bytes}
    (hpath : path ∈ (resolve layout view file).lookups)
    (hread : view.read path = some content)
    (hincluded : included ∈ includedPaths path content)
    (hreads : (view.read included).isSome)
    (hmarker : ¬Text.contains layout.sourceMarker included) :
    included ∈ (resolve layout view file).dependencies := by
  have hvisited : included ∈ visitedFrom layout view file :=
    included_mem_visitedAfter layout view _ _ hread hpath _ hincluded
  by_cases hheader : included = layout.bootstrapHeader
  · rw [hheader]
    exact List.mem_cons_self
  · have hlookup := (mem_visitedFrom_iff.mp hvisited).resolve_left hheader
    exact (mem_dependencies_resolve_iff hheader).mpr
      ⟨hlookup, hreads, hmarker⟩

/-- In a tree without links an include whose path holds one `/../` is found exactly if the
path has come back there to the place from which the rest is taken. -/
theorem parent_collapse_finds_exactly {workspace : Workspace} {includer : Path}
    {payload : Text} {before rest : Path} {location : Location}
    (hlinkless : workspace.tree.Linkless)
    (honce : Text.HoldsOnce "/../".toList (includer.directory ++ payload)
      before rest)
    (hfile : workspace.fileAt? (includer.directory ++ payload) =
      some location) :
    ParentCollapse workspace includer payload before rest location := by
  obtain ⟨hpath, content, hwalk⟩ :=
    (Workspace.fileAt?_eq_some_iff_walk hlinkless).mp hfile
  have hrest := Workspace.walk_rest hlinkless honce hwalk
  have hcollapsed : Path.collapseParent (includer.directory ++ payload) =
      rest := by
    rw [Path.collapseParent, honce.cutAt?_eq]
  refine ⟨hcollapsed, ?_, Workspace.canLookUp_rest honce hpath, ?_, ?_⟩
  · rw [Workspace.fileAt?_eq_some_iff_walk hlinkless]
    constructor
    · rintro ⟨hlookUp, content', hwalk'⟩
      refine ⟨hlookUp, ?_⟩
      -- Steps that do not go up tell apart the places that they begin at.
      obtain ⟨names, hnames⟩ := Step.exists_names_foldl_follow
        (honce.parent_not_mem_steps hlinkless hrest)
      have hplace := (Tree.walk_eq_file hlinkless hrest).1
      have hplace' := (Tree.walk_eq_file hlinkless hwalk').1
      rw [hnames] at hplace hplace'
      exact List.append_cancel_left (hplace.trans hplace'.symm)
    · rintro ⟨hlookUp, hplace⟩
      exact ⟨hlookUp, content, hplace ▸ hrest⟩
  · intro names hne hnames habsolute
    have hbase : workspace.base (before ++ "/..".toList) =
        workspace.base rest := by
      rw [Workspace.base_before_parent honce, Workspace.base, Workspace.base,
        Tree.origin_raw, Tree.origin_raw, habsolute]
    have hpos := List.length_pos_of_ne_nil hne
    rw [Workspace.spelled_before_parent, hbase,
      ← Step.foldl_follow_filter_here, hnames,
      Path.Plain.foldl_follow_names,
      List.tail_append_of_ne_nil (by simpa using hne),
      List.append_left_eq_self, ← List.length_eq_zero_iff, List.length_tail,
      List.length_reverse]
    omega
  · intro hsame layout file content' hlookup hread hpayload hmarker
    apply mem_dependencies_of_included hlookup hread _ _ hmarker
    · rw [← hcollapsed]
      exact List.mem_map_of_mem hpayload
    · exact Workspace.read_isSome_of_fileAt?
        (Option.isSome_iff_exists.mpr ⟨location, hsame⟩)

/-- A source that includes a header of the directory beside its own. -/
def Workspace.beside : Workspace where
  tree := (Tree.empty.putFile "cli/main.cpp".toList
    (Utf8.encode "#include \"../lib/path.h\"\n".toList)).putFile
    "lib/path.h".toList []
  root := ".".toList

/-- One directory name stands before the segment, so the header is found and listed. -/
theorem parent_collapse_finds_beside :
    Workspace.beside.tree.Linkless ∧
      Text.HoldsOnce "/../".toList
        (Path.directory "cli/main.cpp".toList ++ "../lib/path.h".toList)
        "cli".toList "lib/path.h".toList ∧
      (Workspace.beside.fileAt?
        (Path.directory "cli/main.cpp".toList ++
          "../lib/path.h".toList)).isSome ∧
      "lib/path.h".toList ∈
        (resolve .standard Workspace.beside.view
          "cli/main.cpp".toList).dependencies := by
  have hlinkless : Workspace.beside.tree.Linkless :=
    Tree.linkless_of_entries (by decide +kernel)
  have honce : Text.HoldsOnce "/../".toList
      (Path.directory "cli/main.cpp".toList ++ "../lib/path.h".toList)
      "cli".toList "lib/path.h".toList :=
    Text.holdsOnce_of_cutAt? (by decide +kernel) (by decide +kernel)
  have hisSome : (Workspace.beside.fileAt?
      (Path.directory "cli/main.cpp".toList ++
        "../lib/path.h".toList)).isSome := by decide +kernel
  obtain ⟨location, hlocation⟩ := Option.isSome_iff_exists.mp hisSome
  have hcollapse := parent_collapse_finds_exactly hlinkless honce hlocation
  have hplace := (hcollapse.same_place_iff [⟨Utf8.encode "cli".toList, by decide⟩]
    (by simp) (by decide) (by decide)).mpr rfl
  have hsame := hcollapse.same_file_iff.mpr
    ⟨hcollapse.canLookUp (.inl (by decide)), hplace⟩
  have hread : Workspace.beside.view.read "cli/main.cpp".toList =
      some (Utf8.encode "#include \"../lib/path.h\"\n".toList) := by decide +kernel
  have hpayloads : includePayloads
      (Utf8.encode "#include \"../lib/path.h\"\n".toList) =
        ["../lib/path.h".toList] := by decide +kernel
  have hvisited := mem_visitedAfter_of_mem_pending .standard
    Workspace.beside.view [Layout.standard.bootstrapHeader]
    [⟨"cli/main.cpp".toList, false⟩] _ List.mem_cons_self
  have hlookup := (mem_visitedFrom_iff.mp hvisited).resolve_left (by decide)
  exact ⟨hlinkless, honce, hisSome, hcollapse.listed hsame _ _ _ hlookup hread
    (hpayloads ▸ List.mem_cons_self) (by decide)⟩

/-! ## A header above a nested source -/

/-- A source in a nested directory that includes a header of the directory above. -/
def Workspace.nested : Workspace where
  tree := (Tree.empty.putFile "lib/sub/a.cpp".toList
    (Utf8.encode "#include \"../b.h\"\n".toList)).putFile "lib/b.h".toList []
  root := ".".toList

namespace Workspace

theorem read_source_nested :
    nested.view.read "lib/sub/a.cpp".toList =
      some (Utf8.encode "#include \"../b.h\"\n".toList) := by
  decide +kernel

theorem includePayloads_nested :
    includePayloads (Utf8.encode "#include \"../b.h\"\n".toList) =
      ["../b.h".toList] := by
  decide +kernel

theorem lookups_nested :
    (resolve .standard nested.view "lib/sub/a.cpp".toList).lookups =
      ["lib/sub/a.cpp".toList, "b.h".toList] := by
  have hincluded : includedPaths "lib/sub/a.cpp".toList
      (Utf8.encode "#include \"../b.h\"\n".toList) = ["b.h".toList] := by
    rw [includedPaths, includePayloads_nested]
    decide
  have hleaf : nested.view.read "b.h".toList = none := by decide +kernel
  have hfallback : Layout.standard.fallback? ⟨"b.h".toList, false⟩ = none := by
    decide +kernel
  change (walkIncludes _ _ _ _).lookups = _
  rw [walkIncludes_of_not_mem (by decide),
    Layout.followUps_of_read read_source_nested, hincluded, List.append_nil,
    List.map_singleton, walkIncludes_of_not_mem (by decide),
    Layout.followUps_of_unreadable hleaf, hfallback, Option.toList_none,
    List.map_nil, List.nil_append, walkIncludes_nil]
  rfl

theorem dependencies_nested :
    (resolve .standard nested.view "lib/sub/a.cpp".toList).dependencies =
      ["lib/cxx11emu.h".toList] := by
  have hlists : ["lib/sub/a.cpp".toList, "b.h".toList].filter
      (Layout.standard.lists nested.view) = [] := by decide +kernel
  rw [dependencies_resolve, lookups_nested, hlists]
  rfl

end Workspace

/-- A header that a source of a recursive scan includes from the directory above its own
is not among the headers of that source, in any spelling. -/
theorem header_lost_above_nested_source :
    Workspace.nested.tree.Linkless ∧
      Workspace.nested.tree.collect ".".toList "lib/".toList ".cpp".toList true =
        ["lib/sub/a.cpp".toList] ∧
      "lib/sub/a.cpp".toList ∈
        (resolve .standard Workspace.nested.view
          "lib/sub/a.cpp".toList).lookups ∧
      (∃ content,
        Workspace.nested.view.read "lib/sub/a.cpp".toList = some content ∧
          "../b.h".toList ∈ includePayloads content) ∧
      Text.HoldsOnce "/../".toList
        (Path.directory "lib/sub/a.cpp".toList ++ "../b.h".toList)
        "lib/sub".toList "b.h".toList ∧
      (Workspace.nested.fileAt?
        (Path.directory "lib/sub/a.cpp".toList ++ "../b.h".toList)).isSome ∧
      ¬Text.contains Layout.standard.sourceMarker
        (Path.directory "lib/sub/a.cpp".toList ++ "../b.h".toList) ∧
      Workspace.nested.fileAt? Layout.standard.bootstrapHeader = none ∧
      Workspace.nested.fileAt? (Path.collapseParent
          (Path.directory "lib/sub/a.cpp".toList ++ "../b.h".toList)) = none ∧
      ∀ header ∈ (resolve .standard Workspace.nested.view
          "lib/sub/a.cpp".toList).dependencies,
        Workspace.nested.fileAt? header ≠ Workspace.nested.fileAt?
          (Path.directory "lib/sub/a.cpp".toList ++ "../b.h".toList) := by
  have hfile : (Workspace.nested.fileAt? (Path.directory
      "lib/sub/a.cpp".toList ++ "../b.h".toList)).isSome := by decide +kernel
  have hbootstrap : Workspace.nested.fileAt?
      Layout.standard.bootstrapHeader = none := by decide +kernel
  refine ⟨Tree.linkless_of_entries (by decide +kernel), by decide +kernel, ?_,
    ⟨_, Workspace.read_source_nested, ?_⟩,
    Text.holdsOnce_of_cutAt? (by decide +kernel) (by decide +kernel), hfile, by decide, hbootstrap,
    by decide +kernel, ?_⟩
  · rw [Workspace.lookups_nested]
    exact List.mem_cons_self
  · rw [Workspace.includePayloads_nested]
    exact List.mem_cons_self
  · intro header hheader
    rw [Workspace.dependencies_nested, List.mem_singleton] at hheader
    intro heq
    rw [← heq, hheader] at hfile
    rw [show Workspace.nested.fileAt? "lib/cxx11emu.h".toList = none from
      hbootstrap] at hfile
    cases hfile

end HeaderMake
