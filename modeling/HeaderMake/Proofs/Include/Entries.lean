import HeaderMake.Proofs.Include.Headers
import HeaderMake.Proofs.Include.PlainWalks
import HeaderMake.Proofs.Run.Outputs
import HeaderMake.Tree.Edit
import Mathlib.Algebra.Order.BigOperators.Group.List
import Mathlib.Algebra.Order.Group.Nat
import Mathlib.Data.List.Perm.Subperm

/-!
# One entry for each spelling

A walk tells paths apart by their texts.  In a tree without links two headers that it
lists name the same file exactly if their texts spell the same place, so a file has more
than one entry only where `.`, `..` or doubled slashes are left in the texts
(`entries_by_spelling`).  Plain entries are no more than there are files, and a walk that
reads plain paths only looks up at most two paths for every include line of the tree.

Other spellings do occur, since a payload is put behind the directory of its file as it
is: a header that is included in three spellings is listed three times
(`header_listed_in_each_spelling`).
-/

namespace HeaderMake

/-! ## Files of a tree without links -/

/-- The number of include lines of the file at a location. -/
def Tree.includeCount (tree : Tree) (location : Location) : Nat :=
  ((tree.contentAt? location).map fun content =>
    (includePayloads content).length).getD 0

/-- The number of include lines in the files of the tree. -/
def Tree.includeLines (tree : Tree) : Nat :=
  (tree.fileLocations.map tree.includeCount).sum

/-- Whether an entry is no file or a file whose payloads are all plain. -/
def Entry.payloadsPlain : Entry → Bool
  | .file content => (includePayloads content).all fun payload => Path.Plain payload
  | _ => true

/-- All payloads in the files of the tree are plain. -/
def Tree.PayloadsPlain (tree : Tree) : Prop :=
  ∀ location content, tree.lookup location = some (.file content) →
    ∀ payload ∈ includePayloads content, Path.Plain payload

theorem Tree.payloadsPlain_of_entries {tree : Tree}
    (h : tree.entries.all (·.2.payloadsPlain) = true) :
    tree.PayloadsPlain := by
  intro location content hlookup payload hpayload
  cases location with
  | nil => cases hlookup
  | cons name parent =>
      have hentry := List.all_eq_true.mp h _ (mem_entries_of_lookup hlookup)
      exact of_decide_eq_true (List.all_eq_true.mp hentry payload hpayload)

namespace Workspace

variable {workspace : Workspace} {path other : Path}

/-- The place that a source path spells. -/
def spelled (workspace : Workspace) (path : Path) : Location :=
  workspace.tree.spelled (workspace.root.join path)

theorem exists_find_of_read {content : Bytes}
    (h : workspace.view.read path = some content) :
    ∃ location, workspace.tree.find (workspace.root.join path) =
      .ok (.file location content) := by
  simp only [view, read, Tree.read] at h
  cases hfind : workspace.tree.find (workspace.root.join path) with
  | error cause =>
      rw [hfind] at h
      cases h
  | ok found =>
      rw [hfind] at h
      cases found with
      | directory target => cases h
      | file location other =>
          cases h
          exact ⟨location, rfl⟩

/-- A path that can be read leads to the place that it spells, and what is read is what
stands there. -/
theorem fileAt?_of_read (hlinkless : workspace.tree.Linkless)
    {content : Bytes} (h : workspace.view.read path = some content) :
    workspace.fileAt? path = some (workspace.spelled path) ∧
      workspace.tree.lookup (workspace.spelled path) =
        some (.file content) := by
  obtain ⟨location, hfind⟩ := exists_find_of_read h
  obtain ⟨rfl, hlookup⟩ := Tree.find_eq_file hlinkless hfind
  exact ⟨fileAt?_eq_some_iff.mpr ⟨content, hfind⟩, hlookup⟩

theorem fileAt?_eq_iff (hlinkless : workspace.tree.Linkless)
    (hpath : (workspace.view.read path).isSome)
    (hother : (workspace.view.read other).isSome) :
    workspace.fileAt? path = workspace.fileAt? other ↔
      workspace.spelled path = workspace.spelled other := by
  obtain ⟨content, hcontent⟩ := Option.isSome_iff_exists.mp hpath
  obtain ⟨content', hcontent'⟩ := Option.isSome_iff_exists.mp hother
  rw [(fileAt?_of_read hlinkless hcontent).1,
    (fileAt?_of_read hlinkless hcontent').1, Option.some_inj]

/-- Plain relative paths that can be read are told apart by the places they spell. -/
theorem eq_of_spelled_eq (hplain : path.Plain) (hplain' : other.Plain)
    (hpath : (workspace.view.read path).isSome)
    (hother : (workspace.view.read other).isSome)
    (h : workspace.spelled path = workspace.spelled other) : path = other := by
  obtain ⟨content, hcontent⟩ := Option.isSome_iff_exists.mp hpath
  obtain ⟨content', hcontent'⟩ := Option.isSome_iff_exists.mp hother
  obtain ⟨location, hfind⟩ := exists_find_of_read hcontent
  obtain ⟨location', hfind'⟩ := exists_find_of_read hcontent'
  obtain ⟨steps, -, hsteps⟩ :=
    Path.exists_steps_join_of_relative workspace.root
  have hwalk : .overlong ∉ (workspace.root.join path).steps :=
    Tree.overlong_not_mem_of_walk (Tree.walk_of_findRaw hfind)
  have hwalk' : .overlong ∉ (workspace.root.join other).steps :=
    Tree.overlong_not_mem_of_walk (Tree.walk_of_findRaw hfind')
  rw [hsteps _ hplain.isAbsolute_eq_false, List.mem_append, not_or] at hwalk
  rw [hsteps _ hplain'.isAbsolute_eq_false, List.mem_append, not_or] at hwalk'
  rw [spelled, Path.spelled_join_of_relative _ _ hplain.isAbsolute_eq_false,
    spelled, Path.spelled_join_of_relative _ _ hplain'.isAbsolute_eq_false] at h
  exact hplain.eq_of_foldl_follow hplain' hwalk.2 hwalk'.2 h

/-- Different plain paths that can be read spell different files of the tree. -/
theorem subperm_fileLocations (hlinkless : workspace.tree.Linkless)
    {paths : List Path} (hnodup : paths.Nodup)
    (hread : ∀ path ∈ paths, (workspace.view.read path).isSome)
    (hplain : ∀ path ∈ paths, path.Plain) :
    (paths.map workspace.spelled).Subperm workspace.tree.fileLocations := by
  apply List.subperm_of_subset
  · apply hnodup.map_on
    intro path hpath other hother heq
    exact eq_of_spelled_eq (hplain path hpath) (hplain other hother)
      (hread path hpath) (hread other hother) heq
  · intro location hlocation
    obtain ⟨path, hpath, rfl⟩ := List.mem_map.mp hlocation
    obtain ⟨content, hcontent⟩ :=
      Option.isSome_iff_exists.mp (hread path hpath)
    exact Tree.mem_fileLocations (fileAt?_of_read hlinkless hcontent).2

/-- Different plain paths have together no more include lines than the tree. -/
theorem sum_includeCount_le (hlinkless : workspace.tree.Linkless)
    {paths : List Path} (hnodup : paths.Nodup)
    (hread : ∀ path ∈ paths, (workspace.view.read path).isSome)
    (hplain : ∀ path ∈ paths, path.Plain) :
    (paths.map workspace.view.includeCount).sum ≤
      workspace.tree.includeLines := by
  have hcount : ∀ path ∈ paths, workspace.view.includeCount path =
      workspace.tree.includeCount (workspace.spelled path) := by
    intro path hpath
    obtain ⟨content, hcontent⟩ :=
      Option.isSome_iff_exists.mp (hread path hpath)
    have hlookup := (fileAt?_of_read hlinkless hcontent).2
    rw [SourceView.includeCount, hcontent, Tree.includeCount,
      Tree.contentAt?_eq_some_iff.mpr hlookup]
  obtain ⟨kept, hperm, hsublist⟩ :=
    subperm_fileLocations hlinkless hnodup hread hplain
  calc (paths.map workspace.view.includeCount).sum
      = ((paths.map workspace.spelled).map
          workspace.tree.includeCount).sum := by
        rw [List.map_map]
        exact congrArg List.sum (List.map_congr_left hcount)
    _ = (kept.map workspace.tree.includeCount).sum :=
        ((hperm.map _).sum_eq).symm
    _ ≤ workspace.tree.includeLines :=
        (hsublist.map _).sum_le_sum fun _ _ => Nat.zero_le _

end Workspace

/-! ## The entries of a source -/

/-- How the headers that a walk lists, and the paths that it looks up, name the files of
the tree. -/
structure EntriesBySpelling (workspace : Workspace) (layout : Layout)
    (file : Path) : Prop where
  /-- No text is listed twice. -/
  nodup : (resolve layout workspace.view file).dependencies.Nodup
  /-- Every entry but the bootstrap header names a file. -/
  names_file :
    ∀ path ∈ (resolve layout workspace.view file).dependencies,
      path = layout.bootstrapHeader ∨ (workspace.fileAt? path).isSome
  /-- Two entries name one file exactly if they spell one place. -/
  same_file_iff :
    ∀ path ∈ (resolve layout workspace.view file).dependencies,
    ∀ other ∈ (resolve layout workspace.view file).dependencies,
      (workspace.fileAt? path).isSome → (workspace.fileAt? other).isSome →
      (workspace.fileAt? path = workspace.fileAt? other ↔
        workspace.spelled path = workspace.spelled other)
  /-- One file, one plain entry. -/
  eq_of_plain :
    ∀ path ∈ (resolve layout workspace.view file).dependencies,
    ∀ other ∈ (resolve layout workspace.view file).dependencies,
      path.Plain → other.Plain → (workspace.fileAt? path).isSome →
      workspace.fileAt? path = workspace.fileAt? other → path = other
  /-- There are no more plain entries than files, apart from the bootstrap header. -/
  length_plain_le :
    ((resolve layout workspace.view file).dependencies.filter
        (·.Plain)).length ≤ workspace.tree.fileLocations.length + 1
  /-- A walk that reads plain paths only lists one header for each file at most, and
  looks up at most two paths for every include line and two for the source. -/
  bounded :
    (∀ path ∈ (resolve layout workspace.view file).lookups,
      (workspace.view.read path).isSome → path.Plain) →
    (resolve layout workspace.view file).dependencies.length ≤
        workspace.tree.fileLocations.length + 1 ∧
      (resolve layout workspace.view file).lookups.length ≤
        2 * (workspace.tree.includeLines + 1)
  /-- That is so if the source and all payloads are written plainly, and the satellite
  table adds nothing else. -/
  plain_lookups :
    file.Plain → layout.satellites.KeepsPlain →
    workspace.tree.PayloadsPlain →
    ∀ path ∈ (resolve layout workspace.view file).lookups, path.Plain

namespace Workspace

variable {workspace : Workspace} {layout : Layout} {file : Path}

theorem read_isSome_of_fileAt? {path : Path}
    (h : (workspace.fileAt? path).isSome) :
    (workspace.view.read path).isSome := by
  obtain ⟨location, hlocation⟩ := Option.isSome_iff_exists.mp h
  obtain ⟨content, hfind⟩ := fileAt?_eq_some_iff.mp hlocation
  simp only [view, read, Tree.read, hfind]
  rfl

/-- Behind the bootstrap header stand different paths that are looked up and can be
read. -/
theorem exists_headers (workspace : Workspace) (layout : Layout)
    (file : Path) :
    ∃ headers,
      (resolve layout workspace.view file).dependencies =
          layout.bootstrapHeader :: headers ∧
        headers.Nodup ∧
        (∀ path ∈ headers, (workspace.view.read path).isSome) ∧
        ∀ path ∈ headers,
          path ∈ (resolve layout workspace.view file).lookups := by
  have hnodup := nodup_dependencies_resolve layout workspace.view file
  refine ⟨_, rfl, (List.nodup_cons.mp hnodup).2, ?_, ?_⟩
  · exact fun path hpath => (mem_dependencies_walkIncludes_iff.mp hpath).2.1
  · exact fun path hpath => (mem_dependencies_walkIncludes_iff.mp hpath).1

theorem length_plain_dependencies_le (hlinkless : workspace.tree.Linkless)
    (layout : Layout) (file : Path) :
    ((resolve layout workspace.view file).dependencies.filter
        (·.Plain)).length ≤ workspace.tree.fileLocations.length + 1 := by
  obtain ⟨headers, hdependencies, hnodup, hread, -⟩ :=
    exists_headers workspace layout file
  have hheaders := subperm_fileLocations hlinkless
    (hnodup.filter (·.Plain))
    (fun path hpath => hread path (List.mem_of_mem_filter hpath))
    (fun path hpath => of_decide_eq_true (List.mem_filter.mp hpath).2)
  have hlength := hheaders.length_le
  rw [List.length_map] at hlength
  rw [hdependencies, List.filter_cons]
  split
  · rw [List.length_cons]
    exact Nat.succ_le_succ hlength
  · exact Nat.le_succ_of_le hlength

theorem length_dependencies_le (hlinkless : workspace.tree.Linkless)
    (hplain : ∀ path ∈ (resolve layout workspace.view file).lookups,
      (workspace.view.read path).isSome → path.Plain) :
    (resolve layout workspace.view file).dependencies.length ≤
      workspace.tree.fileLocations.length + 1 := by
  obtain ⟨headers, hdependencies, hnodup, hread, hlookups⟩ :=
    exists_headers workspace layout file
  have hheaders := subperm_fileLocations hlinkless hnodup hread
    (fun path hpath => hplain path (hlookups path hpath) (hread path hpath))
  have hlength := hheaders.length_le
  rw [List.length_map] at hlength
  rw [hdependencies, List.length_cons]
  exact Nat.succ_le_succ hlength

theorem length_lookups_resolve_le (hlinkless : workspace.tree.Linkless)
    (hplain : ∀ path ∈ (resolve layout workspace.view file).lookups,
      (workspace.view.read path).isSome → path.Plain) :
    (resolve layout workspace.view file).lookups.length ≤
      2 * (workspace.tree.includeLines + 1) := by
  have hlength := length_lookups_le layout workspace.view
    [layout.bootstrapHeader] [⟨file, false⟩]
  have hweight : Pending.totalWeight [⟨file, false⟩] = 2 := rfl
  have hnodup := nodup_lookups_walkIncludes layout workspace.view
    [layout.bootstrapHeader] [⟨file, false⟩]
  -- What cannot be read has no include lines, so only plain paths count.
  have hcount := sum_includeCount_le hlinkless
    (hnodup.filter fun path => (workspace.view.read path).isSome)
    (fun path hpath => (List.mem_filter.mp hpath).2)
    (fun path hpath => hplain path (List.mem_of_mem_filter hpath)
      (List.mem_filter.mp hpath).2)
  change (walkIncludes layout workspace.view [layout.bootstrapHeader]
    [⟨file, false⟩]).lookups.length ≤ _
  omega

/-- Where all payloads are plain, plain paths include plain paths. -/
theorem includesPlain_of_payloads (hlinkless : workspace.tree.Linkless)
    (hpayloads : workspace.tree.PayloadsPlain) :
    workspace.view.IncludesPlain := by
  intro path content hplain hread
  have hlookup := (fileAt?_of_read hlinkless hread).2
  exact hplain.of_mem_includedPaths (hpayloads _ content hlookup)

end Workspace

/-- In a tree without links a source has one entry for each spelling, and one plain entry
for each file at most. -/
theorem entries_by_spelling {workspace : Workspace}
    (hlinkless : workspace.tree.Linkless) (layout : Layout) (file : Path) :
    EntriesBySpelling workspace layout file where
  nodup := nodup_dependencies_resolve layout workspace.view file
  names_file path hpath := by
    obtain ⟨headers, hdependencies, -, hread, -⟩ :=
      Workspace.exists_headers workspace layout file
    rw [hdependencies] at hpath
    rcases List.mem_cons.mp hpath with hbootstrap | hheader
    · exact .inl hbootstrap
    · obtain ⟨content, hcontent⟩ :=
        Option.isSome_iff_exists.mp (hread path hheader)
      rw [(Workspace.fileAt?_of_read hlinkless hcontent).1]
      exact .inr rfl
  same_file_iff _ _ _ _ hfile hfile' :=
    Workspace.fileAt?_eq_iff hlinkless
      (Workspace.read_isSome_of_fileAt? hfile)
      (Workspace.read_isSome_of_fileAt? hfile')
  eq_of_plain _ _ _ _ hplain hplain' hfile heq := by
    have hfile' := heq ▸ hfile
    have hread := Workspace.read_isSome_of_fileAt? hfile
    have hread' := Workspace.read_isSome_of_fileAt? hfile'
    exact Workspace.eq_of_spelled_eq hplain hplain' hread hread'
      ((Workspace.fileAt?_eq_iff hlinkless hread hread').mp heq)
  length_plain_le :=
    Workspace.length_plain_dependencies_le hlinkless layout file
  bounded hplain :=
    ⟨Workspace.length_dependencies_le hlinkless hplain,
      Workspace.length_lookups_resolve_le hlinkless hplain⟩
  plain_lookups hfile htable hpayloads := by
    apply plain_of_mem_lookups htable
      (Workspace.includesPlain_of_payloads hlinkless hpayloads)
    intro next hnext
    rw [List.mem_singleton.mp hnext]
    exact hfile

/-- Two headers that include each other, of which one is reached by a relocation. -/
theorem entries_by_spelling_mirrored :
    Workspace.mirrored.tree.Linkless ∧
      (resolve .standard Workspace.mirrored.view
        "cli/main.cpp".toList).dependencies.length ≤ 3 + 1 ∧
      (resolve .standard Workspace.mirrored.view
        "cli/main.cpp".toList).lookups.length ≤ 2 * (3 + 1) := by
  have hlinkless : Workspace.mirrored.tree.Linkless :=
    Tree.linkless_of_entries (by decide +kernel)
  have hpayloads : Workspace.mirrored.tree.PayloadsPlain :=
    Tree.payloadsPlain_of_entries (by decide +kernel)
  have hfiles : Workspace.mirrored.tree.fileLocations.length = 3 := by decide +kernel
  have hlines : Workspace.mirrored.tree.includeLines = 3 := by decide +kernel
  have hentries := entries_by_spelling hlinkless .standard
    "cli/main.cpp".toList
  have hplain := hentries.plain_lookups (by decide)
    SatelliteTable.standard_keepsPlain hpayloads
  have hbounded := hentries.bounded fun path hpath _ => hplain path hpath
  rw [hfiles, hlines] at hbounded
  exact ⟨hlinkless, hbounded⟩

/-! ## A header in three spellings -/

/-- Three spellings of one include. -/
def spellings : Text :=
  "#include \"b.h\"\n#include \"./b.h\"\n#include \".//b.h\"\n".toList

/-- A source that includes the header beside it in three spellings. -/
def Workspace.respelled : Workspace where
  tree := (Tree.empty.putFile "lib/a.cpp".toList
    (Utf8.encode spellings)).putFile "lib/b.h".toList []
  root := ".".toList

namespace Workspace

theorem linkless_respelled : respelled.tree.Linkless := by
  apply Tree.linkless_of_entries
  decide +kernel

theorem length_fileLocations_respelled :
    respelled.tree.fileLocations.length = 2 := by
  decide +kernel

theorem lookups_respelled :
    (resolve .standard respelled.view "lib/a.cpp".toList).lookups =
      ["lib/a.cpp".toList, "lib/b.h".toList, "lib/./b.h".toList,
        "lib/.//b.h".toList] := by
  have hsource : respelled.view.read "lib/a.cpp".toList =
      some (Utf8.encode spellings) := by decide +kernel
  have hheader : respelled.view.read "lib/b.h".toList = some [] := by decide +kernel
  have hdot : respelled.view.read "lib/./b.h".toList = some [] := by decide +kernel
  have hslashes : respelled.view.read "lib/.//b.h".toList = some [] := by decide +kernel
  have hincluded : includedPaths "lib/a.cpp".toList
      (Utf8.encode spellings) =
        ["lib/b.h".toList, "lib/./b.h".toList, "lib/.//b.h".toList] := by decide +kernel
  have hnothing : ∀ path, includedPaths path [] = [] := fun _ => rfl
  change (walkIncludes _ _ _ _).lookups = _
  rw [walkIncludes_of_not_mem (by decide),
    Layout.followUps_of_read hsource, hincluded, List.append_nil]
  simp only [List.map_cons, List.map_nil]
  rw [walkIncludes_of_not_mem (by decide),
    Layout.followUps_of_read hheader, hnothing, List.map_nil,
    List.nil_append, walkIncludes_of_not_mem (by decide),
    Layout.followUps_of_read hdot, hnothing, List.map_nil,
    List.nil_append, walkIncludes_of_not_mem (by decide),
    Layout.followUps_of_read hslashes, hnothing, List.map_nil,
    List.nil_append, walkIncludes_nil]
  rfl

theorem dependencies_respelled :
    (resolve .standard respelled.view "lib/a.cpp".toList).dependencies =
      ["lib/cxx11emu.h".toList, "lib/b.h".toList, "lib/./b.h".toList,
        "lib/.//b.h".toList] := by
  have hlists : ["lib/a.cpp".toList, "lib/b.h".toList, "lib/./b.h".toList,
      "lib/.//b.h".toList].filter (Layout.standard.lists respelled.view) =
        ["lib/b.h".toList, "lib/./b.h".toList, "lib/.//b.h".toList] := by decide +kernel
  rw [dependencies_resolve, lookups_respelled, hlists]
  rfl

end Workspace

/-- Two different headers that a source lists name the same file of a tree without links,
and it lists more headers than there are files. -/
theorem header_listed_in_each_spelling :
    Workspace.respelled.tree.Linkless ∧
      "lib/b.h".toList ≠ "lib/./b.h".toList ∧
      "lib/b.h".toList ∈
        (resolve .standard Workspace.respelled.view
          "lib/a.cpp".toList).dependencies ∧
      "lib/./b.h".toList ∈
        (resolve .standard Workspace.respelled.view
          "lib/a.cpp".toList).dependencies ∧
      (Workspace.respelled.fileAt? "lib/b.h".toList).isSome ∧
      Workspace.respelled.fileAt? "lib/b.h".toList =
        Workspace.respelled.fileAt? "lib/./b.h".toList ∧
      Workspace.respelled.tree.fileLocations.length + 1 <
        (resolve .standard Workspace.respelled.view
          "lib/a.cpp".toList).dependencies.length := by
  have hfile : (Workspace.respelled.fileAt? "lib/b.h".toList).isSome := by decide +kernel
  have hsame : Workspace.respelled.fileAt? "lib/b.h".toList =
      Workspace.respelled.fileAt? "lib/./b.h".toList := by decide +kernel
  rw [Workspace.dependencies_respelled,
    Workspace.length_fileLocations_respelled]
  exact ⟨Workspace.linkless_respelled, by decide, by decide, by decide,
    hfile, hsame, by decide⟩

end HeaderMake
