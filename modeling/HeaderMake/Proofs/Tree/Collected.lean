import HeaderMake.Proofs.Text.ByteOrder
import HeaderMake.Proofs.Tree.Below
import HeaderMake.Proofs.Tree.Scanned
import HeaderMake.Tree.Edit
import Mathlib.Tactic.ByContra

/-!
# What is collected below a directory

Which files lie below a directory can be said without any scan: `Tree.LeadsDown` follows
names from directory to directory, through links as well, but through no link to a
directory that is still open on the way down.  `collect_exactly` says that the files
collected below a directory text are those to which names lead down, apart from
directories whose path is too long to be opened, and that they come in the order of their
bytes, each once.

What is collected without entering directories is the part of it that lies directly in
the directory (`AtDepthOne`).
-/

namespace HeaderMake

/-! ## Ways down -/

/-- What stands under a name in a directory that was reached by a path, links followed.
A link to a directory that is open counts for nothing, and so does a dangling link. -/
inductive Tree.Stands (tree : Tree) (opened : List Location)
    (directory : Location) (path : RawPath) (name : Name) : Passage → Prop
  | file {content : Bytes}
      (hentry : tree.lookup (name :: directory) = some (.file content)) :
      Stands tree opened directory path name (.file (name :: directory))
  | directory (hentry : tree.lookup (name :: directory) = some .directory) :
      Stands tree opened directory path name (.directory (name :: directory))
  | linkedFile {target : RawPath} {location : Location} {content : Bytes}
      (hentry : tree.lookup (name :: directory) = some (.link target))
      (hfind : tree.findRaw (path.join name.bytes) = .ok (.file location content)) :
      Stands tree opened directory path name (.file location)
  | linkedDirectory {target : RawPath} {location : Location}
      (hentry : tree.lookup (name :: directory) = some (.link target))
      (hfind : tree.findRaw (path.join name.bytes) = .ok (.directory location))
      (hclosed : location ∉ opened) :
      Stands tree opened directory path name (.directory location)

/-- Names lead down from a directory to a regular file. -/
inductive Tree.LeadsDown (tree : Tree) :
    List Location → Location → RawPath → List Name → Prop
  | file {opened : List Location} {directory location : Location} {path : RawPath}
      {name : Name}
      (hfile : tree.Stands opened directory path name (.file location)) :
      LeadsDown tree opened directory path [name]
  | enter {opened : List Location} {directory target : Location} {path : RawPath}
      {name : Name} {rest : List Name}
      (hdirectory :
        tree.Stands opened directory path name (.directory target))
      (hrest : LeadsDown tree (target :: opened) target
        (path.join name.bytes) rest) :
      LeadsDown tree opened directory path (name :: rest)

theorem RawPath.length_le_descend (path : RawPath) (names : List Name) :
    path.length ≤ (path.descend names).length := by
  induction names generalizing path with
  | nil => exact Nat.le_refl _
  | cons name rest ih =>
      have hjoin := path.sublist_join_left name.isAbsolute_bytes
      exact Nat.le_trans hjoin.length_le (ih _)

namespace Tree

variable {tree : Tree} {recursive : Bool} {opened : List Location}
variable {directory : Location} {path : RawPath} {name : Name}

/-! ## Scans follow the ways down -/

/-- A scan finds what stands under a name.  Directories are found only by a scan that
enters them, if their path is not too long. -/
theorem stands_of_passage? {passage : Passage}
    (h : tree.passage? recursive opened directory path name = some passage) :
    tree.Stands opened directory path name passage ∧
      ∀ target, passage = .directory target → recursive = true ∧
        (path.join name.bytes).length ≤ maxPathBytes := by
  have hlength : ∀ {found : Found}, tree.findRaw (path.join name.bytes) = .ok found →
      (path.join name.bytes).length ≤ maxPathBytes :=
    fun hfound => (checkPath_eq_ok_iff.mp (checkPath_of_findRaw hfound)).2
  unfold passage? at h
  split at h
  · cases h
  · next hentry =>
    cases h
    exact ⟨.file hentry, fun _ heq => Passage.noConfusion heq⟩
  · next hentry =>
    split at h
    · next henter =>
      cases h
      obtain ⟨hrecursive, hexists⟩ := Bool.and_eq_true_iff.mp henter
      refine ⟨.directory hentry, fun _ _ => ⟨hrecursive, ?_⟩⟩
      cases hfind : tree.findRaw (path.join name.bytes) with
      | ok found => exact hlength hfind
      | error cause =>
          rw [hfind] at hexists
          cases hexists
    · cases h
  · next hentry =>
    split at h
    · cases h
    · next hfind =>
      cases h
      exact ⟨.linkedFile hentry hfind, fun _ heq => Passage.noConfusion heq⟩
    · next hfind =>
      split at h
      · next hopen =>
        cases h
        obtain ⟨hrecursive, hclosed⟩ := Bool.and_eq_true_iff.mp hopen
        exact ⟨.linkedDirectory hentry hfind (by simpa using hclosed),
          fun _ _ => ⟨hrecursive, hlength hfind⟩⟩
      · cases h

theorem passage?_of_stands_file {location : Location}
    (h : tree.Stands opened directory path name (.file location)) :
    tree.passage? recursive opened directory path name =
      some (.file location) := by
  unfold passage?
  cases h with
  | file hentry => rw [hentry]
  | linkedFile hentry hfind => rw [hentry, hfind]

theorem passage?_of_stands_directory {target : Location}
    (hfind : tree.findRaw path = .ok (.directory directory))
    (h : tree.Stands opened directory path name (.directory target))
    (hlength : (path.join name.bytes).length ≤ maxPathBytes) :
    tree.passage? true opened directory path name =
      some (.directory target) := by
  unfold passage?
  cases h with
  | directory hentry =>
      have hcheck := checkPath_join (checkPath_of_findRaw hfind) hlength
      have hexists : (tree.findRaw (path.join name.bytes)).isOk = true := by
        rw [find_join_directory hfind hentry, hcheck]
        rfl
      simp [hentry, hexists]
  | linkedDirectory hentry hlink hclosed => simp [hentry, hlink, hclosed]

/-- A scan lists the names that lead down, if the directory that holds the file has a
path that is not too long, and is the first one unless others are entered. -/
theorem mem_scan_iff_leadsDown {names : List Name}
    (hfind : tree.findRaw path = .ok (.directory directory)) :
    names ∈ tree.scan recursive opened directory path ↔
      tree.LeadsDown opened directory path names ∧
        (path.descend names.dropLast).length ≤ maxPathBytes ∧
        (recursive = true ∨ names.length = 1) := by
  rw [Tree.mem_scan_iff]
  constructor
  · intro h
    induction names generalizing opened directory path with
    | nil => cases h
    | cons name rest ih =>
        rw [scanned?] at h
        cases hpassage : tree.passage? recursive opened directory path name with
        | none =>
            rw [hpassage] at h
            cases h
        | some passage =>
            rw [hpassage] at h
            obtain ⟨hstands, hopens⟩ := stands_of_passage? hpassage
            cases passage with
            | file location =>
                have hrest : rest = [] := by
                  by_contra hne
                  simp [hne] at h
                subst hrest
                exact ⟨.file hstands,
                  (checkPath_eq_ok_iff.mp (checkPath_of_findRaw hfind)).2,
                  .inr rfl⟩
            | directory target =>
                obtain ⟨hrecursive, -⟩ := hopens target rfl
                obtain ⟨hdown, hlength, -⟩ :=
                  ih (find_of_passage? hfind hpassage) h
                refine ⟨.enter hstands hdown, ?_, .inl hrecursive⟩
                cases rest with
                | nil => cases hdown
                | cons next rest => exact hlength
  · rintro ⟨hdown, hlength, hdepth⟩
    induction hdown with
    | file hfile => simp [scanned?, passage?_of_stands_file hfile]
    | @enter opened directory target path name rest hdirectory hrest ih =>
        cases rest with
        | nil => cases hrest
        | cons next rest =>
            have hrecursive : recursive = true :=
              hdepth.resolve_right (by simp)
            subst hrecursive
            have hjoin : (path.join name.bytes).length ≤
                maxPathBytes :=
              Nat.le_trans (RawPath.length_le_descend _ _) hlength
            have hpassage :=
              passage?_of_stands_directory hfind hdirectory hjoin
            rw [scanned?, hpassage]
            exact ih (find_of_passage? hfind hpassage) hlength (.inl rfl)

end Tree

/-! ## Source paths -/

namespace Tree

/-- The source path of a file: the segments that lead from the root to a directory, and the
names that lead down from there. -/
def sourcePath (segments : List Text) (names : List Name) : Path :=
  List.intercalate ['/'] (segments ++ names.map Name.text)

/-- A source path has the segments before the directory and the names below it as its
segments. -/
theorem splitOn_sourcePath {segments : List Text}
    (h : ∀ segment ∈ segments, '/' ∉ segment) {names : List Name}
    (hne : names ≠ []) :
    (sourcePath segments names).splitOn '/' =
      segments ++ names.map Name.text := by
  apply List.splitOn_intercalate
  · intro segment hsegment
    rcases List.mem_append.mp hsegment with hbefore | hname
    · exact h segment hbefore
    · obtain ⟨name, -, rfl⟩ := List.mem_map.mp hname
      exact name.slash_not_mem_text
  · simp [hne]

/-- Below a directory text that lies below the root, a file is shown by its source path. -/
theorem relative?_descend {root directory : Path} {segments : List Text}
    (h : root.segmentsBelow? directory = some segments) (names : List Name) :
    root.raw.relative? ((root.join directory).raw.descend names) =
      some (sourcePath segments names) := by
  have hsegments : (segments.map Utf8.encode).map Utf8.decodeLossy =
      segments := by
    rw [List.map_map]
    exact List.map_id'' Utf8.decodeLossy_encode segments
  rw [RawPath.relative?, Path.below?_descend h, Option.map_some,
    List.map_append, hsegments, List.map_map]
  rfl

/-- Whether a source path has one name behind the segments that lead to the directory. -/
def AtDepthOne (segments : List Text) (path : Path) : Prop :=
  (path.splitOn '/').length = segments.length + 1

instance (segments : List Text) (path : Path) :
    Decidable (AtDepthOne segments path) :=
  inferInstanceAs (Decidable (_ = _))

theorem atDepthOne_sourcePath_iff {segments : List Text}
    (h : ∀ segment ∈ segments, '/' ∉ segment) {names : List Name}
    (hne : names ≠ []) :
    AtDepthOne segments (sourcePath segments names) ↔ names.length = 1 := by
  rw [AtDepthOne, splitOn_sourcePath h hne, List.length_append,
    List.length_map]
  omega

/-! ## Trees with Unicode names -/

/-- Every entry of the tree is named by a text. -/
def UnicodeNames (tree : Tree) : Prop :=
  ∀ name parent, (tree.lookup (name :: parent)).isSome → name.Unicode

/-- The names of a tree can be checked entry by entry. -/
theorem unicodeNames_of_entries {tree : Tree}
    (h : (tree.entries.all fun pair => pair.1.head?.all fun name =>
      Utf8.encode name.text == name.bytes) = true) :
    tree.UnicodeNames := by
  intro name parent hentry
  obtain ⟨entry, hentry⟩ := Option.isSome_iff_exists.mp hentry
  have hname := List.all_eq_true.mp h _ (mem_entries_of_lookup hentry)
  exact beq_iff_eq.mp hname

theorem Stands.isSome_lookup {tree : Tree} {opened : List Location}
    {directory : Location} {path : RawPath} {name : Name} {passage : Passage}
    (h : tree.Stands opened directory path name passage) :
    (tree.lookup (name :: directory)).isSome := by
  have hsome : ∃ entry, tree.lookup (name :: directory) = some entry := by
    cases h with
    | file hentry => exact ⟨_, hentry⟩
    | directory hentry => exact ⟨_, hentry⟩
    | linkedFile hentry _ => exact ⟨_, hentry⟩
    | linkedDirectory hentry _ _ => exact ⟨_, hentry⟩
  exact Option.isSome_iff_exists.mpr hsome

namespace LeadsDown

variable {tree : Tree} {opened : List Location} {start : Location}
variable {path : RawPath} {names : List Name}

theorem ne_nil (h : tree.LeadsDown opened start path names) : names ≠ [] := by
  cases h <;> exact List.cons_ne_nil _ _

/-- The names on a way down are names of entries. -/
theorem unicode (hunicode : tree.UnicodeNames)
    (h : tree.LeadsDown opened start path names) :
    ∀ name ∈ names, name.Unicode := by
  induction h with
  | file hfile =>
      rw [List.forall_mem_singleton]
      exact hunicode _ _ hfile.isSome_lookup
  | enter hdirectory _ ih =>
      rw [List.forall_mem_cons]
      exact ⟨hunicode _ _ hdirectory.isSome_lookup, ih⟩

end LeadsDown

/-! ## Collected files -/

/-- A path is the source path of a file that lies below a directory text, to which
segments lead from the root, and that bears the extension in its own name. -/
def Collects (tree : Tree) (root directory : Path) (segments : List Text)
    (extension : Text) (recursive : Bool) (path : Path) : Prop :=
  ∃ start names,
    tree.find (root.join directory) = .ok (.directory start) ∧
      tree.LeadsDown [start] start (root.join directory).raw names ∧
      ((root.join directory).raw.descend names.dropLast).length ≤
        maxPathBytes ∧
      hasExtension extension names = true ∧
      (recursive = true ∨ names.length = 1) ∧
      path = sourcePath segments names

/-- The paths come in the strict order of their bytes. -/
def Ascending (paths : List Path) : Prop :=
  paths.Pairwise fun path later => Utf8.encode path < Utf8.encode later

theorem Ascending.nodup {paths : List Path} (h : Ascending paths) :
    paths.Nodup := by
  refine List.Pairwise.imp ?_ h
  rintro path _ hlt rfl
  exact List.lt_irrefl _ hlt

/-- Paths in ascending order are determined by which paths they are. -/
theorem Ascending.eq_of_mem_iff {paths others : List Path}
    (h : Ascending paths) (h' : Ascending others)
    (hmem : ∀ path, path ∈ paths ↔ path ∈ others) : paths = others := by
  refine List.Perm.eq_of_pairwise ?_ h h'
    ((List.perm_ext_iff_of_nodup h.nodup h'.nodup).mpr hmem)
  intro path other _ _ hlt hlt'
  exact absurd hlt' (List.lt_asymm hlt)

theorem ascending_mergeSort {paths : List Path} (h : paths.Nodup) :
    Ascending (paths.mergeSort Text.le) := by
  have hsorted := List.pairwise_mergeSort Text.le_trans Text.le_total paths
  exact (hsorted.and (List.nodup_mergeSort.mpr h)).imp fun ⟨hle, hne⟩ =>
    Text.encode_lt_of_le hle hne

variable {tree : Tree} {root directory : Path} {segments : List Text}
variable {extension : Text} {recursive : Bool}

/-- What is collected below any directory text are the files to which names lead down
from it and whose paths begin with the root, each shown by the rest of its path. -/
theorem mem_collect_iff_leadsDown {path : Path} :
    path ∈ tree.collect root directory extension recursive ↔
      ∃ start names,
        tree.find (root.join directory) = .ok (.directory start) ∧
          tree.LeadsDown [start] start (root.join directory).raw names ∧
          ((root.join directory).raw.descend names.dropLast).length ≤
            maxPathBytes ∧
          hasExtension extension names = true ∧
          (recursive = true ∨ names.length = 1) ∧
          root.raw.relative? ((root.join directory).raw.descend names) =
            some path := by
  by_cases hfind : ∃ start,
      tree.findRaw (root.join directory).raw = .ok (.directory start)
  · obtain ⟨start, hfind⟩ := hfind
    rw [collect_of_findRaw hfind, List.mem_mergeSort, List.mem_filterMap]
    constructor
    · rintro ⟨names, hnames, hpath⟩
      obtain ⟨hscan, hcounts⟩ := List.mem_filter.mp hnames
      obtain ⟨hdown, hlength, hdepth⟩ :=
        (mem_scan_iff_leadsDown hfind).mp hscan
      exact ⟨start, names, hfind, hdown, hlength,
        (Bool.and_eq_true_iff.mp hcounts).1, hdepth, hpath⟩
    · rintro ⟨start', names, hfind', hdown, hlength, hextension, hdepth,
        hpath⟩
      obtain rfl : start' = start := by
        rw [find, hfind] at hfind'
        exact (Found.directory.inj (Except.ok.inj hfind')).symm
      refine ⟨names, List.mem_filter.mpr ⟨?_, ?_⟩, hpath⟩
      · exact (mem_scan_iff_leadsDown hfind).mpr ⟨hdown, hlength, hdepth⟩
      · rw [hextension, hpath]
        rfl
  · rw [collect_of_findRaw_ne (not_exists.mp hfind)]
    refine ⟨nofun, ?_⟩
    rintro ⟨start, _, hstart, -⟩
    exact absurd ⟨start, hstart⟩ hfind

theorem mem_collect_iff
    (hbelow : root.segmentsBelow? directory = some segments) {path : Path} :
    path ∈ tree.collect root directory extension recursive ↔
      tree.Collects root directory segments extension recursive path := by
  rw [mem_collect_iff_leadsDown, Collects]
  simp only [relative?_descend hbelow, Option.some_inj, eq_comm (a := path)]

/-- With Unicode names, what is collected below any directory text comes in the strict
order of the bytes. -/
theorem ascending_collect (hunicode : tree.UnicodeNames) :
    Ascending (tree.collect root directory extension recursive) := by
  by_cases hfind : ∃ start,
      tree.findRaw (root.join directory).raw = .ok (.directory start)
  · obtain ⟨start, hfind⟩ := hfind
    rw [collect_of_findRaw hfind]
    apply ascending_mergeSort
    have hnames : ∀ names ∈ tree.collectedNames root directory extension
        recursive start, ∀ name ∈ names, name.Unicode := fun names hnames =>
      ((mem_scan_iff_leadsDown hfind).mp
        (List.mem_filter.mp hnames).1).1.unicode hunicode
    rw [List.Nodup, List.pairwise_filterMap]
    refine (nodup_collectedNames ..).imp_of_mem ?_
    rintro names others hmem hmem' hne path hpath _ hpath' rfl
    exact hne (RawPath.descend_relative?_inj (hnames names hmem)
      (hnames others hmem') hpath hpath')
  · rw [collect_of_findRaw_ne (not_exists.mp hfind)]
    exact .nil

/-- What is collected without entering directories is what lies directly in the
directory. -/
theorem collects_false_iff (h : ∀ segment ∈ segments, '/' ∉ segment)
    {path : Path} :
    tree.Collects root directory segments extension false path ↔
      tree.Collects root directory segments extension true path ∧
        AtDepthOne segments path := by
  constructor
  · rintro ⟨start, names, hfind, hdown, hlength, hextension, hdepth, rfl⟩
    have hone : names.length = 1 := hdepth.resolve_left Bool.false_ne_true
    exact ⟨⟨start, names, hfind, hdown, hlength, hextension, .inl rfl, rfl⟩,
      (atDepthOne_sourcePath_iff h hdown.ne_nil).mpr hone⟩
  · rintro ⟨⟨start, names, hfind, hdown, hlength, hextension, -, rfl⟩, hone⟩
    exact ⟨start, names, hfind, hdown, hlength, hextension,
      .inr ((atDepthOne_sourcePath_iff h hdown.ne_nil).mp hone), rfl⟩

/-- The order in which the entries of a tree are listed is of no matter. -/
theorem collect_eq_of_lookup_eq {other : Tree}
    (hstart : other.start = tree.start)
    (hlookup : ∀ location, other.lookup location = tree.lookup location) :
    other.collect root directory extension recursive =
      tree.collect root directory extension recursive := by
  have hgrows : tree.Grows other := by
    refine ⟨hstart, fun location => ?_⟩
    rw [hlookup location]
    exact .same _
  exact hgrows.collect fun location _ => hlookup location

/-- What is collected below a directory text, relative or absolute, that lies below the
root comes in the strict order of the bytes, is exactly what names lead down to, and does
not depend on the order in which directories are listed.  Without entering directories,
it is the part at depth one. -/
theorem collect_exactly (tree : Tree) (hunicode : tree.UnicodeNames)
    {root directory : Path} {segments : List Text}
    (hbelow : root.segmentsBelow? directory = some segments)
    (extension : Text) :
    (∀ recursive,
      Ascending (tree.collect root directory extension recursive) ∧
        (∀ path,
          path ∈ tree.collect root directory extension recursive ↔
            tree.Collects root directory segments extension recursive
              path) ∧
        ∀ other : Tree, other.start = tree.start →
          (∀ location, other.lookup location = tree.lookup location) →
          other.collect root directory extension recursive =
            tree.collect root directory extension recursive) ∧
    tree.collect root directory extension false =
      (tree.collect root directory extension true).filter
        (AtDepthOne segments ·) := by
  constructor
  · intro recursive
    exact ⟨ascending_collect hunicode, fun path => mem_collect_iff hbelow,
      fun other => collect_eq_of_lookup_eq⟩
  · refine (ascending_collect hunicode).eq_of_mem_iff
      (List.Pairwise.filter _ (ascending_collect hunicode)) fun path => ?_
    rw [List.mem_filter, decide_eq_true_iff, mem_collect_iff hbelow,
      mem_collect_iff hbelow, collects_false_iff fun segment hsegment =>
        (Path.slash_not_mem_segmentsBelow hbelow hsegment).1]

/-- A tree in which `lib` holds a link to a file beside it, a link to the directory that
holds `lib`, and a link to nothing. -/
def tangled : Tree :=
  (((Tree.empty.putFile "main.cpp".toList []).putLink "lib/a.cpp".toList
    "../main.cpp".toList).putLink "lib/up".toList "..".toList).putLink
    "lib/lost.cpp".toList "nowhere".toList

/-- The names that lead through the link to the upper directory. -/
def tangledNames : List Name :=
  [⟨Utf8.encode "up".toList, by decide⟩, ⟨Utf8.encode "main.cpp".toList, by decide⟩]

/-- In the tangled tree the link to the upper directory is followed. -/
theorem leadsDown_tangled {path : RawPath}
    (hup : tangled.findRaw (path.join (Utf8.encode "up".toList)) =
      .ok (.directory Tree.empty.start)) :
    tangled.LeadsDown [libraryLocation] libraryLocation path tangledNames := by
  have hlink : tangled.lookup (⟨Utf8.encode "up".toList, by decide⟩ ::
      libraryLocation) = some (.link (Path.raw "..".toList)) := by decide +kernel
  have hfile : tangled.lookup (⟨Utf8.encode "main.cpp".toList, by decide⟩ ::
      Tree.empty.start) = some (.file []) := by decide +kernel
  exact .enter (.linkedDirectory hlink hup (by decide))
    (.file (.file hfile))

theorem collects_tangled :
    tangled.Collects ".".toList "lib//".toList ["lib".toList] ".cpp".toList true
      "lib/up/main.cpp".toList :=
  ⟨libraryLocation, tangledNames, by decide +kernel,
    leadsDown_tangled (by decide +kernel), by decide +kernel,
    by decide +kernel, .inl rfl, by decide +kernel⟩

/-- The same files are collected below an absolute text that begins with the root. -/
theorem collects_tangled_absolute :
    tangled.Collects "/start-directory".toList
      "/start-directory/./lib".toList ["lib".toList] ".cpp".toList true
      "lib/up/main.cpp".toList :=
  ⟨libraryLocation, tangledNames, by decide +kernel,
    leadsDown_tangled (by decide +kernel), by decide +kernel,
    by decide +kernel, .inl rfl, by decide +kernel⟩

theorem unicodeNames_tangled : tangled.UnicodeNames :=
  unicodeNames_of_entries (by decide +kernel)

/-- The file behind the link is collected where directories are entered, and not where
they are passed over, whether the directory text is relative or absolute. -/
theorem collect_exactly_tangled :
    tangled.UnicodeNames ∧
      Path.segmentsBelow? ".".toList "lib//".toList = some ["lib".toList] ∧
      Ascending (tangled.collect ".".toList "lib//".toList ".cpp".toList
        true) ∧
      "lib/up/main.cpp".toList ∈
        tangled.collect ".".toList "lib//".toList ".cpp".toList true ∧
      "lib/up/main.cpp".toList ∉
        tangled.collect ".".toList "lib//".toList ".cpp".toList false ∧
      "lib/up/main.cpp".toList ∈
        tangled.collect "/start-directory".toList
          "/start-directory/./lib".toList ".cpp".toList true := by
  have hbelow : Path.segmentsBelow? ".".toList "lib//".toList =
      some ["lib".toList] := by decide
  have habsolute : Path.segmentsBelow? "/start-directory".toList
      "/start-directory/./lib".toList = some ["lib".toList] := by decide
  obtain ⟨hall, hflat⟩ :=
    collect_exactly tangled unicodeNames_tangled hbelow ".cpp".toList
  obtain ⟨hascending, hmem, -⟩ := hall true
  obtain ⟨-, hmem', -⟩ := (collect_exactly tangled unicodeNames_tangled
    habsolute ".cpp".toList).1 true
  refine ⟨unicodeNames_tangled, hbelow, hascending,
    (hmem _).mpr collects_tangled, ?_,
    (hmem' _).mpr collects_tangled_absolute⟩
  rw [hflat, List.mem_filter]
  intro h
  exact absurd h.2 (by decide)

end Tree
end HeaderMake
