import HeaderMake.Proofs.Text.Order
import HeaderMake.Proofs.Tree.Growth
import HeaderMake.Proofs.Tree.Joining
import HeaderMake.Tree.Scan
import Mathlib.Data.List.Nodup
import Mathlib.Data.List.Perm.Basic

/-!
# Scans of trees that grow

A scan goes through a directory name by name.  `Tree.passage?` says what it finds under
one name, and `Tree.scanned?` follows a list of names and tells where the file stands to
which they lead.  A scan lists exactly the names that lead somewhere
(`Tree.mem_scan_iff`), each list once (`Tree.nodup_scan`).

When regular files are created or overwritten, every list of names still leads to the
same file, and names that have led nowhere can only lead to a file that has been written
(`Tree.Grows.scanned?`).
-/

namespace HeaderMake

/-- What a scan finds under one name: a file to list, or a directory to enter. -/
inductive Passage
  | file (location : Location)
  | directory (location : Location)
  deriving DecidableEq

namespace Tree

/-- What a scan finds under one name of the directory in which it stands. -/
def passage? (tree : Tree) (recursive : Bool) (opened : List Location)
    (directory : Location) (path : RawPath) (name : Name) : Option Passage :=
  match tree.lookup (name :: directory) with
  | none => none
  | some (.file _) => some (.file (name :: directory))
  | some .directory =>
    if recursive && (tree.findRaw (path.join name.bytes)).isOk then
      some (.directory (name :: directory))
    else none
  | some (.link _) =>
    match tree.findRaw (path.join name.bytes) with
    | .error _ => none
    | .ok (.file location _) => some (.file location)
    | .ok (.directory target) =>
      if recursive && !opened.contains target then some (.directory target)
      else none

/-- The location of the file to which names lead on a scan, if they lead to one. -/
def scanned? (tree : Tree) (recursive : Bool) (opened : List Location)
    (directory : Location) (path : RawPath) : List Name → Option Location
  | [] => none
  | name :: rest =>
    match tree.passage? recursive opened directory path name with
    | none => none
    | some (.file location) => if rest = [] then some location else none
    | some (.directory target) =>
      tree.scanned? recursive (target :: opened) target (path.join name.bytes)
        rest

/-! ## What a scan lists -/

section Listing

variable {tree : Tree} {recursive : Bool} {opened : List Location}
variable {directory : Location} {path : RawPath}

/-- What a scan lists below a passage. -/
def scanBelow (tree : Tree) (recursive : Bool) (opened : List Location)
    (path : RawPath) : Option Passage → List (List Name)
  | none => []
  | some (.file _) => [[]]
  | some (.directory target) =>
    tree.scan recursive (target :: opened) target path

theorem scan_eq_flatMap :
    tree.scan recursive opened directory path =
      (tree.names directory).flatMap fun name =>
        (tree.scanBelow recursive opened (path.join name.bytes)
          (tree.passage? recursive opened directory path name)).map
          (name :: ·) := by
  rw [scan]
  congr 1
  funext name
  unfold passage?
  split
  · next hentry => simp only [hentry]; rfl
  · next content hentry => simp only [hentry]; rfl
  · next hentry =>
    simp only [hentry]
    split <;> rfl
  · next target hentry =>
    simp only [hentry]
    split
    · next hfind => simp only [hfind]; rfl
    · next hfind => simp only [hfind]; rfl
    · next target hfind =>
      simp only [hfind]
      by_cases hopen : recursive = true ∧ target ∉ opened
      · rw [dif_pos hopen, if_pos (by simpa using hopen)]
        rfl
      · rw [dif_neg hopen, if_neg (by simpa using hopen)]
        rfl

theorem isSome_lookup_of_passage? {name : Name} {passage : Passage}
    (h : tree.passage? recursive opened directory path name = some passage) :
    (tree.lookup (name :: directory)).isSome := by
  unfold passage? at h
  cases hentry : tree.lookup (name :: directory) with
  | none =>
      rw [hentry] at h
      cases h
  | some entry => rfl

theorem mem_scan_cons_iff {name : Name} {rest : List Name} :
    name :: rest ∈ tree.scan recursive opened directory path ↔
      rest ∈ tree.scanBelow recursive opened (path.join name.bytes)
        (tree.passage? recursive opened directory path name) := by
  rw [scan_eq_flatMap, List.mem_flatMap]
  constructor
  · rintro ⟨first, -, hfirst⟩
    obtain ⟨others, hothers, heq⟩ := List.mem_map.mp hfirst
    obtain ⟨rfl, rfl⟩ := List.cons.inj heq
    exact hothers
  · intro h
    refine ⟨name, ?_, List.mem_map_of_mem h⟩
    cases hpassage :
        tree.passage? recursive opened directory path name with
    | none =>
        rw [hpassage] at h
        cases h
    | some passage =>
        exact mem_names_iff.mpr (isSome_lookup_of_passage? hpassage)

theorem nil_not_mem_scan :
    [] ∉ tree.scan recursive opened directory path := by
  rw [scan_eq_flatMap]
  simp

/-- A scan lists exactly the names that lead to a file. -/
theorem mem_scan_iff {names : List Name} :
    names ∈ tree.scan recursive opened directory path ↔
      (tree.scanned? recursive opened directory path names).isSome := by
  induction names generalizing opened directory path with
  | nil => simp [nil_not_mem_scan, scanned?]
  | cons name rest ih =>
      rw [mem_scan_cons_iff, scanned?]
      cases tree.passage? recursive opened directory path name with
      | none => simp [scanBelow]
      | some passage =>
          cases passage with
          | file location => simp [scanBelow]
          | directory target => exact ih

end Listing

/-! ## No file twice -/

theorem nodup_eraseDups {α : Type} [BEq α] [LawfulBEq α] (xs : List α) :
    xs.eraseDups.Nodup := by
  induction hlength : xs.length using Nat.strongRecOn generalizing xs with
  | ind length ih =>
      cases xs with
      | nil => simp
      | cons x xs =>
          have hle := List.length_filter_le (fun y => !y == x) xs
          rw [List.eraseDups_cons, List.nodup_cons]
          constructor
          · simp
          · refine ih _ ?_ _ rfl
            rw [← hlength, List.length_cons]
            omega

theorem nodup_names (tree : Tree) (directory : Location) :
    (tree.names directory).Nodup :=
  nodup_eraseDups _

/-- A scan enters a directory through its own entry or, if it is not open yet, through a
link. -/
theorem directory_of_passage? {tree : Tree} {recursive : Bool}
    {opened : List Location} {directory target : Location} {path : RawPath}
    {name : Name}
    (h : tree.passage? recursive opened directory path name =
      some (.directory target)) :
    tree.lookup (name :: directory) = some .directory ∧
        (tree.findRaw (path.join name.bytes)).isOk = true ∧
        target = name :: directory ∨
      tree.findRaw (path.join name.bytes) = .ok (.directory target) ∧
        recursive = true ∧ target ∉ opened := by
  unfold passage? at h
  split at h
  · cases h
  · cases h
  · next hentry =>
    split at h
    · next henter =>
      cases h
      exact .inl ⟨hentry, (Bool.and_eq_true_iff.mp henter).2, rfl⟩
    · cases h
  · split at h
    · cases h
    · cases h
    · next hfind =>
      split at h
      · next hopen =>
        cases h
        exact .inr ⟨hfind, by simpa using hopen⟩
      · cases h

/-- A scan lists each list of names once. -/
theorem nodup_scan (tree : Tree) (recursive : Bool) (opened : List Location)
    (directory : Location) (path : RawPath) :
    (tree.scan recursive opened directory path).Nodup := by
  induction opened, directory, path using scan.induct tree recursive with
  | case1 opened directory path hentry hlink =>
      rw [scan_eq_flatMap, List.nodup_flatMap]
      constructor
      · intro name _
        apply List.Nodup.map (List.cons_injective)
        cases hpassage :
            tree.passage? recursive opened directory path name with
        | none => exact List.nodup_nil
        | some passage =>
            cases passage with
            | file location => exact List.nodup_singleton []
            | directory target =>
                rcases directory_of_passage? hpassage with
                  ⟨hdirectory, -, rfl⟩ | ⟨hfind, hopen⟩
                · exact hentry name hdirectory
                · exact hlink name target hfind hopen
      · -- Lists found under different names begin with different names.
        refine (nodup_names tree directory).imp ?_
        intro name other hne names hnames hothers
        obtain ⟨_, -, rfl⟩ := List.mem_map.mp hnames
        obtain ⟨_, -, heq⟩ := List.mem_map.mp hothers
        exact hne (List.cons.inj heq).1.symm

end Tree

/-! ## Growing trees -/

namespace Tree

/-- The path of a directory that a scan enters leads to that directory. -/
theorem find_of_passage? {tree : Tree} {recursive : Bool}
    {opened : List Location} {directory target : Location} {path : RawPath}
    {name : Name} (hfind : tree.findRaw path = .ok (.directory directory))
    (h : tree.passage? recursive opened directory path name =
      some (.directory target)) :
    tree.findRaw (path.join name.bytes) = .ok (.directory target) := by
  rcases directory_of_passage? h with ⟨hentry, hexists, rfl⟩ | ⟨hlink, -⟩
  · have hjoin := find_join_directory hfind hentry
    rw [hjoin] at hexists
    rw [hjoin]
    cases hcheck : checkPath (path.join name.bytes) with
    | error cause =>
        rw [hcheck] at hexists
        cases hexists
    | ok _ => rfl
  · exact hlink

end Tree

namespace Tree.Grows

variable {before after : Tree} {recursive : Bool} {opened : List Location}
variable {directory : Location} {path : RawPath}

/-- What a scan finds under a name stays the same, or it is a file that has been written,
where nothing was found. -/
theorem passage? (h : before.Grows after)
    (hfind : before.findRaw path = .ok (.directory directory)) (name : Name) :
    after.passage? recursive opened directory path name =
        before.passage? recursive opened directory path name ∨
      before.passage? recursive opened directory path name = none ∧
        ∃ location,
          after.passage? recursive opened directory path name =
            some (.file location) ∧
          after.lookup location ≠ before.lookup location := by
  unfold Tree.passage?
  cases hentry : before.lookup (name :: directory) with
  | none =>
      rcases h.lookup_none hentry with hafter | ⟨content, hafter⟩
      · rw [hafter]
        exact .inl rfl
      · have hne : after.lookup (name :: directory) ≠
            before.lookup (name :: directory) := by
          rw [hafter, hentry]
          exact nofun
        rw [hafter]
        exact .inr ⟨rfl, _, rfl, hne⟩
  | some entry =>
      cases entry with
      | file old =>
          obtain ⟨new, hafter⟩ := h.lookup_file hentry
          rw [hafter]
          exact .inl rfl
      | directory =>
          have hafter := h.lookup_directory hentry
          have hexists : (after.findRaw (path.join name.bytes)).isOk =
              (before.findRaw (path.join name.bytes)).isOk := by
            have hafterFind := h.findRaw_directory_iff.mpr hfind
            rw [Tree.find_join_directory hfind hentry,
              Tree.find_join_directory hafterFind hafter]
          rw [hafter]
          simp only [hexists]
          exact .inl trivial
      | link target =>
          rw [h.lookup_link hentry]
          have hgrows := h.findRaw (path.join name.bytes)
          simp only
          generalize before.findRaw (path.join name.bytes) = found at hgrows ⊢
          generalize after.findRaw (path.join name.bytes) = found' at hgrows ⊢
          cases hgrows with
          | directory => exact .inl rfl
          | file => exact .inl rfl
          | failed => exact .inl rfl
          | created _ location content hnone hfile =>
              refine .inr ⟨rfl, location, rfl, ?_⟩
              rw [hnone, hfile]
              exact nofun

/-- Names lead to the same file on a scan, or they led to none and lead to one that has
been written. -/
theorem scanned? (h : before.Grows after)
    (hfind : before.findRaw path = .ok (.directory directory))
    (names : List Name) :
    after.scanned? recursive opened directory path names =
        before.scanned? recursive opened directory path names ∨
      before.scanned? recursive opened directory path names = none ∧
        ∃ location,
          after.scanned? recursive opened directory path names =
            some location ∧
          after.lookup location ≠ before.lookup location := by
  induction names generalizing opened directory path with
  | nil => exact .inl rfl
  | cons name rest ih =>
      rw [Tree.scanned?, Tree.scanned?]
      rcases h.passage? hfind name with
        hsame | ⟨hnone, location, hfile, hwritten⟩
      · rw [hsame]
        cases hpassage :
            before.passage? recursive opened directory path name with
        | none => exact .inl rfl
        | some passage =>
            cases passage with
            | file location => exact .inl rfl
            | directory target =>
                exact ih (Tree.find_of_passage? hfind hpassage)
      · rw [hnone, hfile]
        by_cases hrest : rest = []
        · simp only [hrest, if_true]
          exact .inr ⟨trivial, location, rfl, hwritten⟩
        · simp only [hrest, if_false]
          exact .inl trivial

end Tree.Grows

/-! ## Collected files -/

namespace Tree

/-- Whether a file with these names counts for a source extension. -/
def hasExtension (extension : Text) (names : List Name) : Bool :=
  names.getLast?.any fun name => Text.contains extension name.text

/-- The names of the files that are collected by a scan that begins in a directory. -/
def collectedNames (tree : Tree) (root directory : Path) (extension : Text)
    (recursive : Bool) (start : Location) : List (List Name) :=
  (tree.scan recursive [start] start (root.join directory).raw).filter
    fun names => hasExtension extension names &&
      (root.raw.relative? ((root.join directory).raw.descend names)).isSome

/-- The locations of the files that are collected below a directory text. -/
def collectedLocations (tree : Tree) (root directory : Path) (extension : Text)
    (recursive : Bool) : List Location :=
  match tree.findRaw (root.join directory).raw with
  | .ok (.directory start) =>
    (tree.collectedNames root directory extension recursive start).filterMap
      (tree.scanned? recursive [start] start (root.join directory).raw)
  | _ => []

theorem filterMap_filter_isSome {α β : Type} (f : α → Option β) (p : α → Bool)
    (xs : List α) :
    (xs.filter fun x => p x && (f x).isSome).filterMap f =
      (xs.filter p).filterMap f := by
  rw [List.filterMap_filter, List.filterMap_filter]
  congr 1
  funext x
  cases p x <;> cases h : f x <;> simp

variable {tree : Tree} {root directory : Path} {extension : Text}
variable {recursive : Bool}

/-- What is collected are the paths of the files that are found, sorted. -/
theorem collect_of_findRaw {start : Location}
    (hfind : tree.findRaw (root.join directory).raw =
      .ok (.directory start)) :
    tree.collect root directory extension recursive =
      ((tree.collectedNames root directory extension recursive start).filterMap
        fun names => root.raw.relative?
          ((root.join directory).raw.descend names)).mergeSort Text.le := by
  rw [collectedNames, filterMap_filter_isSome]
  simp only [collect, hfind]
  rfl

/-- What is collected are the paths that are found once they are put in order. -/
theorem collect_eq_of_perm {start : Location} {paths : List Path}
    (hfind : tree.findRaw (root.join directory).raw =
      .ok (.directory start))
    (hfound : ((tree.collectedNames root directory extension recursive
      start).filterMap fun names => root.raw.relative?
        ((root.join directory).raw.descend names)).Perm paths)
    (hsorted : paths.Pairwise (Text.le · ·)) :
    tree.collect root directory extension recursive = paths := by
  rw [collect_of_findRaw hfind, Text.mergeSort_eq_of_perm hfound]
  exact List.mergeSort_of_pairwise hsorted

theorem collect_of_findRaw_ne
    (hfind : ∀ start, tree.findRaw (root.join directory).raw ≠
      .ok (.directory start)) :
    tree.collect root directory extension recursive = [] := by
  rw [collect]
  split
  · next start heq => exact absurd heq (hfind start)
  · rfl

theorem nodup_collectedNames (tree : Tree) (root directory : Path)
    (extension : Text) (recursive : Bool) (start : Location) :
    (tree.collectedNames root directory extension recursive start).Nodup :=
  (tree.nodup_scan recursive [start] start _).filter _

/-- The same names are listed before and after, unless they lead to a file that has been
written. -/
theorem Grows.mem_scan_iff {before after : Tree} (h : before.Grows after)
    {opened : List Location} {directory : Location}
    {path : RawPath} {names : List Name}
    (hfind : before.findRaw path = .ok (.directory directory))
    (hold : ∀ location,
      after.scanned? recursive opened directory path names = some location →
      after.lookup location = before.lookup location) :
    names ∈ after.scan recursive opened directory path ↔
      names ∈ before.scan recursive opened directory path := by
  rw [Tree.mem_scan_iff, Tree.mem_scan_iff]
  rcases h.scanned? hfind names with hsame | ⟨-, location, hlocation, hwritten⟩
  · rw [hsame]
  · exact absurd (hold location hlocation) hwritten

/-- The same files are collected before and after if none of those collected after has
been written. -/
theorem Grows.collect {before after : Tree} (h : before.Grows after)
    (hold : ∀ location ∈
        after.collectedLocations root directory extension recursive,
      after.lookup location = before.lookup location) :
    after.collect root directory extension recursive =
      before.collect root directory extension recursive := by
  by_cases hfind : ∃ start, before.findRaw (root.join directory).raw =
      .ok (.directory start)
  · obtain ⟨start, hbefore⟩ := hfind
    have hafter := h.findRaw_directory_iff.mpr hbefore
    simp only [collectedLocations, hafter] at hold
    rw [collect_of_findRaw hafter, collect_of_findRaw hbefore]
    apply Text.mergeSort_eq_of_perm
    apply List.Perm.filterMap
    refine (List.perm_ext_iff_of_nodup (nodup_collectedNames ..)
      (nodup_collectedNames ..)).mpr fun names => ?_
    rw [collectedNames, collectedNames, List.mem_filter, List.mem_filter]
    apply and_congr_left
    intro hcounts
    apply h.mem_scan_iff hbefore
    intro location hlocation
    have hmem : names ∈ after.scan recursive [start] start
        (root.join directory).raw := by
      rw [Tree.mem_scan_iff, hlocation, Option.isSome_some]
    apply hold
    exact List.mem_filterMap.mpr
      ⟨names, List.mem_filter.mpr ⟨hmem, hcounts⟩, hlocation⟩
  · have hnot := not_exists.mp hfind
    rw [collect_of_findRaw_ne hnot, collect_of_findRaw_ne fun start =>
      mt h.findRaw_directory_iff.mp (hnot start)]

/-- The location of `lib` in the start directory. -/
def libraryLocation : Location :=
  ⟨Utf8.encode "lib".toList, by decide⟩ :: Tree.empty.start

end Tree
end HeaderMake
