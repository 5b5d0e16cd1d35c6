import HeaderMake.Proofs.Text.Segments
import HeaderMake.Proofs.Tree.Joining
import Mathlib.Data.List.Dedup

/-!
# Trees without links

Where no link stands, the text of a path says where the path leads: each name goes down,
each `..` goes up, and empty and `.` segments stay (`Tree.find_eq_file`).  Two texts that
lead to a file therefore lead to the same file exactly if they spell the same place.

A text in plain form, without empty, `.` and `..` segments, is the only plain spelling of
its place (`Path.Plain.eq_of_foldl_follow`).
-/

namespace HeaderMake

/-- The place that one step leads to from a directory, as far as the text says. -/
def Step.follow (directory : Location) : Step → Location
  | .here => directory
  | .parent => directory.tail
  | .name entry => entry :: directory
  | .overlong => directory

/-- Steps that go up nowhere put the same names on every directory. -/
theorem Step.exists_names_foldl_follow {steps : List Step}
    (h : .parent ∉ steps) :
    ∃ names : List Name, ∀ directory,
      steps.foldl follow directory = names ++ directory := by
  induction steps with
  | nil => exact ⟨[], fun _ => rfl⟩
  | cons step rest ih =>
      rw [List.mem_cons, not_or] at h
      obtain ⟨names, hnames⟩ := ih h.2
      cases step with
      | parent => exact absurd rfl h.1
      | here => exact ⟨names, hnames⟩
      | overlong => exact ⟨names, hnames⟩
      | name entry =>
          refine ⟨names ++ [entry], fun directory => ?_⟩
          rw [List.foldl_cons, hnames, List.append_assoc]
          rfl

/-- Empty and `.` segments lead nowhere else. -/
theorem Step.foldl_follow_filter_here (steps : List Step)
    (directory : Location) :
    (steps.filter (· ≠ .here)).foldl follow directory =
      steps.foldl follow directory := by
  induction steps generalizing directory with
  | nil => rfl
  | cons step rest ih =>
      by_cases hstep : step = .here
      · rw [hstep, List.filter_cons_of_neg (by simp), ih]
        rfl
      · rw [List.filter_cons_of_pos (by simpa using hstep), List.foldl_cons,
          List.foldl_cons, ih]

/-- Whether an entry is a link. -/
def Entry.isLink : Entry → Bool
  | .link _ => true
  | _ => false

namespace Tree

/-- The place that a path spells. -/
def spelled (tree : Tree) (path : Path) : Location :=
  path.steps.foldl Step.follow (origin tree.start path.raw)

/-- No link stands anywhere in the tree. -/
def Linkless (tree : Tree) : Prop :=
  ∀ location target, tree.lookup location ≠ some (.link target)

/-- The bytes of the file at a location, if a file stands there. -/
def contentAt? (tree : Tree) (location : Location) : Option Bytes :=
  match tree.lookup location with
  | some (.file content) => some content
  | _ => none

/-- The locations of the files of the tree, each once. -/
def fileLocations (tree : Tree) : List Location :=
  (tree.entries.map Prod.fst).dedup.filter fun location =>
    (tree.contentAt? location).isSome

variable {tree : Tree}

theorem contentAt?_eq_some_iff {location : Location} {content : Bytes} :
    tree.contentAt? location = some content ↔
      tree.lookup location = some (.file content) := by
  unfold contentAt?
  split
  · next other hlookup => simp [hlookup]
  · next hlookup =>
    refine ⟨nofun, ?_⟩
    intro hfile
    exact absurd hfile (hlookup content)

theorem mem_fileLocations {location : Location} {content : Bytes}
    (h : tree.lookup location = some (.file content)) :
    location ∈ tree.fileLocations := by
  rw [fileLocations, List.mem_filter, List.mem_dedup]
  refine ⟨?_, by rw [contentAt?_eq_some_iff.mpr h, Option.isSome_some]⟩
  cases location with
  | nil => cases h
  | cons name parent =>
      exact List.mem_map_of_mem (mem_entries_of_lookup h)

/-- A tree is without links if its table holds none. -/
theorem linkless_of_entries
    (h : tree.entries.all (fun pair => !pair.2.isLink) = true) :
    tree.Linkless := by
  intro location target hlookup
  cases location with
  | nil => cases hlookup
  | cons name parent =>
      have hentry := List.all_eq_true.mp h _ (mem_entries_of_lookup hlookup)
      cases hentry

/-! ## Lookups without links -/

/-- A walk that ends at a file has gone where its steps lead. -/
theorem walk_eq_file (hlinkless : tree.Linkless) {links : Nat}
    {directory location : Location} {steps : List Step} {content : Bytes}
    (h : tree.walk links directory steps = .ok (.file location content)) :
    steps.foldl Step.follow directory = location ∧
      tree.lookup location = some (.file content) := by
  fun_induction Tree.walk tree links directory steps with
  | case1 => cases h
  | case2 _ _ _ ih => exact ih h
  | case3 _ _ _ ih => exact ih h
  | case4 => cases h
  | case5 => cases h
  | case6 _ _ _ _ _ ih => exact ih h
  | case7 _ _ _ _ _ hlookup hlast =>
      cases h
      rw [List.isEmpty_iff.mp hlast]
      exact ⟨rfl, hlookup⟩
  | case8 => cases h
  | case9 => cases h
  | case10 _ _ _ target hlookup => exact absurd hlookup (hlinkless _ target)

/-- A step too long to be a name ends every walk. -/
theorem overlong_not_mem_of_walk {links : Nat} {directory : Location}
    {steps : List Step} {found : Found}
    (h : tree.walk links directory steps = .ok found) : .overlong ∉ steps := by
  fun_induction Tree.walk tree links directory steps with
  | case1 => exact List.not_mem_nil
  | case2 _ _ _ ih => simpa using ih h
  | case3 _ _ _ ih => simpa using ih h
  | case4 => cases h
  | case5 => cases h
  | case6 _ _ _ _ _ ih => simpa using ih h
  | case7 _ _ _ _ _ _ hlast =>
      rw [List.isEmpty_iff.mp hlast]
      simp
  | case8 => cases h
  | case9 => cases h
  | case10 _ _ _ _ _ _ ih =>
      have hrest := ih h
      rw [List.mem_append, not_or] at hrest
      simpa using hrest.2

/-- A path that leads to a file leads to the place that it spells. -/
theorem find_eq_file (hlinkless : tree.Linkless) {path : Path}
    {location : Location} {content : Bytes}
    (h : tree.find path = .ok (.file location content)) :
    tree.spelled path = location ∧
      tree.lookup location = some (.file content) :=
  walk_eq_file hlinkless (walk_of_findRaw h)

/-- A walk that ends in a directory has gone where its steps lead. -/
theorem walk_eq_directory (hlinkless : tree.Linkless) {links : Nat}
    {directory target : Location} {steps : List Step}
    (h : tree.walk links directory steps = .ok (.directory target)) :
    steps.foldl Step.follow directory = target := by
  fun_induction Tree.walk tree links directory steps with
  | case1 => exact Found.directory.inj (Except.ok.inj h)
  | case2 _ _ _ ih => exact ih h
  | case3 _ _ _ ih => exact ih h
  | case4 => cases h
  | case5 => cases h
  | case6 _ _ _ _ _ ih => exact ih h
  | case7 => cases h
  | case8 => cases h
  | case9 => cases h
  | case10 _ _ _ target hlookup => exact absurd hlookup (hlinkless _ target)

/-- How many links may be followed makes no difference. -/
theorem walk_links (hlinkless : tree.Linkless) (links links' : Nat)
    (directory : Location) (steps : List Step) :
    tree.walk links directory steps = tree.walk links' directory steps := by
  fun_induction Tree.walk tree links directory steps with
  | case1 => rw [walk]
  | case2 _ _ _ ih => rw [walk, ih]
  | case3 _ _ _ ih => rw [walk, ih]
  | case4 => rw [walk]
  | case5 _ _ _ _ hentry => rw [walk, hentry]
  | case6 _ _ _ _ hentry ih => rw [walk, hentry, ih]
  | case7 _ _ _ _ _ hentry hlast => rw [walk, hentry]; simp [hlast]
  | case8 _ _ _ _ _ hentry hlast => rw [walk, hentry]; simp [hlast]
  | case9 _ _ _ target hlookup => exact absurd hlookup (hlinkless _ target)
  | case10 _ _ _ target hlookup => exact absurd hlookup (hlinkless _ target)

/-- Steps that lead to a directory can be followed by any others. -/
theorem walk_append_of_directory (hlinkless : tree.Linkless) {links : Nat}
    {directory target : Location} {steps : List Step}
    (h : tree.walk links directory steps = .ok (.directory target))
    (more : List Step) :
    tree.walk links directory (steps ++ more) =
      tree.walk links target more := by
  obtain ⟨left, hleft⟩ := walk_append h
  rw [hleft, walk_links hlinkless left links]

/-- On the way to a file all steps but the last lead through directories. -/
theorem walk_of_append_eq_file (hlinkless : tree.Linkless) {links : Nat}
    {directory location : Location} {steps more : List Step}
    {content : Bytes} (hmore : more ≠ [])
    (h : tree.walk links directory (steps ++ more) =
      .ok (.file location content)) :
    tree.walk links directory steps =
      .ok (.directory (steps.foldl Step.follow directory)) := by
  fun_induction Tree.walk tree links directory steps with
  | case1 => rfl
  | case2 _ _ _ ih =>
      rw [List.cons_append, walk] at h
      exact ih h
  | case3 _ _ _ ih =>
      rw [List.cons_append, walk] at h
      exact ih h
  | case4 =>
      rw [List.cons_append, walk] at h
      cases h
  | case5 _ _ _ _ hentry =>
      rw [List.cons_append, walk, hentry] at h
      cases h
  | case6 _ _ _ _ hentry ih =>
      rw [List.cons_append, walk, hentry] at h
      exact ih h
  | case7 _ _ _ _ _ hentry =>
      rw [List.cons_append, walk, hentry] at h
      simp [hmore] at h
  | case8 _ _ _ _ _ hentry =>
      rw [List.cons_append, walk, hentry] at h
      simp [hmore] at h
  | case9 _ _ _ target hlookup => exact absurd hlookup (hlinkless _ target)
  | case10 _ _ _ target hlookup => exact absurd hlookup (hlinkless _ target)

end Tree

/-! ## Relative paths -/

namespace Path

/-- A relative path spells its place from the place of the directory that it is taken
from. -/
theorem spelled_join_of_relative (tree : Tree) (root : Path) {path : Path}
    (h : path.isAbsolute = false) :
    tree.spelled (root.join path) =
      path.steps.foldl Step.follow (tree.spelled root) := by
  obtain ⟨steps, hroot, hsteps⟩ := root.exists_steps_join_of_relative
  have hspelled : tree.spelled root =
      steps.foldl Step.follow (Tree.origin tree.start root.raw) := by
    rcases hroot with heq | heq
    · rw [Tree.spelled, heq]
    · rw [Tree.spelled, heq, List.foldl_append]
      rfl
  rw [hspelled, Tree.spelled, hsteps path h, List.foldl_append,
    Tree.origin_raw, root.isAbsolute_join_of_relative h, Tree.origin_raw]

/-! ## Plain paths -/

/-- The path is written without empty, `.` and `..` segments. -/
def Plain (path : Path) : Prop :=
  ∀ segment ∈ path.splitOn '/',
    segment ≠ [] ∧ segment ≠ ['.'] ∧ segment ≠ ['.', '.']

instance (path : Path) : Decidable path.Plain :=
  inferInstanceAs (Decidable (∀ _ ∈ _, _))

/-- Two texts with a slash between them are plain together. -/
theorem plain_append_slash_iff {start rest : Path} :
    Plain (start ++ '/' :: rest) ↔ Plain start ∧ Plain rest := by
  unfold Plain
  rw [List.splitOn_append_cons_self]
  exact List.forall_mem_append

namespace Plain

variable {path other : Path}

theorem isAbsolute_eq_false (h : path.Plain) : path.isAbsolute = false :=
  isAbsolute_eq_false_of_splitOn fun hempty => (h [] hempty).1 rfl

/-- The segments of a plain path that can be looked up are names. -/
theorem exists_names (h : path.Plain) (hsteps : .overlong ∉ path.steps) :
    ∃ names : List Name, (path.splitOn '/').map Utf8.encode =
      names.map Name.bytes := by
  unfold Plain at h
  rw [Path.steps_eq_map] at hsteps
  generalize path.splitOn '/' = segments at h hsteps ⊢
  induction segments with
  | nil => exact ⟨[], rfl⟩
  | cons segment segments ih =>
      obtain ⟨⟨hne, hdot, hdots⟩, hrest⟩ := List.forall_mem_cons.mp h
      rw [List.map_cons, List.mem_cons, not_or] at hsteps
      obtain ⟨names, hnames⟩ := ih hrest hsteps.2
      have hvalid : Name.Valid (Utf8.encode segment) := by
        by_contra hnot
        apply hsteps.1
        rw [Function.comp_apply, Step.ofSegment_encode,
          if_neg (by simp [hne, hdot]), if_neg hdots, dif_neg hnot]
      exact ⟨⟨Utf8.encode segment, hvalid⟩ :: names, by
        rw [List.map_cons, hnames, List.map_cons]⟩

theorem steps_eq_of_names {names : List Name}
    (h : (path.splitOn '/').map Utf8.encode = names.map Name.bytes) :
    path.steps = names.map Step.name := by
  rw [Path.steps_eq_map, ← List.map_map, h, List.map_map]
  exact List.map_congr_left fun name _ => Step.ofSegment_bytes name

theorem foldl_follow_names (names : List Name) (directory : Location) :
    (names.map Step.name).foldl Step.follow directory =
      names.reverse ++ directory := by
  induction names generalizing directory with
  | nil => rfl
  | cons name names ih =>
      rw [List.map_cons, List.foldl_cons, ih, List.reverse_cons,
        List.append_assoc]
      rfl

/-- Plain paths that can be looked up are told apart by the places that they spell. -/
theorem eq_of_foldl_follow (h : path.Plain) (hother : other.Plain)
    (hsteps : .overlong ∉ path.steps) (hothers : .overlong ∉ other.steps)
    {directory : Location}
    (heq : path.steps.foldl Step.follow directory =
      other.steps.foldl Step.follow directory) : path = other := by
  obtain ⟨names, hnames⟩ := h.exists_names hsteps
  obtain ⟨names', hnames'⟩ := hother.exists_names hothers
  rw [steps_eq_of_names hnames, steps_eq_of_names hnames',
    foldl_follow_names, foldl_follow_names] at heq
  have hreverse := List.append_cancel_right heq
  rw [List.reverse_inj.mp hreverse, ← hnames'] at hnames
  calc
    path = List.intercalate ['/'] (path.splitOn '/') :=
      (List.intercalate_splitOn '/').symm
    _ = List.intercalate ['/'] (other.splitOn '/') := by
      rw [List.map_injective_iff.mpr Utf8.encode_injective hnames]
    _ = other := List.intercalate_splitOn '/'

end Plain
end Path
end HeaderMake
