import HeaderMake.Tree.RawPath

/-!
# File trees

A `Tree` holds everything that a run can see of a file system: regular files with their
bytes, symbolic links with their target path, and directories.  It is a finite table
from locations to entries.  A location is the list of names that leads to an entry,
innermost first, so the parent of `name :: directory` is `directory` and the top of the
tree is the empty list.

A `Name` carries the proof that it can stand between two slashes of a path and means
itself there.  Names are bytes: a file system holds names that no text stands for, and
`Name.text` shows them with replacement characters.

Locations are canonical: looking an entry up by location follows no link.  Paths are
resolved to locations in `HeaderMake.Tree.Lookup`.
-/

namespace HeaderMake

/-- The bytes that name a directory entry: not empty, not one of the two segments with a
meaning of their own, without slash and NUL, and at most 255 of them. -/
def Name.Valid (bytes : Bytes) : Prop :=
  bytes ≠ [] ∧ bytes ≠ [RawPath.dot] ∧ bytes ≠ [RawPath.dot, RawPath.dot] ∧
    RawPath.slash ∉ bytes ∧ 0 ∉ bytes ∧ bytes.length ≤ 255

instance (bytes : Bytes) : Decidable (Name.Valid bytes) :=
  inferInstanceAs (Decidable (_ ∧ _))

/-- The name of a directory entry. -/
structure Name where
  bytes : Bytes
  valid : Name.Valid bytes
  deriving DecidableEq

/-- The name that a text is, if it can be one. -/
def Name.ofText? (text : Text) : Option Name :=
  if h : Name.Valid (Utf8.encode text) then some ⟨Utf8.encode text, h⟩ else none

/-- The text in which a name is shown. -/
def Name.text (name : Name) : Text :=
  Utf8.decodeLossy name.bytes

/-- The name is the encoding of a text. -/
def Name.Unicode (name : Name) : Prop :=
  Utf8.encode name.text = name.bytes

instance (name : Name) : Decidable name.Unicode :=
  inferInstanceAs (Decidable (_ = _))

/-- The path that names one entry after the other, beginning at a path. -/
def RawPath.descend (path : RawPath) (names : List Name) : RawPath :=
  names.foldl (fun path name => path.join name.bytes) path

/-- The names that lead to an entry, innermost first. -/
abbrev Location := List Name

/-- What stands at a location. -/
inductive Entry
  | file (content : Bytes)
  | link (target : RawPath)
  | directory
  deriving DecidableEq

/-- A file system, and the directory in it from which relative paths start. -/
structure Tree where
  entries : List (Location × Entry)
  start : Location

namespace Tree

/-- The entry at a location.  The top of the tree is always a directory. -/
def lookup (tree : Tree) : Location → Option Entry
  | [] => some .directory
  | name :: parent => tree.entries.lookup (name :: parent)

/-- The tree in which `entry` stands at the location, in place of what stood there. -/
def insert (tree : Tree) (location : Location) (entry : Entry) : Tree :=
  { tree with entries := (location, entry) :: tree.entries.filter (·.1 != location) }

/-- The tree without the entry at the location and without everything below it. -/
def erase (tree : Tree) (location : Location) : Tree :=
  { tree with entries := tree.entries.filter fun (at_, _) => !location.isSuffixOf at_ }

/-- The names of the entries in a directory, each once, in no particular order. -/
def names (tree : Tree) (directory : Location) : List Name :=
  (tree.entries.filterMap fun
    | (name :: parent, _) => if parent = directory then some name else none
    | ([], _) => none).eraseDups

/-- A location that holds an entry is the top or a key of the table. -/
theorem mem_entries_of_lookup {tree : Tree} {name : Name} {parent : Location} {entry : Entry}
    (h : tree.lookup (name :: parent) = some entry) :
    (name :: parent, entry) ∈ tree.entries := by
  simp only [lookup] at h
  generalize tree.entries = entries at h ⊢
  induction entries with
  | nil => simp at h
  | cons pair entries ih =>
    obtain ⟨key, value⟩ := pair
    by_cases hkey : name :: parent = key
    · subst hkey
      simp_all
    · have hne : (name :: parent == key) = false := by simpa using hkey
      rw [List.lookup_cons, hne] at h
      exact List.mem_cons_of_mem _ (ih h)

/-- Inserting changes what stands at one location and nothing else. -/
theorem lookup_insert (tree : Tree) {location : Location} (hlocation : location ≠ [])
    (entry : Entry) (other : Location) :
    (tree.insert location entry).lookup other =
      if other = location then some entry else tree.lookup other := by
  cases other with
  | nil => simp [lookup, Ne.symm hlocation]
  | cons name parent =>
    simp only [lookup, insert, List.lookup_cons]
    by_cases h : name :: parent = location
    · simp [h]
    · have hne : (name :: parent == location) = false := by simpa using h
      rw [hne, if_neg h]
      generalize tree.entries = entries
      induction entries with
      | nil => rfl
      | cons pair entries ih =>
        obtain ⟨key, value⟩ := pair
        by_cases hkey : key = location
        · subst hkey
          simp [List.lookup_cons, hne, ih]
        · simp [List.lookup_cons, hkey, ih]

/-- A directory has the names of the entries that stand in it. -/
theorem mem_names_iff {tree : Tree} {directory : Location} {name : Name} :
    name ∈ tree.names directory ↔ (tree.lookup (name :: directory)).isSome := by
  simp only [names, List.mem_eraseDups, lookup]
  generalize tree.entries = entries
  induction entries with
  | nil => simp
  | cons pair entries ih =>
    obtain ⟨key, value⟩ := pair
    cases key with
    | nil => simpa [List.lookup_cons] using ih
    | cons first parent =>
      by_cases h : parent = directory
      · by_cases hname : name = first
        · simp [h, hname]
        · have hne : (name :: directory == first :: parent) = false := by simp [hname]
          rw [List.lookup_cons, hne]
          simpa [h, hname] using ih
      · have hne : (name :: directory == first :: parent) = false := by simp [Ne.symm h]
        rw [List.lookup_cons, hne]
        simpa [h] using ih

/-- The tree that holds nothing but the directory from which relative paths start. -/
def empty : Tree :=
  let start : Location := [⟨Utf8.encode "start-directory".toList, by decide⟩]
  { entries := [(start, .directory)], start }

end Tree
end HeaderMake
