import HeaderMake.Tree.Lookup

/-!
# Scanning directories

`Tree.scan` lists the regular files below a directory, links followed.  A directory is
entered through its own entry or through a link; a link that leads to a directory which
is already open on the way down is not entered again, and a link that leads nowhere
lists nothing.  `Tree.collect` turns the scan of a path text into the sorted list of
source paths from a root.

The scan ends because on the way down two things cannot go on for ever: entering through
a link opens a location that was not open before, of which the tree has finitely many,
and between two links the way only goes deeper, which it can `height` times.
-/

namespace HeaderMake

/-- A list and all its tails, down to the empty list. -/
def tailsOf {α : Type} : List α → List (List α)
  | [] => [[]]
  | x :: xs => (x :: xs) :: tailsOf xs

theorem mem_tailsOf_iff {α : Type} {xs ys : List α} : ys ∈ tailsOf xs ↔ ys <:+ xs := by
  induction xs with
  | nil => simp [tailsOf]
  | cons x xs ih => simp [tailsOf, ih, List.suffix_cons_iff]

namespace Tree

/-- The locations that lookups can pass: those of the entries, that of the start, and
everything above them. -/
def places (tree : Tree) : List Location :=
  (tree.start :: tree.entries.map (·.1)).flatMap tailsOf

theorem mem_places_iff {tree : Tree} {location : Location} :
    location ∈ tree.places ↔
      ∃ below ∈ tree.start :: tree.entries.map (·.1), location <:+ below := by
  simp only [places, List.mem_flatMap, mem_tailsOf_iff]

theorem start_mem_places {tree : Tree} : tree.start ∈ tree.places :=
  mem_places_iff.2 ⟨tree.start, List.mem_cons_self, List.suffix_refl _⟩

theorem tail_mem_places {tree : Tree} {location : Location} (h : location ∈ tree.places) :
    location.tail ∈ tree.places := by
  obtain ⟨below, hbelow, hsuffix⟩ := mem_places_iff.1 h
  exact mem_places_iff.2 ⟨below, hbelow, (List.tail_suffix _).trans hsuffix⟩

theorem cons_mem_places {tree : Tree} {name : Name} {parent : Location} {entry : Entry}
    (h : tree.lookup (name :: parent) = some entry) : name :: parent ∈ tree.places :=
  mem_places_iff.2 ⟨name :: parent,
    List.mem_cons_of_mem _ (List.mem_map_of_mem (mem_entries_of_lookup h)),
    List.suffix_refl _⟩

theorem origin_mem_places {tree : Tree} {directory : Location} {path : RawPath}
    (h : directory ∈ tree.places) : origin directory path ∈ tree.places := by
  unfold origin
  split
  · exact mem_places_iff.2 ⟨tree.start, List.mem_cons_self, List.nil_suffix⟩
  · exact h

/-- A lookup that begins at one of the places and ends in a directory ends at one of the
places. -/
theorem mem_places_of_walk {tree : Tree} {links : Nat} {directory target : Location}
    {steps : List Step} (hdirectory : directory ∈ tree.places)
    (h : tree.walk links directory steps = .ok (.directory target)) :
    target ∈ tree.places := by
  fun_induction walk tree links directory steps with
  | case1 => cases h; exact hdirectory
  | case2 _ _ _ ih => exact ih hdirectory h
  | case3 _ _ _ ih => exact ih (tail_mem_places hdirectory) h
  | case4 => cases h
  | case5 => cases h
  | case6 _ _ _ _ hentry ih => exact ih (cons_mem_places hentry) h
  | case7 => cases h
  | case8 => cases h
  | case9 => cases h
  | case10 _ _ _ _ _ _ ih => exact ih (origin_mem_places hdirectory) h

/-- A path that leads to a directory leads to one of the places. -/
theorem mem_places_of_findRaw {tree : Tree} {path : RawPath} {target : Location}
    (h : tree.findRaw path = .ok (.directory target)) : target ∈ tree.places := by
  unfold findRaw at h
  cases hcheck : checkPath path with
  | error cause => simp [hcheck, bind, Except.bind] at h
  | ok _ =>
    simp only [hcheck, bind, Except.bind] at h
    exact mem_places_of_walk (origin_mem_places start_mem_places) h

/-- The number of places that are not among the open directories. -/
def unopened (tree : Tree) (opened : List Location) : Nat :=
  (tree.places.filter (· ∉ opened)).length

theorem unopened_cons_le (tree : Tree) (opened : List Location) (location : Location) :
    tree.unopened (location :: opened) ≤ tree.unopened opened := by
  unfold unopened
  generalize tree.places = places
  induction places with
  | nil => simp
  | cons place places ih => grind

theorem unopened_cons_lt {tree : Tree} {opened : List Location} {location : Location}
    (hplace : location ∈ tree.places) (hopened : location ∉ opened) :
    tree.unopened (location :: opened) < tree.unopened opened := by
  have hle : ∀ places : List Location, (places.filter (· ∉ location :: opened)).length ≤
      (places.filter (· ∉ opened)).length := by
    intro places
    induction places with
    | nil => simp
    | cons place places ih => grind
  unfold unopened
  generalize tree.places = places at hplace
  induction places with
  | nil => simp at hplace
  | cons place places ih =>
    have htail := hle places
    grind

/-- The length of the longest location of an entry. -/
def height (tree : Tree) : Nat :=
  (tree.entries.map (·.1.length)).max?.getD 0

theorem length_le_height {tree : Tree} {name : Name} {parent : Location} {entry : Entry}
    (h : tree.lookup (name :: parent) = some entry) : parent.length + 1 ≤ tree.height :=
  List.le_max?_getD_of_mem (List.mem_map_of_mem (mem_entries_of_lookup h))

/-- The regular files below a directory that was reached by `path`, each given by the
names that lead to it from the directory.  Directories inside are entered when
`recursive` is set; `opened` holds the directories that are open on the way down. -/
def scan (tree : Tree) (recursive : Bool) (opened : List Location) (directory : Location)
    (path : RawPath) : List (List Name) :=
  (tree.names directory).flatMap fun name =>
    match _hentry : tree.lookup (name :: directory) with
    | none => []
    | some (.file _) => [[name]]
    | some .directory =>
      if recursive && (tree.findRaw (path.join name.bytes)).isOk then
        (tree.scan recursive ((name :: directory) :: opened) (name :: directory)
          (path.join name.bytes)).map (name :: ·)
      else []
    | some (.link _) =>
      match _hfind : tree.findRaw (path.join name.bytes) with
      | .error _ => []
      | .ok (.file _ _) => [[name]]
      | .ok (.directory target) =>
        if _hopen : recursive = true ∧ target ∉ opened then
          (tree.scan recursive (target :: opened) target
            (path.join name.bytes)).map (name :: ·)
        else []
termination_by tree.unopened opened * (tree.height + 1) + (tree.height - directory.length)
decreasing_by
  · have hheight := length_le_height _hentry
    have hle := Nat.mul_le_mul_right (tree.height + 1)
      (unopened_cons_le tree opened (name :: directory))
    simp only [List.length_cons]
    omega
  · have hlt := Nat.mul_le_mul_right (tree.height + 1)
      (unopened_cons_lt (mem_places_of_findRaw _hfind) _hopen.2)
    rw [Nat.succ_mul] at hlt
    omega

/-- The files below `directory`, taken from the directory `root`, whose own names contain
`extension`, as paths from `root`, sorted.  A directory text that is missing or names a
file has no files below it.  A file counts if its path begins with `root`, so an absolute
directory text is read like any other; names are shown as texts. -/
def collect (tree : Tree) (root directory : Path) (extension : Text) (recursive : Bool) :
    List Path :=
  let path := (root.join directory).raw
  match tree.findRaw path with
  | .ok (.directory location) =>
    let found := (tree.scan recursive [location] location path).filter
      fun names => names.getLast?.any fun name => Text.contains extension name.text
    let paths := found.filterMap fun names => root.raw.relative? (path.descend names)
    paths.mergeSort Text.le
  | _ => []

end Tree
end HeaderMake
