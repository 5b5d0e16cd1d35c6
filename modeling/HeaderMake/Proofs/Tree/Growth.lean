import HeaderMake.Tree.Lookup

/-!
# Trees that grow by files

Writing a file creates a regular file where nothing stood, or gives a regular file other
bytes.  `Tree.Grows` relates a tree to what becomes of it by any number of such writes.

Directories and links stay what they are, so paths lead to the same directories before
and after (`Tree.Grows.findRaw`), and exactly the same paths can be opened for writing, at
the same locations (`Tree.Grows.findSlot`).  What can change is that a path which has
led to nothing leads to a new file.
-/

namespace HeaderMake

/-- What stands at a location before and after files have been written. -/
inductive Entry.Grows : Option Entry → Option Entry → Prop
  | same (entry : Option Entry) : Grows entry entry
  | created (content : Bytes) : Grows none (some (.file content))
  | overwritten (old new : Bytes) : Grows (some (.file old)) (some (.file new))

theorem Entry.Grows.trans {first second third : Option Entry}
    (h : Entry.Grows first second) (h' : Entry.Grows second third) :
    Entry.Grows first third := by
  cases h with
  | same => exact h'
  | created content =>
      cases h' with
      | same => exact .created content
      | overwritten _ new => exact .created new
  | overwritten old content =>
      cases h' with
      | same => exact .overwritten old content
      | overwritten _ new => exact .overwritten old new

/-- The second tree is the first one after some regular files have been created or
overwritten. -/
structure Tree.Grows (before after : Tree) : Prop where
  start_eq : after.start = before.start
  lookup : ∀ location,
    Entry.Grows (before.lookup location) (after.lookup location)

/-- The same path looked up before and after files have been written: it leads to the
same directory or to the same file, or it fails both times, or it has led to nothing and
leads to a file that is new. -/
inductive Found.Grows (before after : Tree) :
    Except FileError Found → Except FileError Found → Prop
  | directory (target : Location) :
      Grows before after (.ok (.directory target)) (.ok (.directory target))
  | file (location : Location) (old new : Bytes)
      (hbefore : before.lookup location = some (.file old))
      (hafter : after.lookup location = some (.file new)) :
      Grows before after (.ok (.file location old)) (.ok (.file location new))
  | failed (cause cause' : FileError) :
      Grows before after (.error cause) (.error cause')
  | created (cause : FileError) (location : Location) (content : Bytes)
      (hbefore : before.lookup location = none)
      (hafter : after.lookup location = some (.file content)) :
      Grows before after (.error cause) (.ok (.file location content))

namespace Tree.Grows

theorem refl (tree : Tree) : tree.Grows tree :=
  ⟨rfl, fun location => .same (tree.lookup location)⟩

theorem trans {first second third : Tree} (h : first.Grows second)
    (h' : second.Grows third) : first.Grows third :=
  ⟨h'.start_eq.trans h.start_eq,
    fun location => (h.lookup location).trans (h'.lookup location)⟩

variable {before after : Tree}

theorem lookup_directory (h : before.Grows after) {location : Location}
    (hbefore : before.lookup location = some .directory) :
    after.lookup location = some .directory := by
  have hgrows := h.lookup location
  rw [hbefore] at hgrows
  generalize after.lookup location = entry at hgrows
  cases hgrows
  rfl

theorem lookup_link (h : before.Grows after) {location : Location}
    {target : RawPath} (hbefore : before.lookup location = some (.link target)) :
    after.lookup location = some (.link target) := by
  have hgrows := h.lookup location
  rw [hbefore] at hgrows
  generalize after.lookup location = entry at hgrows
  cases hgrows
  rfl

theorem lookup_file (h : before.Grows after) {location : Location}
    {old : Bytes} (hbefore : before.lookup location = some (.file old)) :
    ∃ new, after.lookup location = some (.file new) := by
  have hgrows := h.lookup location
  rw [hbefore] at hgrows
  generalize after.lookup location = entry at hgrows
  cases hgrows with
  | same => exact ⟨old, rfl⟩
  | overwritten _ new => exact ⟨new, rfl⟩

theorem lookup_none (h : before.Grows after) {location : Location}
    (hbefore : before.lookup location = none) :
    after.lookup location = none ∨
      ∃ content, after.lookup location = some (.file content) := by
  have hgrows := h.lookup location
  rw [hbefore] at hgrows
  generalize after.lookup location = entry at hgrows
  cases hgrows with
  | same => exact .inl rfl
  | created content => exact .inr ⟨content, rfl⟩

/-- Only regular files are new or different. -/
theorem exists_file_of_ne (h : before.Grows after) {location : Location}
    (hne : after.lookup location ≠ before.lookup location) :
    ∃ content, after.lookup location = some (.file content) := by
  have hgrows := h.lookup location
  generalize after.lookup location = entry at hgrows hne
  generalize before.lookup location = entry' at hgrows hne
  cases hgrows with
  | same => exact absurd rfl hne
  | created content => exact ⟨content, rfl⟩
  | overwritten _ new => exact ⟨new, rfl⟩

/-! ## Paths -/

theorem walk (h : before.Grows after) (links : Nat) (directory : Location)
    (steps : List Step) :
    Found.Grows before after (before.walk links directory steps)
      (after.walk links directory steps) := by
  fun_induction Tree.walk before links directory steps with
  | case1 links directory =>
      rw [Tree.walk]
      exact .directory directory
  | case2 links directory rest ih => rwa [Tree.walk]
  | case3 links directory rest ih => rwa [Tree.walk]
  | case4 links directory rest =>
      rw [Tree.walk]
      exact .failed _ _
  | case5 links directory name rest hlookup =>
      -- The one case in which more is found afterwards than before.
      rw [Tree.walk]
      rcases h.lookup_none hlookup with hafter | ⟨content, hafter⟩
      · rw [hafter]
        exact .failed _ _
      · rw [hafter]
        dsimp only
        split
        · exact .created _ _ content hlookup hafter
        · exact .failed _ _
  | case6 links directory name rest hlookup ih =>
      rwa [Tree.walk, h.lookup_directory hlookup]
  | case7 links directory name rest content hlookup hrest =>
      obtain ⟨new, hafter⟩ := h.lookup_file hlookup
      rw [Tree.walk, hafter]
      simp only [hrest, if_true]
      exact .file _ content new hlookup hafter
  | case8 links directory name rest content hlookup hrest =>
      obtain ⟨new, hafter⟩ := h.lookup_file hlookup
      rw [Tree.walk, hafter]
      simp only [hrest]
      exact .failed _ _
  | case9 directory name rest target hlookup =>
      rw [Tree.walk, h.lookup_link hlookup]
      exact .failed _ _
  | case10 directory name rest target hlookup left ih =>
      rwa [Tree.walk, h.lookup_link hlookup]

theorem findRaw (h : before.Grows after) (path : RawPath) :
    Found.Grows before after (before.findRaw path) (after.findRaw path) := by
  have hwalk := h.walk maxLinks (origin before.start path) path.steps
  rw [Tree.findRaw, Tree.findRaw, h.start_eq]
  cases checkPath path with
  | error cause => exact .failed cause cause
  | ok _ => exact hwalk

theorem find (h : before.Grows after) (path : Path) :
    Found.Grows before after (before.find path) (after.find path) :=
  h.findRaw path.raw

theorem findRaw_directory_iff (h : before.Grows after) {path : RawPath}
    {target : Location} :
    after.findRaw path = .ok (.directory target) ↔
      before.findRaw path = .ok (.directory target) := by
  have hfind := h.findRaw path
  generalize before.findRaw path = found at hfind ⊢
  generalize after.findRaw path = found' at hfind ⊢
  cases hfind <;> simp

/-! ## Places for writing -/

theorem slot (h : before.Grows after) (links : Nat) (directory : Location)
    (steps : List Step) (location : Location) :
    after.slot links directory steps = .ok location ↔
      before.slot links directory steps = .ok location := by
  fun_induction Tree.slot before links directory steps with
  | case1 => simp [Tree.slot]
  | case2 links directory rest ih => rwa [Tree.slot]
  | case3 links directory rest ih => rwa [Tree.slot]
  | case4 => simp [Tree.slot]
  | case5 links directory name hlookup =>
      rw [Tree.slot]
      rcases h.lookup_none hlookup with hafter | ⟨content, hafter⟩
      · rw [hafter]
      · rw [hafter]
  | case6 links directory name content hlookup =>
      obtain ⟨new, hafter⟩ := h.lookup_file hlookup
      rw [Tree.slot]
      rw [hafter]
  | case7 links directory name hlookup =>
      rw [Tree.slot]
      rw [h.lookup_directory hlookup]
  | case8 directory name target hlookup =>
      rw [Tree.slot]
      rw [h.lookup_link hlookup]
  | case9 directory name target hlookup left ih =>
      rw [Tree.slot]
      rw [h.lookup_link hlookup]
      exact ih
  | case10 links directory name rest hrest hlookup =>
      rw [Tree.slot]
      · rcases h.lookup_none hlookup with hafter | ⟨content, hafter⟩
        · rw [hafter]
        · rw [hafter]
          simp
      · exact hrest
  | case11 links directory name rest hrest content hlookup =>
      obtain ⟨new, hafter⟩ := h.lookup_file hlookup
      rw [Tree.slot]
      · rw [hafter]
      · exact hrest
  | case12 links directory name rest hrest hlookup ih =>
      rw [Tree.slot]
      · rw [h.lookup_directory hlookup]
        exact ih
      · exact hrest
  | case13 directory name rest hrest target hlookup =>
      rw [Tree.slot]
      · rw [h.lookup_link hlookup]
      · exact hrest
  | case14 directory name rest hrest target hlookup left ih =>
      rw [Tree.slot]
      · rw [h.lookup_link hlookup]
        exact ih
      · exact hrest

/-- The same paths can be opened for writing before and after, at the same locations. -/
theorem findSlot (h : before.Grows after) (path : Path)
    (location : Location) :
    after.findSlot path = .ok location ↔
      before.findSlot path = .ok location := by
  have hslot := h.slot maxLinks (origin before.start path.raw)
    path.raw.writeSteps location
  rw [Tree.findSlot, Tree.findSlot, h.start_eq]
  cases checkPath path.raw with
  | error cause => exact ⟨nofun, nofun⟩
  | ok _ => exact hslot

end Tree.Grows
end HeaderMake
