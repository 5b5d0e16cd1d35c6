import HeaderMake.Proofs.Include.Spelling
import HeaderMake.Proofs.Satellites
import Mathlib.Data.List.TakeWhile

/-!
# Respelling relocated paths

A satellite table looks only at the beginning of a path, so a path that no include line
can spell may be replaced by one that can: what follows its first impossible character
gives way to a run of a spare character, one that the table does not use.  Relocation
commutes with this (`relocate?_respell`), and different paths of one chain of relocations
stay different (`eq_of_respell_eq`).
-/

namespace HeaderMake

/-- The characters that the texts of a satellite table may hold if include lines are to
spell them and `spare` is to be left over. -/
def isSpelled (spare c : Char) : Bool :=
  c != '"' && c != '\n' && c != spare

/-- A layout with a satellite table that include lines can spell, and with a character
that neither the table nor the source marker uses. -/
structure Layout.Spares (layout : Layout) (spare : Char) : Prop where
  ordinary : Ordinary spare
  marker : spare ∉ layout.sourceMarker
  satellite : ∀ entry ∈ layout.satellites.entries, ∀ c ∈ entry.1,
    isSpelled spare c = true
  canonical : ∀ entry ∈ layout.satellites.entries, ∀ c ∈ entry.2,
    isSpelled spare c = true

/-- A path up to its first character that is not spelled, and then `count` times the
spare character. -/
def respell (spare : Char) (count : Nat) (path : Path) : Path :=
  path.takeWhile (isSpelled spare) ++ List.replicate count spare

theorem not_mem_takeWhile_isSpelled (spare : Char) (path : Path) :
    spare ∉ path.takeWhile (isSpelled spare) := by
  intro hmem
  have hspelled := List.mem_takeWhile_imp hmem
  simp [isSpelled] at hspelled

theorem respell_append {spare : Char} {start : Text}
    (hstart : ∀ c ∈ start, isSpelled spare c = true) (count : Nat)
    (rest : Path) :
    respell spare count (start ++ rest) =
      start ++ respell spare count rest := by
  rw [respell, respell, List.takeWhile_append_of_pos hstart,
    List.append_assoc]

/-- Respelling neither makes nor breaks a spelled beginning. -/
theorem prefix_respell_iff {spare : Char} {start : Text}
    (hstart : ∀ c ∈ start, isSpelled spare c = true) (count : Nat)
    (path : Path) :
    start <+: respell spare count path ↔ start <+: path := by
  constructor
  · intro h
    have hspare : spare ∉ start := by
      intro hmem
      simpa [isSpelled] using hstart spare hmem
    have hle : start <+: path.takeWhile (isSpelled spare) := by
      cases count with
      | zero => simpa [respell] using h
      | succ count => exact Text.prefix_of_prefix_append_cons hspare h
    have hpart := List.takeWhile_prefix (isSpelled spare) (l := path)
    exact hle.trans hpart
  · rintro ⟨rest, rfl⟩
    rw [respell_append hstart]
    exact List.prefix_append _ _

/-! ## Relocations of respelled paths -/

theorem relocate?_respell {layout : Layout} {spare : Char}
    (hspares : layout.Spares spare) (count : Nat) {path canonical : Path}
    (h : layout.satellites.relocate? path = some canonical) :
    layout.satellites.relocate? (respell spare count path) =
      some (respell spare count canonical) := by
  have hfilter : (layout.satellites.entries.filter fun entry =>
        entry.1.isPrefixOf (respell spare count path)) =
      layout.satellites.entries.filter fun entry =>
        entry.1.isPrefixOf path := by
    apply List.filter_congr
    intro entry hentry
    rw [Bool.eq_iff_iff, List.isPrefixOf_iff_prefix,
      List.isPrefixOf_iff_prefix]
    exact prefix_respell_iff (hspares.satellite entry hentry) count path
  obtain ⟨⟨satellite, directory⟩, hlongest, rfl⟩ :=
    Option.map_eq_some_iff.mp h
  have hmem := SatelliteTable.mem_of_longest? hlongest
  rw [List.mem_filter, List.isPrefixOf_iff_prefix] at hmem
  obtain ⟨hentry, rest, rfl⟩ := hmem
  unfold SatelliteTable.relocate?
  rw [hfilter, hlongest]
  simp only [Option.map_some, List.drop_left,
    respell_append (hspares.satellite _ hentry),
    respell_append (hspares.canonical _ hentry)]

theorem dropWhile_eq_of_relocate? {layout : Layout} {spare : Char}
    (hspares : layout.Spares spare) {path canonical : Path}
    (h : layout.satellites.relocate? path = some canonical) :
    path.dropWhile (isSpelled spare) =
      canonical.dropWhile (isSpelled spare) := by
  obtain ⟨entry, hentry, rest, rfl, rfl⟩ :=
    SatelliteTable.exists_entry_of_relocate? h
  rw [List.dropWhile_append_of_pos (hspares.satellite entry hentry),
    List.dropWhile_append_of_pos (hspares.canonical entry hentry)]

theorem eq_of_respell_eq {spare : Char} {count : Nat} {path other : Path}
    (hdrop : path.dropWhile (isSpelled spare) =
      other.dropWhile (isSpelled spare))
    (h : respell spare count path = respell spare count other) :
    path = other := by
  have htake : path.takeWhile (isSpelled spare) =
      other.takeWhile (isSpelled spare) :=
    List.append_cancel_right h
  rw [← List.takeWhile_append_dropWhile (p := isSpelled spare) (l := path),
    htake, hdrop, List.takeWhile_append_dropWhile]

/-! ## What a respelled path is made of -/

theorem spellable_respell {layout : Layout} {spare : Char}
    (hspares : layout.Spares spare) (count : Nat) (path : Path) :
    Spellable (respell spare count path) := by
  have htail := hspares.ordinary.spellable_replicate count
  constructor
  · intro hmem
    rcases List.mem_append.mp hmem with hmem | hmem
    · simpa [isSpelled] using List.mem_takeWhile_imp hmem
    · exact htail.1 hmem
  · intro hmem
    rcases List.mem_append.mp hmem with hmem | hmem
    · simpa [isSpelled] using List.mem_takeWhile_imp hmem
    · exact htail.2 hmem

theorem count_respell (spare : Char) (count : Nat) (path : Path) :
    (respell spare count path).count spare = count := by
  rw [respell, List.count_append, List.count_replicate_self,
    List.count_eq_zero_of_not_mem (not_mem_takeWhile_isSpelled spare path),
    Nat.zero_add]

theorem not_mem_directory_respell {layout : Layout} {spare : Char}
    (hspares : layout.Spares spare) (count : Nat) (path : Path) :
    spare ∉ (respell spare count path).directory := by
  rw [respell, Path.directory_append
    (hspares.ordinary.slash_not_mem_replicate count)]
  intro hmem
  exact not_mem_takeWhile_isSpelled spare path
    ((Path.directory_prefix_self _).subset hmem)

end HeaderMake
