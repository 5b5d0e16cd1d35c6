import HeaderMake.Proofs.Satellites
import HeaderMake.Proofs.Text.Slices
import Mathlib.Data.List.MinMax

/-!
# The longest satellite of a path

Several satellites of a table may begin a path.  The one that takes the most bytes is
unique, because of two beginnings of a path one begins the other
(`SatelliteTable.IsLongest.unique`), and it alone says where the path is relocated
(`SatelliteTable.relocate?_by_longest`).  Neither the order of the entries nor any entry
for a satellite that does not begin the path or is shorter has a part in it.

The rest of the path behind the longest satellite can be cut out of the bytes of the path
(`SatelliteTable.relocateBytes?_eq`).
-/

namespace HeaderMake

theorem Text.byteLength_append (text rest : Text) :
    (text ++ rest).byteLength = text.byteLength + rest.byteLength := by
  rw [← Utf8.length_encode, ← Utf8.length_encode, ← Utf8.length_encode,
    Utf8.encode_append, List.length_append]

theorem Text.byteLength_le_of_prefix {start text : Text}
    (h : start <+: text) : start.byteLength ≤ text.byteLength := by
  obtain ⟨rest, rfl⟩ := h
  rw [byteLength_append]
  exact Nat.le_add_right _ _

/-- A beginning of a text that takes no fewer bytes is the whole text. -/
theorem Text.eq_of_prefix_of_byteLength_le {start text : Text}
    (h : start <+: text) (hle : text.byteLength ≤ start.byteLength) :
    start = text := by
  obtain ⟨rest, rfl⟩ := h
  have hlength := length_le_byteLength rest
  rw [byteLength_append] at hle
  have hnil : rest = [] := List.length_eq_zero_iff.mp (by omega)
  rw [hnil, List.append_nil]

namespace SatelliteTable

variable {table : SatelliteTable} {path : Path}

/-- No satellite of the table that begins the path takes more bytes than this text. -/
def NoneLonger (table : SatelliteTable) (path satellite : Text) : Prop :=
  ∀ other ∈ table.entries, other.1 <+: path →
    other.1.byteLength ≤ satellite.byteLength

/-- The satellite of the entry begins the path, and no longer one in the table does. -/
structure IsLongest (table : SatelliteTable) (path : Path)
    (entry : Text × Text) : Prop where
  mem_entries : entry ∈ table.entries
  begins : entry.1 <+: path
  noneLonger : table.NoneLonger path entry.1

/-- Of two beginnings of a path the one with fewer bytes begins the other. -/
theorem noneLonger_iff_begins {satellite : Text} (h : satellite <+: path) :
    table.NoneLonger path satellite ↔
      ∀ other ∈ table.entries, other.1 <+: path → other.1 <+: satellite := by
  constructor
  · intro hlongest other hother hbegins
    rcases List.prefix_or_prefix_of_prefix hbegins h with hle | hge
    · exact hle
    · have heq := Text.eq_of_prefix_of_byteLength_le hge
        (hlongest other hother hbegins)
      exact heq ▸ List.prefix_refl _
  · intro hlongest other hother hbegins
    exact Text.byteLength_le_of_prefix (hlongest other hother hbegins)

theorem relocatesLongest_iff {canonical : Path} :
    table.RelocatesLongest path canonical ↔
      ∃ entry, table.IsLongest path entry ∧
        ∃ rest, path = entry.1 ++ rest ∧ canonical = entry.2 ++ rest := by
  constructor
  · rintro ⟨entry, hentry, rest, hpath, hcanonical, hlongest⟩
    have hbegins : entry.1 <+: path := ⟨rest, hpath.symm⟩
    exact ⟨entry, ⟨hentry, hbegins,
      (noneLonger_iff_begins hbegins).mpr hlongest⟩, rest, hpath, hcanonical⟩
  · rintro ⟨entry, ⟨hentry, hbegins, hlongest⟩, rest, hpath, hcanonical⟩
    exact ⟨entry, hentry, rest, hpath, hcanonical,
      (noneLonger_iff_begins hbegins).mp hlongest⟩

theorem relocate?_eq_some_iff_longest {canonical : Path} :
    table.relocate? path = some canonical ↔
      ∃ entry, table.IsLongest path entry ∧
        ∃ rest, path = entry.1 ++ rest ∧ canonical = entry.2 ++ rest :=
  relocate?_eq_some_iff.trans relocatesLongest_iff

/-! ## There is one longest satellite -/

theorem IsLongest.unique {entry other : Text × Text}
    (h : table.IsLongest path entry) (h' : table.IsLongest path other) :
    entry = other := by
  have hle := (noneLonger_iff_begins h'.begins).mp h'.noneLonger
    entry h.mem_entries h.begins
  have hsame := Text.eq_of_prefix_of_byteLength_le hle
    (h.noneLonger other h'.mem_entries h'.begins)
  exact List.inj_on_of_nodup_map table.nodup h.mem_entries h'.mem_entries hsame

theorem isSome_relocate?_iff :
    (table.relocate? path).isSome ↔
      ∃ entry ∈ table.entries, entry.1 <+: path := by
  rw [← Option.ne_none_iff_isSome, ne_eq, relocate?_eq_none_iff]
  push Not
  rfl

/-- If any satellite begins the path, one of them is the longest. -/
theorem exists_isLongest {entry : Text × Text} (hentry : entry ∈ table.entries)
    (hbegins : entry.1 <+: path) : ∃ longest, table.IsLongest path longest := by
  obtain ⟨canonical, hcanonical⟩ := Option.isSome_iff_exists.mp
    (isSome_relocate?_iff.mpr ⟨entry, hentry, hbegins⟩)
  obtain ⟨longest, hlongest, -⟩ := relocate?_eq_some_iff_longest.mp hcanonical
  exact ⟨longest, hlongest⟩

/-! ## Entries without a part in it -/

/-- The other table has the same entries, apart from satellites that do not begin the path
and satellites that are shorter than one that does. -/
def AgreesAt (table other : SatelliteTable) (path : Path) : Prop :=
  ∀ entry : Text × Text, entry.1 <+: path → table.NoneLonger path entry.1 →
    (entry ∈ other.entries ↔ entry ∈ table.entries)

variable {other : SatelliteTable}

theorem AgreesAt.isLongest_iff (h : table.AgreesAt other path)
    {entry : Text × Text} :
    other.IsLongest path entry ↔ table.IsLongest path entry := by
  constructor
  · intro hentry
    have hlonger : table.NoneLonger path entry.1 := by
      intro satellite hsatellite hbegins
      -- The longest satellite of the table is in the other table too.
      obtain ⟨longest, hlongest⟩ := exists_isLongest hsatellite hbegins
      have hmem := (h longest hlongest.begins hlongest.noneLonger).mpr
        hlongest.mem_entries
      exact Nat.le_trans (hlongest.noneLonger satellite hsatellite hbegins)
        (hentry.noneLonger longest hmem hlongest.begins)
    exact ⟨(h entry hentry.begins hlonger).mp hentry.mem_entries,
      hentry.begins, hlonger⟩
  · intro hentry
    refine ⟨(h entry hentry.begins hentry.noneLonger).mpr hentry.mem_entries,
      hentry.begins, ?_⟩
    intro satellite hsatellite hbegins
    by_contra hlt
    have hlonger : table.NoneLonger path satellite.1 := by
      intro third hthird hthirdBegins
      have hle := hentry.noneLonger third hthird hthirdBegins
      omega
    have hmem := (h satellite hbegins hlonger).mp hsatellite
    exact hlt (hentry.noneLonger satellite hmem hbegins)

theorem AgreesAt.relocate?_eq (h : table.AgreesAt other path) :
    other.relocate? path = table.relocate? path := by
  apply Option.ext
  intro canonical
  rw [relocate?_eq_some_iff_longest, relocate?_eq_some_iff_longest]
  simp only [h.isLongest_iff]

/-- A satellite that does not begin the path, or is shorter than one that does, may be
added or get another canonical directory. -/
theorem agreesAt_insert {satellite : Text}
    (h : satellite <+: path → ¬table.NoneLonger path satellite)
    (canonical : Text) :
    table.AgreesAt (table.insert satellite canonical) path := by
  intro entry hbegins hlonger
  have hne : entry.1 ≠ satellite := by
    rintro rfl
    exact h hbegins hlonger
  have hfresh : entry ≠ (satellite, canonical) := by
    rintro rfl
    exact hne rfl
  simp [insert, hne, hfresh]

/-! ## Cutting the path behind its satellite -/

/-- Relocation of the bytes of a path by entries that are gone through in some order: of
the satellites that begin the path the last one of those with the most bytes is taken, and
the path is cut at as many bytes.  The outer option is empty if the path cannot be cut
there, the inner one if no satellite begins the path. -/
def relocateBytes? (entries : List (Text × Text)) (path : Path) :
    Option (Option Bytes) :=
  match ((entries.filter (·.1 <+: path)).reverse).argmax
      (·.1.byteLength) with
  | none => some none
  | some (satellite, canonical) =>
    (Utf8.slice? (Utf8.encode path) satellite.byteLength
      (Utf8.encode path).length).map fun rest =>
        some (Utf8.encode canonical ++ rest)

/-- In whatever order the entries are gone through, the path can be cut behind the
satellite that is taken, and the result is the relocated path. -/
theorem relocateBytes?_eq {entries : List (Text × Text)}
    (hperm : entries.Perm table.entries) (path : Path) :
    relocateBytes? entries path =
      some ((table.relocate? path).map Utf8.encode) := by
  have hmem : ∀ entry,
      entry ∈ (entries.filter (·.1 <+: path)).reverse ↔
        entry ∈ table.entries ∧ entry.1 <+: path := by
    intro entry
    rw [List.mem_reverse, List.mem_filter, hperm.mem_iff, decide_eq_true_iff]
  cases hmax : ((entries.filter (·.1 <+: path)).reverse).argmax
      (·.1.byteLength) with
  | none =>
      have hnone : table.relocate? path = none := by
        rw [relocate?_eq_none_iff]
        intro entry hentry hbegins
        have hentry := (hmem entry).mpr ⟨hentry, hbegins⟩
        rw [List.argmax_eq_none.mp hmax] at hentry
        exact List.not_mem_nil hentry
      rw [relocateBytes?, hmax, hnone]
      rfl
  | some entry =>
      obtain ⟨hentry, rest, rfl⟩ := (hmem entry).mp (List.argmax_mem hmax)
      have hlongest : table.IsLongest (entry.1 ++ rest) entry := by
        refine ⟨hentry, List.prefix_append _ _, ?_⟩
        intro other hother hbegins
        exact List.le_of_mem_argmax (f := (·.1.byteLength))
          ((hmem other).mpr ⟨hother, hbegins⟩) hmax
      have hsome : table.relocate? (entry.1 ++ rest) =
          some (entry.2 ++ rest) :=
        relocate?_eq_some_iff_longest.mpr ⟨entry, hlongest, rest, rfl, rfl⟩
      have hslice : Utf8.slice? (Utf8.encode (entry.1 ++ rest))
          entry.1.byteLength (Utf8.encode (entry.1 ++ rest)).length =
            some (Utf8.encode rest) := by
        rw [← Utf8.length_encode]
        exact Utf8.slice?_encode_append_length entry.1 rest
      rw [relocateBytes?, hmax, hsome]
      simp only [hslice, Option.map_some]
      rw [Utf8.encode_append]

/-- A path is relocated exactly if some satellite begins it, namely by putting the
canonical directory of the longest such satellite in its place.  There is one longest
satellite.  The result stays as it is if entries are added, removed or changed for
satellites that do not begin the path or are shorter than the longest one.  It comes out
alike in every order of the entries, and the path is never cut inside a character. -/
theorem relocate?_by_longest (table : SatelliteTable) (path : Path) :
    ((table.relocate? path).isSome ↔
      ∃ entry ∈ table.entries, entry.1 <+: path) ∧
    (∀ canonical, table.relocate? path = some canonical ↔
      ∃ entry, table.IsLongest path entry ∧
        ∃ rest, path = entry.1 ++ rest ∧ canonical = entry.2 ++ rest) ∧
    (∀ entry entry', table.IsLongest path entry →
      table.IsLongest path entry' → entry = entry') ∧
    (∀ other : SatelliteTable, table.AgreesAt other path →
      other.relocate? path = table.relocate? path) ∧
    ∀ entries : List (Text × Text), entries.Perm table.entries →
      relocateBytes? entries path =
        some ((table.relocate? path).map Utf8.encode) := by
  refine ⟨isSome_relocate?_iff, fun _ => relocate?_eq_some_iff_longest,
    fun _ _ => IsLongest.unique, fun _ => AgreesAt.relocate?_eq, ?_⟩
  intro entries hperm
  exact relocateBytes?_eq hperm path

/-- A table in which each satellite begins the next one, the first being empty. -/
def nested : SatelliteTable :=
  .ofList [("".toList, "x/".toList), ("ä/".toList, "y/".toList),
    ("ä/b/".toList, "z/".toList)]

/-- Of satellites that begin each other the longest one counts, also in another order and
with one more satellite in the table. -/
theorem relocate?_by_longest_nested :
    nested.relocate? "ä/b/c.h".toList = some "z/c.h".toList ∧
      (nested.insert "ä/c/".toList "w/".toList).relocate? "ä/b/c.h".toList =
        some "z/c.h".toList ∧
      relocateBytes? nested.entries.reverse "ä/b/c.h".toList =
        some (some (Utf8.encode "z/c.h".toList)) := by
  obtain ⟨-, -, -, hother, horder⟩ :=
    relocate?_by_longest nested "ä/b/c.h".toList
  have hsome : nested.relocate? "ä/b/c.h".toList = some "z/c.h".toList := by
    decide
  refine ⟨hsome, ?_, ?_⟩
  · rw [hother _ (agreesAt_insert (fun hbegins => ?_) _), hsome]
    exact absurd hbegins (by decide)
  · rw [horder _ (List.reverse_perm _), hsome]
    rfl

end SatelliteTable
end HeaderMake
