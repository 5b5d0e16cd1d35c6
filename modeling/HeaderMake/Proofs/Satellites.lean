import HeaderMake.Layout
import Mathlib.Data.List.Nodup

/-!
# Relocation by a satellite table

When a table relocates a path at all, and where to: some satellite has to be a beginning
of the path, the longest one of these is replaced by its canonical directory, and the
rest of the path is kept (`relocate?_eq_some_iff`).

Two properties of tables say what happens to a path that has been relocated already.  By
an unchained table it is not relocated again; by a settled one a second relocation leads
nowhere new.
-/

namespace HeaderMake
namespace SatelliteTable

theorem mem_of_longest? {entries : List (Text × Text)} {entry : Text × Text}
    (h : longest? entries = some entry) : entry ∈ entries := by
  induction entries generalizing entry with
  | nil => cases h
  | cons first rest ih =>
      rw [longest?] at h
      split at h
      · cases h
        exact List.mem_cons_self
      · next other hother =>
        split at h
        · cases h
          exact List.mem_cons_self
        · cases h
          exact List.mem_cons_of_mem _ (ih hother)

theorem longest?_eq_none_iff {entries : List (Text × Text)} :
    longest? entries = none ↔ entries = [] := by
  cases entries with
  | nil => simp [longest?]
  | cons first rest =>
      rw [longest?]
      split
      · simp
      · split <;> simp

theorem relocate?_eq_none_iff {table : SatelliteTable} {path : Path} :
    table.relocate? path = none ↔
      ∀ entry ∈ table.entries, ¬entry.1 <+: path := by
  simp [relocate?, longest?_eq_none_iff]

/-! ## The longest satellite -/

theorem length_le_of_longest? {entries : List (Text × Text)}
    {entry other : Text × Text} (h : longest? entries = some entry)
    (hother : other ∈ entries) : other.1.length ≤ entry.1.length := by
  induction entries generalizing entry with
  | nil => cases hother
  | cons first rest ih =>
      rw [longest?] at h
      split at h
      · next hrest =>
        cases h
        rw [longest?_eq_none_iff.mp hrest, List.mem_singleton] at hother
        exact hother ▸ Nat.le_refl _
      · next longest hrest =>
        rcases List.mem_cons.mp hother with rfl | hother
        · split at h <;> cases h <;> omega
        · have hle := ih hrest hother
          split at h <;> cases h <;> omega

/-- The path begins with a satellite that no other satellite at its beginning goes
beyond, and `canonical` has the canonical directory in place of this satellite. -/
def RelocatesLongest (table : SatelliteTable) (path canonical : Path) : Prop :=
  ∃ entry ∈ table.entries, ∃ rest,
    path = entry.1 ++ rest ∧ canonical = entry.2 ++ rest ∧
      ∀ other ∈ table.entries, other.1 <+: path → other.1 <+: entry.1

theorem relocatesLongest_of_relocate? {table : SatelliteTable}
    {path canonical : Path} (h : table.relocate? path = some canonical) :
    table.RelocatesLongest path canonical := by
  obtain ⟨entry, hentry, rfl⟩ := Option.map_eq_some_iff.mp h
  have hmem := mem_of_longest? hentry
  rw [List.mem_filter, List.isPrefixOf_iff_prefix] at hmem
  obtain ⟨hmem, rest, rfl⟩ := hmem
  refine ⟨entry, hmem, rest, rfl, by simp, ?_⟩
  intro other hother hbegins
  have hlength := length_le_of_longest? hentry (List.mem_filter.mpr
    ⟨hother, List.isPrefixOf_iff_prefix.mpr hbegins⟩)
  exact List.prefix_of_prefix_length_le hbegins (List.prefix_append _ _)
    hlength

/-- A relocated path is the canonical directory of one of the satellites followed by the
rest of the path. -/
theorem exists_entry_of_relocate? {table : SatelliteTable}
    {path canonical : Path} (h : table.relocate? path = some canonical) :
    ∃ entry ∈ table.entries, ∃ rest,
      path = entry.1 ++ rest ∧ canonical = entry.2 ++ rest := by
  obtain ⟨entry, hentry, rest, hpath, hcanonical, -⟩ :=
    relocatesLongest_of_relocate? h
  exact ⟨entry, hentry, rest, hpath, hcanonical⟩

/-- The longest satellite at the beginning of a path is unique. -/
theorem RelocatesLongest.unique {table : SatelliteTable}
    {path canonical other : Path} (h : table.RelocatesLongest path canonical)
    (h' : table.RelocatesLongest path other) : canonical = other := by
  obtain ⟨entry, hentry, rest, rfl, rfl, hlongest⟩ := h
  obtain ⟨entry', hentry', rest', heq, rfl, hlongest'⟩ := h'
  have hle := hlongest entry' hentry' ⟨rest', heq.symm⟩
  have hle' := hlongest' entry hentry ⟨rest, rfl⟩
  have hsame : entry = entry' := List.inj_on_of_nodup_map table.nodup
    hentry hentry' (hle'.eq_of_length_le hle.length_le)
  rw [hsame] at heq ⊢
  rw [List.append_cancel_left heq]

theorem relocate?_eq_some_iff {table : SatelliteTable}
    {path canonical : Path} :
    table.relocate? path = some canonical ↔
      table.RelocatesLongest path canonical := by
  constructor
  · exact relocatesLongest_of_relocate?
  · intro h
    cases hrelocate : table.relocate? path with
    | none =>
        obtain ⟨entry, hentry, rest, rfl, -⟩ := h
        exact absurd (List.prefix_append _ _)
          (relocate?_eq_none_iff.mp hrelocate entry hentry)
    | some other =>
        rw [(relocatesLongest_of_relocate? hrelocate).unique h]

/-! ## Relocating twice -/

/-- A table by which no relocated path is relocated further. -/
def Unchained (table : SatelliteTable) : Prop :=
  ∀ path canonical,
    table.relocate? path = some canonical →
    table.relocate? canonical = none

/-- Relocating twice leads nowhere new: one of the two relocations changes nothing, or
the second one takes the first one back. -/
def Settled (table : SatelliteTable) : Prop :=
  ∀ path canonical next,
    table.relocate? path = some canonical →
    table.relocate? canonical = some next →
    path = canonical ∨ canonical = next ∨ path = next

theorem Unchained.settled {table : SatelliteTable} (h : table.Unchained) :
    table.Settled := by
  intro path canonical next hcanonical hnext
  rw [h path canonical hcanonical] at hnext
  cases hnext

/-- A table is unchained if no canonical directory is a beginning of a satellite and no
satellite is a beginning of a canonical directory. -/
theorem unchained_of_incomparable {table : SatelliteTable}
    (h : ∀ entry ∈ table.entries, ∀ other ∈ table.entries,
      ¬entry.1 <+: other.2 ∧ ¬other.2 <+: entry.1) :
    table.Unchained := by
  intro path canonical hcanonical
  obtain ⟨other, hother, rest, -, rfl⟩ := exists_entry_of_relocate? hcanonical
  rw [relocate?_eq_none_iff]
  intro entry hentry hbegins
  rcases List.prefix_or_prefix_of_prefix hbegins
    (List.prefix_append other.2 rest) with hle | hle
  · exact (h entry hentry other hother).1 hle
  · exact (h entry hentry other hother).2 hle

/-- The conventional table relocates into the library, which is no satellite. -/
theorem standard_unchained : Layout.standard.satellites.Unchained := by
  apply unchained_of_incomparable
  decide

end SatelliteTable
end HeaderMake
