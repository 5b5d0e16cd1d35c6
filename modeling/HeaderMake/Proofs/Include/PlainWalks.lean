import HeaderMake.Proofs.Include.Lookups
import HeaderMake.Proofs.Text.Cutting
import HeaderMake.Proofs.Tree.Linkless
import Mathlib.Algebra.GroupWithZero.Nat

/-!
# Walks over plain paths

If payloads and canonical directories are written plainly, then so is every path that a
walk looks up (`plain_of_mem_lookups`).  The conventional satellite table is of this
kind.

How many paths a walk looks up depends on the include lines of the files that it reads
only: each line stands for one path and at most one relocation
(`length_lookups_le`).
-/

namespace HeaderMake

/-! ## Walks that stay plain -/

namespace Path.Plain

variable {path payload : Path}

/-- A plain path holds no segment `..` to collapse. -/
theorem collapseParent_eq_self (h : path.Plain) : path.collapseParent = path := by
  unfold Path.collapseParent
  split
  · next before rest hcut =>
    have hpath : path = before ++ '/' :: (['.', '.'] ++ '/' :: rest) := by
      rw [Text.eq_append_of_cutAt? hcut, List.append_assoc]
      rfl
    rw [hpath, plain_append_slash_iff, plain_append_slash_iff] at h
    exact absurd h.2.1 (by decide)
  · rfl

/-- A plain path behind the directory of a plain path is plain. -/
theorem directory_append (h : path.Plain) (hpayload : payload.Plain) :
    Path.Plain (path.directory ++ payload) := by
  rcases directory_eq_nil_or path with hnone | ⟨start, hstart⟩
  · rwa [hnone]
  · have hpath : path = start ++ '/' :: path.fileName := by
      conv_lhs => rw [← directory_append_fileName path, hstart]
      simp
    rw [hpath, plain_append_slash_iff] at h
    rw [hstart, List.append_assoc, List.singleton_append,
      plain_append_slash_iff]
    exact ⟨h.1, hpayload⟩

/-- With plain payloads, a file that is named plainly includes plain paths. -/
theorem of_mem_includedPaths (h : path.Plain) {content : Bytes}
    (hpayloads : ∀ payload ∈ includePayloads content, Path.Plain payload) :
    ∀ included ∈ includedPaths path content, included.Plain := by
  intro included hincluded
  obtain ⟨payload, hpayload, rfl⟩ := List.mem_map.mp hincluded
  have hplain := h.directory_append (hpayloads payload hpayload)
  rwa [hplain.collapseParent_eq_self]

end Path.Plain

/-- The table relocates plain paths to plain paths. -/
def SatelliteTable.KeepsPlain (table : SatelliteTable) : Prop :=
  ∀ path canonical, path.Plain → table.relocate? path = some canonical →
    canonical.Plain

/-- A table keeps paths plain if its satellites and canonical directories are whole
directories, and the canonical ones are written plainly. -/
theorem SatelliteTable.keepsPlain_of_directories {table : SatelliteTable}
    (h : ∀ entry ∈ table.entries, ∃ satellite canonical,
      entry = (satellite ++ ['/'], canonical ++ ['/']) ∧
        Path.Plain canonical) : table.KeepsPlain := by
  intro path canonical hpath hrelocate
  obtain ⟨entry, hentry, rest, rfl, rfl⟩ := exists_entry_of_relocate? hrelocate
  obtain ⟨satellite, directory, rfl, hdirectory⟩ := h entry hentry
  simp only [List.append_assoc, List.singleton_append,
    Path.plain_append_slash_iff] at hpath ⊢
  exact ⟨hdirectory, hpath.2⟩

theorem SatelliteTable.standard_keepsPlain :
    Layout.standard.satellites.KeepsPlain := by
  apply keepsPlain_of_directories
  intro entry hentry
  have hentries : Layout.standard.satellites.entries =
      [("test".toList ++ ['/'], "lib".toList ++ ['/']),
        ("cli".toList ++ ['/'], "lib".toList ++ ['/'])] := rfl
  rw [hentries] at hentry
  rcases List.mem_pair.mp hentry with rfl | rfl
  · exact ⟨_, _, rfl, by decide⟩
  · exact ⟨_, _, rfl, by decide⟩

/-- Whatever the files of the view that are named plainly include is named plainly. -/
def SourceView.IncludesPlain (view : SourceView) : Prop :=
  ∀ path content, path.Plain → view.read path = some content →
    ∀ included ∈ includedPaths path content, included.Plain

theorem plain_of_mem_followUps {layout : Layout} {view : SourceView}
    (htable : layout.satellites.KeepsPlain) (hview : view.IncludesPlain)
    {next later : Pending} (hnext : next.path.Plain)
    (h : later ∈ layout.followUps view next) : later.path.Plain := by
  cases hread : view.read next.path with
  | some content =>
      rw [Layout.followUps_of_read hread] at h
      obtain ⟨included, hincluded, rfl⟩ := List.mem_map.mp h
      exact hview next.path content hnext hread included hincluded
  | none =>
      rw [Layout.followUps_of_unreadable hread] at h
      obtain ⟨canonical, hcanonical, rfl⟩ := List.mem_map.mp h
      rw [Option.mem_toList] at hcanonical
      exact htable next.path canonical hnext
        (Layout.relocate?_of_fallback? hcanonical)

/-- A walk that begins with plain paths looks up plain paths, if nothing on the way
writes them otherwise. -/
theorem plain_of_mem_lookups {layout : Layout} {view : SourceView}
    (htable : layout.satellites.KeepsPlain) (hview : view.IncludesPlain)
    (visited : List Path) (pending : List Pending) :
    (∀ next ∈ pending, next.path.Plain) →
    ∀ path ∈ (walkIncludes layout view visited pending).lookups,
      path.Plain := by
  induction visited, pending using walk_induction layout view with
  | done visited => simp [Resolution.empty]
  | known visited next rest hvisited ih =>
      intro hpending
      rw [walkIncludes_of_mem hvisited]
      exact ih (List.forall_mem_cons.mp hpending).2
  | fresh visited next rest hvisited ih =>
      intro hpending path hpath
      obtain ⟨hnext, hrest⟩ := List.forall_mem_cons.mp hpending
      rw [walkIncludes_of_not_mem hvisited, Resolution.lookups_append,
        Layout.lookups_finding, List.singleton_append, List.mem_cons] at hpath
      rcases hpath with rfl | hpath
      · exact hnext
      · refine ih ?_ path hpath
        intro later hlater
        rcases List.mem_append.mp hlater with hnew | hold
        · exact plain_of_mem_followUps htable hview hnext hnew
        · exact hrest later hold

/-! ## How many lookups a walk makes -/

/-- The number of include lines of the file that a path leads to. -/
def SourceView.includeCount (view : SourceView) (path : Path) : Nat :=
  ((view.read path).map fun content =>
    (includePayloads content).length).getD 0

theorem totalWeight_append (first second : List Pending) :
    Pending.totalWeight (first ++ second) =
      Pending.totalWeight first + Pending.totalWeight second := by
  induction first with
  | nil => simp [Pending.totalWeight]
  | cons next first ih =>
      simp only [List.cons_append, Pending.totalWeight, ih, Nat.add_assoc]

theorem totalWeight_map_included (paths : List Path) :
    Pending.totalWeight (paths.map (⟨·, false⟩)) = 2 * paths.length := by
  induction paths with
  | nil => rfl
  | cons path paths ih =>
      rw [List.map_cons, Pending.totalWeight, ih, List.length_cons]
      simp only [Pending.weight, Bool.false_eq_true, if_false]
      omega

theorem totalWeight_followUps_of_read (layout : Layout) {view : SourceView}
    {next : Pending} (hread : (view.read next.path).isSome) :
    Pending.totalWeight (layout.followUps view next) =
      2 * view.includeCount next.path := by
  obtain ⟨content, hcontent⟩ := Option.isSome_iff_exists.mp hread
  rw [Layout.followUps_of_read hcontent, totalWeight_map_included,
    includedPaths, List.length_map, SourceView.includeCount, hcontent,
    Option.map_some, Option.getD_some]

/-- Looking a path up that cannot be read makes the pending list lighter. -/
theorem totalWeight_followUps_of_unreadable (layout : Layout)
    {view : SourceView} {next : Pending}
    (hread : ¬(view.read next.path).isSome) :
    Pending.totalWeight (layout.followUps view next) < next.weight := by
  rw [Option.not_isSome_iff_eq_none] at hread
  rw [Layout.followUps_of_unreadable hread, Layout.fallback?]
  unfold Pending.weight
  cases hrelocated : next.relocated with
  | true => simp [Pending.totalWeight]
  | false =>
      cases layout.satellites.relocate? next.path <;>
        simp [Pending.totalWeight, Pending.weight]

/-- A walk looks up no more paths than the weight of what is pending and twice the
include lines of the files that it reads. -/
theorem length_lookups_le (layout : Layout) (view : SourceView)
    (visited : List Path) (pending : List Pending) :
    (walkIncludes layout view visited pending).lookups.length ≤
      Pending.totalWeight pending +
        2 * (((walkIncludes layout view visited pending).lookups.filter
          fun path => (view.read path).isSome).map view.includeCount).sum := by
  induction visited, pending using walk_induction layout view with
  | done visited => simp [Resolution.empty]
  | known visited next rest hvisited ih =>
      rw [walkIncludes_of_mem hvisited, Pending.totalWeight]
      omega
  | fresh visited next rest hvisited ih =>
      rw [totalWeight_append] at ih
      have hweight : 0 < next.weight := by
        unfold Pending.weight
        split <;> decide
      rw [walkIncludes_of_not_mem hvisited, Resolution.lookups_append,
        Layout.lookups_finding, List.singleton_append, List.length_cons,
        List.filter_cons, Pending.totalWeight]
      by_cases hread : (view.read next.path).isSome
      · have hfollow := totalWeight_followUps_of_read layout hread
        rw [if_pos hread, List.map_cons, List.sum_cons]
        omega
      · have hfollow :=
          totalWeight_followUps_of_unreadable layout hread
        rw [if_neg hread]
        omega

end HeaderMake
