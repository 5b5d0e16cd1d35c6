import HeaderMake.Proofs.Include.Reachability
import HeaderMake.Proofs.Text.Decoding
import HeaderMake.Workspace

/-!
# Reordering the lines of files

Two workspaces are reorderings of each other if they hold the same entries at the same
locations and corresponding files have the same lines.  A source then reaches the same
paths in both, because one path leads to another by a line that stands anywhere in a
file.

For a settled satellite table this makes the headers of a source independent of the
order of lines: `resolve` lists exactly what the source reaches.
-/

namespace HeaderMake

theorem exists_of_rel_some {α β : Type} {related : α → β → Prop} {a : α}
    {other : Option β} (h : Option.Rel related (some a) other) :
    ∃ b, other = some b ∧ related a b := by
  cases h with
  | some hrelated => exact ⟨_, rfl, hrelated⟩

theorem eq_none_of_rel_none {α β : Type} {related : α → β → Prop}
    {other : Option β} (h : Option.Rel related none other) : other = none := by
  cases h with
  | none => rfl

/-! ## Reordered views -/

/-- Contents that have the same lines in any order. -/
def SameLines (content other : Bytes) : Prop :=
  (content.splitOn 10).Perm (other.splitOn 10)

theorem SameLines.symm {content other : Bytes} (h : SameLines content other) :
    SameLines other content :=
  List.Perm.symm h

/-- Views that read the same paths and find the same lines under each of them. -/
def SourceView.Reordered (view other : SourceView) : Prop :=
  ∀ path, Option.Rel SameLines (view.read path) (other.read path)

theorem SourceView.Reordered.symm {view other : SourceView}
    (h : view.Reordered other) : other.Reordered view := by
  intro path
  have hpath := h path
  generalize view.read path = content at hpath
  generalize other.read path = content' at hpath
  cases hpath with
  | some hlines => exact .some hlines.symm
  | none => exact .none

/-- The headers of every source do not depend on the order of lines in any file. -/
def Layout.OrderIndependent (layout : Layout) : Prop :=
  ∀ view other : SourceView, view.Reordered other → ∀ file path,
    path ∈ (resolve layout view file).dependencies ↔
      path ∈ (resolve layout other file).dependencies

/-! ## Reordered trees -/

/-- Entries of which the files have the same lines and the others are the same. -/
inductive Entry.Reordered : Entry → Entry → Prop
  | file {content other : Bytes} (hlines : SameLines content other) :
      Reordered (.file content) (.file other)
  | link (target : RawPath) : Reordered (.link target) (.link target)
  | directory : Reordered .directory .directory

theorem Entry.Reordered.refl (entry : Entry) : entry.Reordered entry := by
  cases entry with
  | file content => exact .file (List.Perm.refl _)
  | link target => exact .link target
  | directory => exact .directory

/-- Trees with the same entries, up to the order of lines in their files. -/
structure Tree.Reordered (tree other : Tree) : Prop where
  start_eq : tree.start = other.start
  lookup : ∀ location,
    Option.Rel Entry.Reordered (tree.lookup location) (other.lookup location)

theorem Tree.reordered_insert (tree : Tree) {location : Location}
    (hlocation : location ≠ []) {content other : Bytes}
    (h : SameLines content other) :
    (tree.insert location (.file content)).Reordered
      (tree.insert location (.file other)) := by
  refine ⟨rfl, ?_⟩
  intro at_
  rw [Tree.lookup_insert tree hlocation, Tree.lookup_insert tree hlocation]
  split
  · exact .some (.file h)
  · cases tree.lookup at_ with
    | none => exact .none
    | some entry => exact .some (.refl entry)

/-- Lookups that end at the same place. -/
inductive Found.Reordered : Found → Found → Prop
  | file (location : Location) {content other : Bytes}
      (hlines : SameLines content other) :
      Reordered (.file location content) (.file location other)
  | directory (location : Location) :
      Reordered (.directory location) (.directory location)

namespace Tree.Reordered

theorem exists_lookup {tree other : Tree} (h : tree.Reordered other)
    {location : Location} {entry : Entry}
    (hlookup : tree.lookup location = some entry) :
    ∃ entry', other.lookup location = some entry' ∧
      entry.Reordered entry' :=
  exists_of_rel_some (hlookup ▸ h.lookup location)

/-- Following the same steps ends at the same place. -/
theorem walk {tree other : Tree} (h : tree.Reordered other)
    (links : Nat) (directory : Location) (steps : List Step) :
    Option.Rel Found.Reordered (tree.walk links directory steps).toOption
      (other.walk links directory steps).toOption := by
  fun_induction Tree.walk tree links directory steps with
  | case1 links directory =>
      rw [Tree.walk]
      exact .some (.directory directory)
  | case2 links directory rest ih => rwa [Tree.walk]
  | case3 links directory rest ih => rwa [Tree.walk]
  | case4 links directory rest =>
      rw [Tree.walk]
      exact .none
  | case5 links directory name rest hlookup =>
      have hother : other.lookup (name :: directory) = none :=
        eq_none_of_rel_none (hlookup ▸ h.lookup (name :: directory))
      rw [Tree.walk, hother]
      exact .none
  | case6 links directory name rest hlookup ih =>
      obtain ⟨entry, hother, hentry⟩ := h.exists_lookup hlookup
      cases hentry
      rwa [Tree.walk, hother]
  | case7 links directory name rest content hlookup hrest =>
      obtain ⟨entry, hother, hentry⟩ := h.exists_lookup hlookup
      cases hentry with
      | file hlines =>
          rw [Tree.walk, hother]
          simp only [hrest, if_true]
          exact .some (.file _ hlines)
  | case8 links directory name rest content hlookup hrest =>
      obtain ⟨entry, hother, hentry⟩ := h.exists_lookup hlookup
      cases hentry with
      | file hlines =>
          rw [Tree.walk, hother]
          simp only [hrest]
          exact .none
  | case9 directory name rest target hlookup =>
      obtain ⟨entry, hother, hentry⟩ := h.exists_lookup hlookup
      cases hentry
      rw [Tree.walk, hother]
      exact .none
  | case10 directory name rest target hlookup left ih =>
      obtain ⟨entry, hother, hentry⟩ := h.exists_lookup hlookup
      cases hentry
      rwa [Tree.walk, hother]

theorem read {tree other : Tree} (h : tree.Reordered other) (path : Path) :
    Option.Rel SameLines (tree.read path).toOption
      (other.read path).toOption := by
  have hwalk := h.walk maxLinks (origin tree.start path.raw) path.raw.steps
  unfold Tree.read Tree.find Tree.findRaw
  rw [← h.start_eq]
  generalize tree.walk maxLinks _ _ = found at hwalk ⊢
  generalize other.walk maxLinks _ _ = found' at hwalk ⊢
  cases Tree.checkPath path.raw with
  | error => exact .none
  | ok =>
      cases found with
      | error =>
          cases found' with
          | error => exact .none
          | ok => cases hwalk
      | ok =>
          cases found' with
          | error => cases hwalk
          | ok =>
              cases hwalk with
              | some hfound =>
                  cases hfound with
                  | file _ hlines => exact .some hlines
                  | directory => exact .none

end Tree.Reordered

/-- Workspaces that differ only in the order of the lines in their files. -/
structure Workspace.Reordered (workspace other : Workspace) : Prop where
  root_eq : workspace.root = other.root
  tree : workspace.tree.Reordered other.tree

theorem Workspace.Reordered.view {workspace other : Workspace}
    (h : workspace.Reordered other) :
    workspace.view.Reordered other.view := by
  intro path
  have hread := h.tree.read (workspace.root.join path)
  change Option.Rel SameLines (workspace.tree.read _).toOption
    (other.tree.read _).toOption
  rwa [← h.root_eq]

/-! ## What a source reaches does not depend on the order -/

theorem SameLines.perm_lines {content other : Bytes}
    (h : SameLines content other) :
    (Utf8.decodeLossy content).lines.Perm (Utf8.decodeLossy other).lines := by
  rw [Utf8.lines_decodeLossy, Utf8.lines_decodeLossy]
  exact h.map _

theorem LeadsTo.of_reordered {layout : Layout} {view other : SourceView}
    (h : view.Reordered other) {path next : Path}
    (hstep : LeadsTo layout view path next) :
    LeadsTo layout other path next := by
  cases hstep with
  | includes hheader hread hline hpayload =>
      obtain ⟨content', hread', hlines⟩ :=
        exists_of_rel_some (hread ▸ h path)
      exact .includes hheader hread' (hlines.perm_lines.mem_iff.mp hline)
        hpayload
  | relocates hheader hread hrelocate =>
      exact .relocates hheader (eq_none_of_rel_none (hread ▸ h path)) hrelocate

theorem Reaches.of_reordered {layout : Layout} {view other : SourceView}
    (h : view.Reordered other) {file path : Path}
    (hreach : Reaches layout view file path) :
    Reaches layout other file path :=
  Relation.ReflTransGen.mono (fun _ _ => LeadsTo.of_reordered h) _ _ hreach

theorem isSome_read_of_reordered {view other : SourceView}
    (h : view.Reordered other) {path : Path}
    (hread : (view.read path).isSome) : (other.read path).isSome := by
  obtain ⟨content, hcontent⟩ := Option.isSome_iff_exists.mp hread
  obtain ⟨content', hread', -⟩ := exists_of_rel_some (hcontent ▸ h path)
  simp [hread']

/-- By a settled satellite table, the order of lines does not matter. -/
theorem orderIndependent_of_settled {layout : Layout}
    (hsettled : layout.satellites.Settled) : layout.OrderIndependent := by
  have hone : ∀ view other : SourceView, view.Reordered other →
      ∀ file path, path ∈ (resolve layout view file).dependencies →
        path ∈ (resolve layout other file).dependencies := by
    intro view other h file path hpath
    rcases List.mem_cons.mp hpath with rfl | hpath
    · exact List.mem_cons_self
    · apply List.mem_cons_of_mem
      rw [mem_dependencies_walk_iff hsettled] at hpath ⊢
      obtain ⟨hheader, hread, hmarker, hreach⟩ := hpath
      exact ⟨hheader, isSome_read_of_reordered h hread, hmarker,
        hreach.of_reordered h⟩
  intro view other h file path
  exact ⟨hone view other h file path, hone other view h.symm file path⟩

/-- The empty marker excludes every path, so that no header can be missed. -/
theorem orderIndependent_of_marker_eq_nil {layout : Layout}
    (hmarker : layout.sourceMarker = []) : layout.OrderIndependent := by
  have hnone : ∀ view file,
      (resolve layout view file).dependencies = [layout.bootstrapHeader] := by
    intro view file
    rw [dependencies_resolve, List.filter_eq_nil_iff.mpr]
    intro path _
    rw [Layout.lists_iff, hmarker]
    cases path with
    | nil => simp [Text.contains, Text.cutAt?, Text.dropLeading?]
    | cons c path => simp [Text.contains, Text.cutAt?, Text.dropLeading?]
  intro view other _ file path
  rw [hnone, hnone]

end HeaderMake
