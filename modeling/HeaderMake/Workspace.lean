import HeaderMake.Include.Walk
import HeaderMake.Tree.Scan

/-!
# Workspaces

A `Workspace` is a file tree together with the directory text from which source paths
are taken.  It is what a run reads from and writes to, and it gives the include walk its
view of the files.

The view is finite because a path of more than `maxPathBytes` bytes is never looked up.
-/

namespace HeaderMake

/-- Every text of at most `n` characters is in a finite list. -/
theorem exists_list_of_length_le (n : Nat) :
    ∃ texts : List Text, ∀ text : Text, text.length ≤ n → text ∈ texts := by
  induction n with
  | zero => exact ⟨[[]], by simp⟩
  | succ n ih =>
    obtain ⟨texts, htexts⟩ := ih
    refine ⟨[] :: (List.range 0x110000).flatMap fun code =>
      texts.map (Char.ofNat code :: ·), ?_⟩
    intro text hlength
    cases text with
    | nil => simp
    | cons c text =>
      refine List.mem_cons_of_mem _ (List.mem_flatMap.2 ⟨c.toNat, ?_, ?_⟩)
      · have hvalid : c.toNat < 0x110000 := by
          have := c.valid
          simp only [UInt32.isValidChar, Nat.isValidChar, Char.toNat] at this ⊢
          omega
        exact List.mem_range.2 hvalid
      · rw [Char.ofNat_toNat]
        exact List.mem_map_of_mem (htexts text (by simpa using hlength))

/-- Taking a path from a directory does not make it shorter. -/
theorem Path.length_le_length_join (root path : Path) :
    path.length ≤ (Path.join root path).length := by
  unfold Path.join
  split
  · exact Nat.le_refl _
  · split
    · simp
    · simp only [List.length_append, List.length_cons]
      omega

/-- A path that can be read is no longer than a path may be. -/
theorem Tree.length_le_of_read {tree : Tree} {path : Path} {content : Bytes}
    (h : tree.read path = .ok content) : path.length ≤ maxPathBytes := by
  have hbytes : path.length ≤ path.raw.length := by
    rw [Path.raw, Utf8.length_encode]
    exact Text.length_le_byteLength path
  by_cases hlong : maxPathBytes < path.raw.length
  · by_cases hnul : 0 ∈ path.raw <;>
      simp [Tree.read, Tree.find, Tree.findRaw, Tree.checkPath, hlong, hnul, bind,
        Except.bind] at h
  · omega

/-- A file tree, and the directory in it that source paths are taken from.  The empty text
is no path of the system, and the command line takes none for the directory; here it
stands for `.`, with nothing written in front of a path. -/
structure Workspace where
  tree : Tree
  root : Path

namespace Workspace

/-- The bytes of the file that a source path leads to. -/
def read (workspace : Workspace) (path : Path) : Except FileError Bytes :=
  workspace.tree.read (workspace.root.join path)

/-- The workspace after a text has been written to a source path. -/
def write (workspace : Workspace) (path : Path) (contents : Text) :
    Except FileError Workspace := do
  let tree ← workspace.tree.write (workspace.root.join path) (Utf8.encode contents)
  return { workspace with tree }

/-- The files of the workspace, as the include walk sees them. -/
def view (workspace : Workspace) : SourceView where
  read path := (workspace.read path).toOption
  finite := by
    obtain ⟨texts, htexts⟩ := exists_list_of_length_le maxPathBytes
    refine ⟨texts, fun path hread => htexts path ?_⟩
    cases h : workspace.read path with
    | error cause => simp [h, Except.toOption] at hread
    | ok content =>
      exact Nat.le_trans (Path.length_le_length_join workspace.root path)
        (Tree.length_le_of_read h)

end Workspace
end HeaderMake
