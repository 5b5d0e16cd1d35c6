import HeaderMake.Proofs.Tree.Encoded
import HeaderMake.Tree.Lookup

/-!
# Entries of a directory by path

If a path leads to a directory, then the path joined with a name leads to what stands
under that name in the directory (`Tree.find_join`), unless the joined path is too long
to be looked up at all.
-/

namespace HeaderMake

/-! ## Steps of joined paths -/

theorem Step.ofSegment_bytes (name : Name) :
    Step.ofSegment name.bytes = .name name := by
  obtain ⟨hne, hdot, hdots, -, -, -⟩ := name.valid
  rw [Step.ofSegment, if_neg (by simp [hne, hdot]), if_neg hdots,
    dif_pos name.valid]

/-- The meaning of a segment that is a text. -/
theorem Step.ofSegment_encode (segment : Text) :
    ofSegment (Utf8.encode segment) =
      if segment = [] ∨ segment = ['.'] then .here
      else if segment = ['.', '.'] then .parent
      else if h : Name.Valid (Utf8.encode segment) then .name ⟨_, h⟩
      else .overlong := by
  have hdot : Utf8.encode segment = [RawPath.dot] ↔ segment = ['.'] :=
    Utf8.encode_injective.eq_iff' rfl
  have hdots : Utf8.encode segment = [RawPath.dot, RawPath.dot] ↔
      segment = ['.', '.'] := Utf8.encode_injective.eq_iff' rfl
  simp only [ofSegment, Utf8.encode_eq_nil_iff, hdot, hdots]

theorem Name.isAbsolute_bytes (name : Name) :
    RawPath.isAbsolute name.bytes = false := by
  obtain ⟨-, -, -, hslash, -, -⟩ := name.valid
  cases hbytes : name.bytes with
  | nil => rfl
  | cons byte rest =>
      rw [hbytes, List.mem_cons, not_or] at hslash
      simp [RawPath.isAbsolute, Ne.symm hslash.1]

theorem Name.splitOn_bytes (name : Name) :
    name.bytes.splitOn RawPath.slash = [name.bytes] := by
  obtain ⟨-, -, -, hslash, -, -⟩ := name.valid
  exact List.splitOn_eq_singleton hslash

theorem Name.steps_bytes (name : Name) :
    RawPath.steps name.bytes = [.name name] := by
  rw [RawPath.steps, name.splitOn_bytes, List.map_singleton,
    Step.ofSegment_bytes]

namespace RawPath

/-- The segments of a relative path come after those of the path that it is joined to,
apart from the empty segment behind the slash at the end of that one. -/
theorem exists_segments_join_of_relative (root : RawPath) :
    ∃ segments, (root.splitOn slash = segments ∨
        root.splitOn slash = segments ++ [[]]) ∧
      ∀ path : RawPath, path.isAbsolute = false →
        (root.join path).splitOn slash = segments ++ path.splitOn slash := by
  by_cases hempty : root = []
  · -- The empty path has one segment, which is empty, as after a slash.
    subst hempty
    refine ⟨[], .inr (List.splitOn_nil _), fun path _ => ?_⟩
    rw [join, List.isEmpty_nil, Bool.or_true, if_pos rfl, List.nil_append]
  · have hjoin : ∀ path : RawPath, path.isAbsolute = false →
        root.join path =
          if root.getLast? == some slash then root ++ path
          else root ++ slash :: path := by
      intro path hpath
      rw [join, hpath]
      simp [hempty]
    by_cases hslash : root.getLast? = some slash
    · obtain ⟨start, rfl⟩ := List.getLast?_eq_some_iff.mp hslash
      refine ⟨start.splitOn slash, .inr ?_, fun path hpath => ?_⟩
      · rw [List.splitOn_append_cons_self, List.splitOn_nil]
      · rw [hjoin path hpath, hslash, beq_self_eq_true, if_pos rfl,
          List.append_assoc, List.singleton_append,
          List.splitOn_append_cons_self]
    · refine ⟨root.splitOn slash, .inl rfl, fun path hpath => ?_⟩
      rw [hjoin path hpath, if_neg (by simpa using hslash),
        List.splitOn_append_cons_self]

theorem exists_steps_join_of_relative (root : RawPath) :
    ∃ steps, (root.steps = steps ∨ root.steps = steps ++ [.here]) ∧
      ∀ path : RawPath, path.isAbsolute = false →
        (root.join path).steps = steps ++ path.steps := by
  obtain ⟨segments, hroot, hjoin⟩ := root.exists_segments_join_of_relative
  refine ⟨segments.map Step.ofSegment, ?_, fun path hpath => ?_⟩
  · rcases hroot with heq | heq
    · exact .inl (by rw [steps, heq])
    · refine .inr ?_
      rw [steps, heq, List.map_append]
      rfl
  · rw [steps, hjoin path hpath, List.map_append, steps]

theorem isAbsolute_join_of_relative (root : RawPath) {path : RawPath}
    (h : path.isAbsolute = false) :
    (root.join path).isAbsolute = root.isAbsolute := by
  cases root with
  | nil =>
      rw [join, List.isEmpty_nil, Bool.or_true, if_pos rfl, h]
      rfl
  | cons byte rest =>
      rw [join, h]
      simp only [List.isEmpty_cons, Bool.or_false, Bool.false_eq_true, if_false]
      split <;> rfl

theorem sublist_join (root path : RawPath) :
    List.Sublist path (root.join path) := by
  unfold join
  split
  · exact List.Sublist.refl _
  · split
    · exact List.sublist_append_right _ _
    · exact (List.sublist_cons_self _ _).trans (List.sublist_append_right _ _)

theorem sublist_join_left (root : RawPath) {path : RawPath}
    (h : path.isAbsolute = false) : List.Sublist root (root.join path) := by
  rw [join, h, Bool.false_or]
  split
  · next hempty =>
    rw [List.isEmpty_iff.mp hempty]
    exact List.nil_sublist _
  · split <;> exact List.sublist_append_left _ _

theorem join_sublist_join (root : RawPath) {path other : RawPath}
    (hpath : path.isAbsolute = false) (hother : other.isAbsolute = false)
    (h : List.Sublist path other) :
    List.Sublist (root.join path) (root.join other) := by
  rw [join, join, hpath, hother, Bool.false_or]
  split
  · exact h
  · split
    · exact h.append_left root
    · exact (h.cons_cons slash).append_left root

end RawPath

namespace Path

/-- The steps of a path text. -/
def steps (path : Path) : List Step :=
  path.raw.steps

theorem steps_eq_map (path : Path) :
    path.steps = (path.splitOn '/').map (Step.ofSegment ∘ Utf8.encode) := by
  rw [steps, RawPath.steps, splitOn_raw, List.map_map]

theorem exists_steps_join_of_relative (root : Path) :
    ∃ steps, (root.steps = steps ∨ root.steps = steps ++ [.here]) ∧
      ∀ path : Path, path.isAbsolute = false →
        (root.join path).steps = steps ++ path.steps := by
  obtain ⟨steps, hroot, hjoin⟩ := root.raw.exists_steps_join_of_relative
  refine ⟨steps, hroot, fun path hpath => ?_⟩
  rw [Path.steps, raw_join, hjoin path.raw (by rw [isAbsolute_raw, hpath]),
    Path.steps]

theorem isAbsolute_join_of_relative (root : Path) {path : Path}
    (h : path.isAbsolute = false) :
    (root.join path).isAbsolute = root.isAbsolute := by
  rw [← isAbsolute_raw, raw_join, RawPath.isAbsolute_join_of_relative _
    (by rw [isAbsolute_raw, h]), isAbsolute_raw]

theorem join_of_isAbsolute (root : Path) {path : Path}
    (h : path.isAbsolute = true) : root.join path = path := by
  rw [join, h, Bool.true_or, if_pos rfl]

end Path

namespace Tree

variable {tree : Tree}

/-! ## Paths that can be looked up -/

theorem origin_raw (directory : Location) (path : Path) :
    origin directory path.raw =
      if path.isAbsolute then [] else directory := by
  rw [origin, Path.isAbsolute_raw]

theorem checkPath_eq_ok_iff {path : RawPath} :
    checkPath path = .ok () ↔ 0 ∉ path ∧ path.length ≤ maxPathBytes := by
  unfold checkPath
  split
  · simp_all
  · split
    · simp_all
    · simp_all

theorem checkPath_of_findRaw {path : RawPath} {found : Found}
    (h : tree.findRaw path = .ok found) :
    checkPath path = .ok () := by
  cases hcheck : checkPath path with
  | ok _ => rfl
  | error cause =>
      rw [findRaw, hcheck] at h
      cases h

/-- Leaving bytes out of a path that can be looked up does no harm. -/
theorem checkPath_of_sublist {path other : RawPath}
    (h : List.Sublist path other) (hother : checkPath other = .ok ()) :
    checkPath path = .ok () := by
  obtain ⟨hnul, hlength⟩ := checkPath_eq_ok_iff.mp hother
  exact checkPath_eq_ok_iff.mpr ⟨fun hmem => hnul (h.subset hmem),
    Nat.le_trans h.length_le hlength⟩

/-- A joined path can be looked up if it is not too long. -/
theorem checkPath_join {path : RawPath} {name : Name}
    (hpath : checkPath path = .ok ())
    (hlength : (path.join name.bytes).length ≤ maxPathBytes) :
    checkPath (path.join name.bytes) = .ok () := by
  obtain ⟨-, -, -, -, hname, -⟩ := name.valid
  have hnul := (checkPath_eq_ok_iff.mp hpath).1
  refine checkPath_eq_ok_iff.mpr ⟨?_, hlength⟩
  have hslash : (0 : UInt8) ≠ RawPath.slash := by decide
  unfold RawPath.join
  split
  · exact hname
  · split
    · simp [hnul, hname]
    · simp [hnul, hname, hslash]

/-! ## Walks that go on from a directory -/

/-- A lookup that finds something is the walk along the steps of its path. -/
theorem walk_of_findRaw {path : RawPath} {found : Found}
    (h : tree.findRaw path = .ok found) :
    tree.walk maxLinks (origin tree.start path) path.steps = .ok found := by
  rw [findRaw, checkPath_of_findRaw h] at h
  exact h

theorem walk_append {links : Nat} {directory target : Location}
    {steps : List Step}
    (h : tree.walk links directory steps = .ok (.directory target)) :
    ∃ left, ∀ more,
      tree.walk links directory (steps ++ more) = tree.walk left target more := by
  fun_induction Tree.walk tree links directory steps with
  | case1 links =>
      cases h
      exact ⟨links, fun more => rfl⟩
  | case2 _ _ _ ih =>
      obtain ⟨left, hleft⟩ := ih h
      refine ⟨left, fun more => ?_⟩
      rw [List.cons_append, walk, hleft]
  | case3 _ _ _ ih =>
      obtain ⟨left, hleft⟩ := ih h
      refine ⟨left, fun more => ?_⟩
      rw [List.cons_append, walk, hleft]
  | case4 => cases h
  | case5 => cases h
  | case6 _ _ _ _ hentry ih =>
      obtain ⟨left, hleft⟩ := ih h
      refine ⟨left, fun more => ?_⟩
      rw [List.cons_append, walk, hentry]
      exact hleft more
  | case7 => cases h
  | case8 => cases h
  | case9 => cases h
  | case10 _ _ _ _ hentry _ ih =>
      obtain ⟨left, hleft⟩ := ih h
      refine ⟨left, fun more => ?_⟩
      rw [List.cons_append, walk, hentry]
      simp only [← List.append_assoc]
      exact hleft more

/-- A slash at the end of a path that leads to a directory changes nothing. -/
theorem walk_of_append_here {links : Nat} {directory target : Location}
    {steps : List Step}
    (h : tree.walk links directory (steps ++ [.here]) =
      .ok (.directory target)) :
    tree.walk links directory steps = .ok (.directory target) := by
  fun_induction Tree.walk tree links directory steps with
  | case1 =>
      rwa [List.nil_append, walk, walk] at h
  | case2 _ _ _ ih =>
      rw [List.cons_append, walk] at h
      exact ih h
  | case3 _ _ _ ih =>
      rw [List.cons_append, walk] at h
      exact ih h
  | case4 =>
      rw [List.cons_append, walk] at h
      cases h
  | case5 _ _ _ _ hentry =>
      rw [List.cons_append, walk, hentry] at h
      cases h
  | case6 _ _ _ _ hentry ih =>
      rw [List.cons_append, walk, hentry] at h
      exact ih h
  | case7 _ _ _ _ _ hentry _ =>
      rw [List.cons_append, walk, hentry] at h
      simp at h
  | case8 _ _ _ _ _ hentry _ =>
      rw [List.cons_append, walk, hentry] at h
      simp at h
  | case9 _ _ _ _ hentry =>
      rw [List.cons_append, walk, hentry] at h
      cases h
  | case10 _ _ _ _ hentry _ ih =>
      rw [List.cons_append, walk, hentry] at h
      simp only [← List.append_assoc] at h
      exact ih h

/-- The steps of a path that leads to a directory, joined with a relative path, lead on
from the directory by the steps of that path. -/
theorem walk_join_of_relative {path rest : RawPath} {directory : Location}
    (hrest : rest.isAbsolute = false)
    (hwalk : tree.walk maxLinks (origin tree.start path) path.steps =
      .ok (.directory directory)) :
    ∃ left, tree.walk maxLinks (origin tree.start (path.join rest))
      (path.join rest).steps = tree.walk left directory rest.steps := by
  have horigin : origin tree.start (path.join rest) =
      origin tree.start path := by
    rw [origin, origin, path.isAbsolute_join_of_relative hrest]
  obtain ⟨steps, hpath, hjoin⟩ := path.exists_steps_join_of_relative
  have hsteps : tree.walk maxLinks (origin tree.start path) steps =
      .ok (.directory directory) := by
    rcases hpath with heq | heq
    · rwa [heq] at hwalk
    · rw [heq] at hwalk
      exact walk_of_append_here hwalk
  obtain ⟨left, hleft⟩ := walk_append hsteps
  exact ⟨left, by rw [horigin, hjoin rest hrest, hleft]⟩

/-- A path that leads to a directory, joined with a relative path, is looked up by the
steps of that path from the directory. -/
theorem find_join_of_relative {path rest : RawPath} {directory : Location}
    (hrest : rest.isAbsolute = false)
    (hfind : tree.findRaw path = .ok (.directory directory))
    (hcheck : checkPath (path.join rest) = .ok ()) :
    ∃ left, tree.findRaw (path.join rest) =
      tree.walk left directory rest.steps := by
  obtain ⟨left, hleft⟩ := walk_join_of_relative hrest (walk_of_findRaw hfind)
  refine ⟨left, ?_⟩
  rw [findRaw, hcheck]
  exact hleft

/-- A path that leads to a directory, joined with a name, is looked up by one more step
from that directory. -/
theorem find_join {path : RawPath} {directory : Location} (name : Name)
    (hfind : tree.findRaw path = .ok (.directory directory))
    (hcheck : checkPath (path.join name.bytes) = .ok ()) :
    ∃ left, tree.findRaw (path.join name.bytes) =
      tree.walk left directory [.name name] := by
  rw [← name.steps_bytes]
  exact find_join_of_relative name.isAbsolute_bytes hfind hcheck

/-- A directory inside a directory is found by its name, unless the joined path is too
long to be looked up. -/
theorem find_join_directory {path : RawPath} {directory : Location} {name : Name}
    (hfind : tree.findRaw path = .ok (.directory directory))
    (hentry : tree.lookup (name :: directory) = some .directory) :
    tree.findRaw (path.join name.bytes) =
      (checkPath (path.join name.bytes)).map
        fun _ => .directory (name :: directory) := by
  cases hcheck : checkPath (path.join name.bytes) with
  | error cause =>
      rw [findRaw, hcheck]
      rfl
  | ok _ =>
      obtain ⟨left, hleft⟩ := find_join name hfind hcheck
      rw [hleft, walk, hentry]
      simp only [walk]
      rfl

end Tree
end HeaderMake
