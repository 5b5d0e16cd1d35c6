import HeaderMake.Proofs.Tree.Collected
import HeaderMake.Proofs.Tree.Linkless

/-!
# Scanned paths lead to what was scanned

A scan goes down from a directory text, whatever its spelling, but names its files without
the segments of that text that are empty or `.`.  Such segments lead nowhere, so leaving
them out changes no lookup that ends with a name, also where links stand on the way
(`Tree.walk_eq_of_sameMoves`).  The path of a scanned file therefore leads to the file
that the scan has found, unless it is too long to be looked up
(`Tree.find_sourcePath_of_scanned?`).
-/

namespace HeaderMake

/-! ## Steps that lead somewhere -/

/-- The steps that lead to another place, or to none. -/
def Step.moves (steps : List Step) : List Step :=
  steps.filter (· ≠ .here)

/-- Two lists of steps that are the same but for steps that stay, and that both end in a
step that moves. -/
structure Step.SameMoves (steps others : List Step) : Prop where
  moves_eq : moves steps = moves others
  ends : steps.getLast? ≠ some .here
  ends_other : others.getLast? ≠ some .here

namespace Step

@[simp]
theorem moves_append (steps others : List Step) :
    moves (steps ++ others) = moves steps ++ moves others :=
  List.filter_append ..

theorem moves_cons {step : Step} (h : step ≠ .here) (steps : List Step) :
    moves (step :: steps) = step :: moves steps :=
  List.filter_cons_of_pos (by simpa using h)

theorem ends_of_cons {step : Step} {rest : List Step}
    (h : (step :: rest).getLast? ≠ some .here) :
    rest.getLast? ≠ some .here := by
  cases rest with
  | nil => exact nofun
  | cons next rest => rwa [List.getLast?_cons_cons] at h

theorem eq_nil_of_moves {steps : List Step} (h : moves steps = [])
    (hends : steps.getLast? ≠ some .here) : steps = [] := by
  rcases List.eq_nil_or_concat' steps with rfl | ⟨start, last, rfl⟩
  · rfl
  · have hlast : last = .here := by
      have hall := List.filter_eq_nil_iff.mp h last (by simp)
      simpa using hall
    rw [hlast] at hends
    simp at hends

namespace SameMoves

variable {steps others rest : List Step} {step : Step}

theorem symm (h : SameMoves steps others) : SameMoves others steps :=
  ⟨h.moves_eq.symm, h.ends_other, h.ends⟩

theorem eq_nil (h : SameMoves [] others) : others = [] :=
  eq_nil_of_moves h.moves_eq.symm h.ends_other

theorem of_here (h : SameMoves (.here :: rest) others) :
    SameMoves rest others :=
  ⟨h.moves_eq, ends_of_cons h.ends, h.ends_other⟩

theorem append_left (h : SameMoves steps others) (hne : steps ≠ [])
    (start : List Step) : SameMoves (start ++ steps) (start ++ others) := by
  have hne' : others ≠ [] := by
    rintro rfl
    exact hne h.symm.eq_nil
  refine ⟨by rw [moves_append, moves_append, h.moves_eq], ?_, ?_⟩
  · rw [List.getLast?_append_of_ne_nil _ hne]
    exact h.ends
  · rw [List.getLast?_append_of_ne_nil _ hne']
    exact h.ends_other

/-- Up to the first step that moves, only steps that stay can be different. -/
theorem exists_cons (h : SameMoves (step :: rest) others)
    (hstep : step ≠ .here) :
    ∃ stays rest', others = stays ++ step :: rest' ∧
      (∀ other ∈ stays, other = .here) ∧ SameMoves rest rest' := by
  have hmoves := h.moves_eq
  rw [moves_cons hstep] at hmoves
  obtain ⟨stays, rest', rfl, hstays, -, hrest⟩ :=
    List.filter_eq_cons_iff.mp hmoves.symm
  refine ⟨stays, rest', rfl, by simpa using hstays, hrest.symm,
    ends_of_cons h.ends, ?_⟩
  have hends := h.ends_other
  rw [List.getLast?_append_of_ne_nil _ (List.cons_ne_nil _ _)] at hends
  exact ends_of_cons hends

end SameMoves
end Step

namespace Tree

variable {tree : Tree}

theorem walk_stays {stays : List Step} (h : ∀ other ∈ stays, other = .here)
    (links : Nat) (directory : Location) (steps : List Step) :
    tree.walk links directory (stays ++ steps) =
      tree.walk links directory steps := by
  induction stays with
  | nil => rfl
  | cons first stays ih =>
      obtain ⟨rfl, hstays⟩ := List.forall_mem_cons.mp h
      rw [List.cons_append, walk, ih hstays]

/-- A walk by other steps with the same moves begins with the same move. -/
theorem exists_walk_cons (tree : Tree) {step : Step} {rest others : List Step}
    (h : Step.SameMoves (step :: rest) others) (hstep : step ≠ .here) :
    ∃ rest', Step.SameMoves rest rest' ∧
      ∀ links directory, tree.walk links directory others =
        tree.walk links directory (step :: rest') := by
  obtain ⟨stays, rest', rfl, hstays, hrest⟩ := h.exists_cons hstep
  exact ⟨rest', hrest, fun links directory =>
    walk_stays hstays links directory (step :: rest')⟩

/-- Steps that stay make no difference before the last step. -/
theorem walk_eq_of_sameMoves {steps others : List Step}
    (h : Step.SameMoves steps others) (links : Nat) (directory : Location) :
    tree.walk links directory steps = tree.walk links directory others := by
  fun_induction Tree.walk tree links directory steps generalizing others with
  | case1 => rw [h.eq_nil, walk]
  | case2 _ _ _ ih => exact ih h.of_here
  | case3 _ _ _ ih =>
      obtain ⟨rest', hrest, hwalk⟩ := tree.exists_walk_cons h (by simp)
      rw [hwalk, walk, ih hrest]
  | case4 =>
      obtain ⟨rest', hrest, hwalk⟩ := tree.exists_walk_cons h (by simp)
      rw [hwalk, walk]
  | case5 _ _ _ _ hentry =>
      obtain ⟨rest', hrest, hwalk⟩ := tree.exists_walk_cons h (by simp)
      rw [hwalk, walk, hentry]
  | case6 _ _ _ _ hentry ih =>
      obtain ⟨rest', hrest, hwalk⟩ := tree.exists_walk_cons h (by simp)
      rw [hwalk, walk, hentry, ih hrest]
  | case7 _ _ _ _ _ hentry hlast =>
      obtain ⟨rest', hrest, hwalk⟩ := tree.exists_walk_cons h (by simp)
      rw [List.isEmpty_iff.mp hlast] at hrest
      rw [hwalk, walk, hentry, hrest.eq_nil]
      rfl
  | case8 _ _ _ _ _ hentry hlast =>
      obtain ⟨rest', hrest, hwalk⟩ := tree.exists_walk_cons h (by simp)
      have hmore : rest' ≠ [] := by
        rintro rfl
        exact hlast (List.isEmpty_iff.mpr hrest.symm.eq_nil)
      rw [hwalk, walk, hentry]
      simp [hmore]
  | case9 _ _ _ _ hentry =>
      obtain ⟨rest', hrest, hwalk⟩ := tree.exists_walk_cons h (by simp)
      rw [hwalk, walk, hentry]
  | case10 directory name rest target hentry left ih =>
      obtain ⟨rest', hrest, hwalk⟩ := tree.exists_walk_cons h (by simp)
      rw [hwalk, walk, hentry]
      by_cases hempty : rest = []
      · rw [hempty] at hrest
        rw [hempty, hrest.eq_nil]
      · exact ih (hrest.append_left hempty _)

/-- A file at which a walk ends stands where the walk has come to. -/
theorem lookup_of_walk {links : Nat} {directory location : Location}
    {steps : List Step} {content : Bytes}
    (h : tree.walk links directory steps = .ok (.file location content)) :
    tree.lookup location = some (.file content) := by
  fun_induction Tree.walk tree links directory steps with
  | case1 => cases h
  | case2 _ _ _ ih => exact ih h
  | case3 _ _ _ ih => exact ih h
  | case4 => cases h
  | case5 => cases h
  | case6 _ _ _ _ _ ih => exact ih h
  | case7 _ _ _ _ _ hentry =>
      cases h
      exact hentry
  | case8 => cases h
  | case9 => cases h
  | case10 _ _ _ _ _ _ ih => exact ih h

end Tree

/-! ## Paths and their moves -/

theorem Step.ofSegment_eq_here_iff {segment : Bytes} :
    ofSegment segment = .here ↔ segment = [] ∨ segment = [RawPath.dot] := by
  unfold ofSegment
  split
  · next hstays => exact ⟨fun _ => hstays, fun _ => rfl⟩
  · next hmoves =>
    refine ⟨fun h => ?_, fun h => absurd h hmoves⟩
    split at h
    · cases h
    · split at h <;> cases h

theorem Step.ofSegment_eq_overlong_of_nul {segment : Bytes}
    (h : 0 ∈ segment) : ofSegment segment = .overlong := by
  have hne : segment ≠ [] ∧ segment ≠ [RawPath.dot] ∧
      segment ≠ [RawPath.dot, RawPath.dot] := by
    refine ⟨?_, ?_, ?_⟩ <;> (rintro rfl; revert h; decide)
  have hname : ¬Name.Valid segment := fun hvalid => hvalid.2.2.2.2.1 h
  rw [ofSegment, if_neg (by simp [hne]), if_neg hne.2.2, dif_neg hname]

namespace RawPath

theorem exists_segment_of_mem {path : RawPath} {byte : UInt8} (h : byte ∈ path)
    (hne : byte ≠ slash) : ∃ segment ∈ path.splitOn slash, byte ∈ segment := by
  have hsegments : byte ∈ (path.splitOn slash).flatMap (· ++ [slash]) := by
    rw [flatMap_splitOn]
    exact List.mem_append_left _ h
  obtain ⟨segment, hsegment, hbyte⟩ := List.mem_flatMap.mp hsegments
  exact ⟨segment, hsegment, by simpa [hne] using hbyte⟩

/-- The steps that move are those of the segments that name something. -/
theorem moves_steps (path : RawPath) :
    Step.moves path.steps = path.plainSegments.map Step.ofSegment := by
  rw [Step.moves, steps, List.filter_map, plainSegments]
  congr 1
  apply List.filter_congr
  intro segment _
  rw [Bool.eq_iff_iff]
  simp [Step.ofSegment_eq_here_iff]

theorem getLast?_steps_join (root : RawPath) {path : RawPath}
    (h : path.isAbsolute = false) :
    (root.join path).steps.getLast? = path.steps.getLast? := by
  obtain ⟨steps, -, hjoin⟩ := root.exists_steps_join_of_relative
  rw [hjoin path h, List.getLast?_append_of_ne_nil]
  exact mt List.map_eq_nil_iff.mp (List.splitOn_ne_nil _ _)

theorem ends_descend (path : RawPath) {names : List Name} (hne : names ≠ []) :
    (path.descend names).steps.getLast? ≠ some .here := by
  obtain ⟨start, last, rfl⟩ := (List.eq_nil_or_concat' names).resolve_left hne
  have hdescend : path.descend (start ++ [last]) =
      (path.descend start).join last.bytes :=
    List.foldl_append ..
  rw [hdescend, getLast?_steps_join _ last.isAbsolute_bytes, last.steps_bytes]
  exact nofun

end RawPath

namespace Tree

variable {tree : Tree} {root directory : Path} {segments : List Text}
variable {names : List Name}

/-! ## Source paths -/

/-- A source path has nothing but plain segments. -/
theorem plainSegments_sourcePath
    (h : root.segmentsBelow? directory = some segments) (hne : names ≠ []) :
    (sourcePath segments names).plainSegments =
      segments ++ names.map Name.text := by
  rw [Path.plainSegments, splitOn_sourcePath
    (fun segment hmem => (Path.slash_not_mem_segmentsBelow h hmem).1) hne]
  apply List.filter_eq_self.mpr
  intro segment hsegment
  rcases List.mem_append.mp hsegment with hbefore | hname
  · simpa using (Path.slash_not_mem_segmentsBelow h hbefore).2
  · obtain ⟨name, -, rfl⟩ := List.mem_map.mp hname
    simp [name.text_ne_nil, name.text_ne_dot]

theorem isAbsolute_sourcePath
    (h : root.segmentsBelow? directory = some segments) (hne : names ≠ []) :
    (sourcePath segments names).isAbsolute = false := by
  apply Path.isAbsolute_eq_false_of_splitOn
  rw [splitOn_sourcePath
    (fun segment hmem => (Path.slash_not_mem_segmentsBelow h hmem).1) hne,
    List.mem_append, not_or]
  constructor
  · exact fun hempty => (Path.slash_not_mem_segmentsBelow h hempty).2.1 rfl
  · intro hempty
    obtain ⟨name, -, hname⟩ := List.mem_map.mp hempty
    exact name.text_ne_nil hname

theorem map_encode_text (hunicode : ∀ name ∈ names, name.Unicode) :
    (names.map Name.text).map Utf8.encode = names.map Name.bytes := by
  rw [List.map_map]
  exact List.map_congr_left hunicode

/-- The last segment of a source path is the last name. -/
theorem ends_sourcePath (h : root.segmentsBelow? directory = some segments)
    (hne : names ≠ []) (hunicode : ∀ name ∈ names, name.Unicode) :
    (sourcePath segments names).raw.steps.getLast? ≠ some .here := by
  obtain ⟨start, last, rfl⟩ := (List.eq_nil_or_concat' names).resolve_left hne
  have hlast : Utf8.encode last.text = last.bytes := hunicode last (by simp)
  rw [RawPath.steps, Path.splitOn_raw, splitOn_sourcePath
    (fun segment hmem => (Path.slash_not_mem_segmentsBelow h hmem).1) hne]
  simp [hlast, Step.ofSegment_bytes]

/-- The path of a file below a directory text moves as the scan does. -/
theorem sameMoves_sourcePath
    (h : root.segmentsBelow? directory = some segments) (hne : names ≠ [])
    (hunicode : ∀ name ∈ names, name.Unicode) :
    Step.SameMoves ((root.join directory).raw.descend names).steps
      (root.join (sourcePath segments names)).raw.steps := by
  have hsource := isAbsolute_sourcePath h hne
  refine ⟨?_, RawPath.ends_descend _ hne, ?_⟩
  · have hsegments : ((root.join directory).raw.descend names).plainSegments =
        (root.join (sourcePath segments names)).raw.plainSegments :=
      calc
        _ = (root.plainSegments ++ segments).map Utf8.encode ++
            names.map Name.bytes := by
          rw [RawPath.plainSegments_descend, Path.plainSegments_raw,
            (Path.join_of_segmentsBelow? h).2]
        _ = (root.plainSegments ++ (segments ++ names.map Name.text)).map
            Utf8.encode := by
          rw [← map_encode_text hunicode, ← List.map_append,
            List.append_assoc]
        _ = _ := by
          rw [← plainSegments_sourcePath h hne, ← Path.plainSegments_join root
            hsource, Path.plainSegments_raw]
    rw [RawPath.moves_steps, RawPath.moves_steps, hsegments]
  · rw [Path.raw_join, RawPath.getLast?_steps_join _
      (by rw [Path.isAbsolute_raw, hsource])]
    exact ends_sourcePath h hne hunicode

/-! ## From the scan to the lookup -/

/-- Names that lead to a file on a scan lead to it as a path, from the path of the
directory in which the scan began. -/
theorem walk_descend_of_scanned? {recursive : Bool} {opened : List Location}
    {start location : Location} {path : RawPath}
    (hfind : tree.findRaw path = .ok (.directory start))
    (h : tree.scanned? recursive opened start path names = some location) :
    ∃ content,
      tree.walk maxLinks (origin tree.start (path.descend names))
        (path.descend names).steps = .ok (.file location content) := by
  induction names generalizing opened start path with
  | nil => cases h
  | cons name rest ih =>
      rw [scanned?] at h
      cases hpassage : tree.passage? recursive opened start path name with
      | none =>
          rw [hpassage] at h
          cases h
      | some passage =>
          rw [hpassage] at h
          cases passage with
          | directory target => exact ih (find_of_passage? hfind hpassage) h
          | file found =>
              by_cases hrest : rest = []
              · simp only [hrest, if_true, Option.some_inj] at h
                subst h hrest
                cases (stands_of_passage? hpassage).1 with
                | linkedFile _ hlink => exact ⟨_, walk_of_findRaw hlink⟩
                | file hentry =>
                    obtain ⟨left, hleft⟩ := walk_join_of_relative
                      name.isAbsolute_bytes (walk_of_findRaw hfind)
                    rw [name.steps_bytes, walk, hentry] at hleft
                    exact ⟨_, hleft⟩
              · simp [hrest] at h

/-- A path that can be followed can be looked up, if it is not too long. -/
theorem findRaw_of_walk {path : RawPath} {found : Found}
    (h : tree.walk maxLinks (origin tree.start path) path.steps = .ok found)
    (hlength : path.length ≤ maxPathBytes) :
    tree.findRaw path = .ok found := by
  have hnul : 0 ∉ path := by
    intro hmem
    -- A segment with this byte is no name, and no walk gets past it.
    obtain ⟨segment, hsegment, hin⟩ :=
      RawPath.exists_segment_of_mem hmem (by decide)
    apply overlong_not_mem_of_walk h
    rw [← Step.ofSegment_eq_overlong_of_nul hin]
    exact List.mem_map_of_mem hsegment
  rw [findRaw, checkPath_eq_ok_iff.mpr ⟨hnul, hlength⟩]
  exact h

/-- The path of a scanned file leads to the file that the scan has found, if the names
that lead down to it are Unicode. -/
theorem find_sourcePath_of_scanned?
    (hbelow : root.segmentsBelow? directory = some segments)
    (hunicode : ∀ name ∈ names, name.Unicode)
    {recursive : Bool} {start location : Location}
    (hfind : tree.find (root.join directory) = .ok (.directory start))
    (h : tree.scanned? recursive [start] start (root.join directory).raw
      names = some location)
    (hlength : Text.byteLength (root.join (sourcePath segments names)) ≤
      maxPathBytes) :
    ∃ content,
      tree.find (root.join (sourcePath segments names)) =
          .ok (.file location content) ∧
        tree.lookup location = some (.file content) := by
  have hne : names ≠ [] := by
    rintro rfl
    cases h
  obtain ⟨content, hwalk⟩ := walk_descend_of_scanned? hfind h
  have horigin : origin tree.start ((root.join directory).raw.descend names) =
      origin tree.start (root.join (sourcePath segments names)).raw := by
    rw [origin, origin, RawPath.isAbsolute_descend, Path.isAbsolute_raw,
      Path.isAbsolute_raw, (Path.join_of_segmentsBelow? hbelow).1,
      root.isAbsolute_join_of_relative (isAbsolute_sourcePath hbelow hne)]
  rw [walk_eq_of_sameMoves (sameMoves_sourcePath hbelow hne hunicode),
    horigin] at hwalk
  rw [← Utf8.length_encode] at hlength
  exact ⟨content, findRaw_of_walk hwalk hlength, lookup_of_walk hwalk⟩

end Tree
end HeaderMake
