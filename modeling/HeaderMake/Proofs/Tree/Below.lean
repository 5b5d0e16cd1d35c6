import HeaderMake.Proofs.Tree.Joining

/-!
# Paths below a root

What is left of a path when a root is taken off in front of it are the segments that follow
those of the root (`RawPath.below?_eq_some_iff`).  Names put their bytes behind the segments
of the directory in which they are looked up, so below a directory text the segments from
the root to that text come first, whether the text is relative or begins with the root
(`Path.below?_descend`).

Read as a text, what is left tells names apart if all of them are Unicode
(`RawPath.descend_relative?_inj`).
-/

namespace HeaderMake

/-! ## Segments of joined paths -/

namespace RawPath

theorem plainSegments_join (root : RawPath) {path : RawPath}
    (h : path.isAbsolute = false) :
    (root.join path).plainSegments =
      root.plainSegments ++ path.plainSegments := by
  obtain ⟨segments, hroot, hjoin⟩ := root.exists_segments_join_of_relative
  rw [plainSegments, hjoin path h, List.filter_append, plainSegments,
    plainSegments]
  rcases hroot with heq | heq
  · rw [heq]
  · rw [heq, List.filter_append]
    simp

theorem plainSegments_bytes (name : Name) :
    RawPath.plainSegments name.bytes = [name.bytes] := by
  obtain ⟨hne, hdot, -, -, -, -⟩ := name.valid
  rw [plainSegments, name.splitOn_bytes]
  simp [hne, hdot]

theorem plainSegments_descend (path : RawPath) (names : List Name) :
    (path.descend names).plainSegments =
      path.plainSegments ++ names.map Name.bytes := by
  induction names generalizing path with
  | nil => exact (List.append_nil _).symm
  | cons name names ih =>
      change ((path.join name.bytes).descend names).plainSegments = _
      rw [ih, plainSegments_join path name.isAbsolute_bytes,
        plainSegments_bytes, List.append_assoc]
      rfl

theorem isAbsolute_descend (path : RawPath) (names : List Name) :
    (path.descend names).isAbsolute = path.isAbsolute := by
  induction names generalizing path with
  | nil => rfl
  | cons name names ih =>
      change ((path.join name.bytes).descend names).isAbsolute = _
      rw [ih, path.isAbsolute_join_of_relative name.isAbsolute_bytes]

theorem below?_eq_some_iff {root path : RawPath} {segments : List Bytes} :
    root.below? path = some segments ↔
      root.isAbsolute = path.isAbsolute ∧
        path.plainSegments = root.plainSegments ++ segments := by
  unfold below?
  split
  · next heq =>
    rw [List.isPrefixOf?_eq_some_iff_append_eq]
    exact ⟨fun h => ⟨heq, h.symm⟩, fun h => h.2.symm⟩
  · next hne => exact ⟨nofun, fun h => absurd h.1 hne⟩

end RawPath

/-! ## Directory texts below a root -/

namespace Path

theorem plainSegments_join (root : Path) {path : Path}
    (h : path.isAbsolute = false) :
    (root.join path).plainSegments =
      root.plainSegments ++ path.plainSegments := by
  apply List.map_injective_iff.mpr Utf8.encode_injective
  rw [← plainSegments_raw, raw_join, List.map_append, ← plainSegments_raw,
    ← plainSegments_raw]
  exact RawPath.plainSegments_join _ (by rw [isAbsolute_raw, h])

/-- The segments that lead from a root to a directory text, if it lies below: a relative
text does, since it is taken from the root, and an absolute one has to begin with the
segments of the root. -/
def segmentsBelow? (root directory : Path) : Option (List Text) :=
  if directory.isAbsolute then
    if root.isAbsolute then
      root.plainSegments.isPrefixOf? directory.plainSegments
    else none
  else some directory.plainSegments

theorem segmentsBelow?_of_relative (root : Path) {directory : Path}
    (h : directory.isAbsolute = false) :
    root.segmentsBelow? directory = some directory.plainSegments := by
  rw [segmentsBelow?, h, if_neg Bool.false_ne_true]

theorem join_of_segmentsBelow? {root directory : Path} {segments : List Text}
    (h : root.segmentsBelow? directory = some segments) :
    (root.join directory).isAbsolute = root.isAbsolute ∧
      (root.join directory).plainSegments =
        root.plainSegments ++ segments := by
  unfold segmentsBelow? at h
  split at h
  · next hdirectory =>
    rw [join_of_isAbsolute root hdirectory]
    split at h
    · next hroot =>
      rw [List.isPrefixOf?_eq_some_iff_append_eq] at h
      exact ⟨hdirectory.trans hroot.symm, h.symm⟩
    · cases h
  · next hdirectory =>
    rw [Bool.not_eq_true] at hdirectory
    cases h
    exact ⟨root.isAbsolute_join_of_relative hdirectory,
      plainSegments_join root hdirectory⟩

/-- Behind the segments of a directory text stand the names that are followed from it. -/
theorem below?_descend {root directory : Path} {segments : List Text}
    (h : root.segmentsBelow? directory = some segments) (names : List Name) :
    root.raw.below? ((root.join directory).raw.descend names) =
      some (segments.map Utf8.encode ++ names.map Name.bytes) := by
  obtain ⟨habsolute, hsegments⟩ := join_of_segmentsBelow? h
  rw [RawPath.below?_eq_some_iff, RawPath.isAbsolute_descend, isAbsolute_raw,
    isAbsolute_raw, RawPath.plainSegments_descend, plainSegments_raw,
    plainSegments_raw, hsegments, List.map_append, List.append_assoc]
  exact ⟨habsolute.symm, rfl⟩

theorem slash_not_mem_segmentsBelow {root directory : Path}
    {segments : List Text} (h : root.segmentsBelow? directory = some segments)
    {segment : Text} (hsegment : segment ∈ segments) :
    '/' ∉ segment ∧ segment ≠ [] ∧ segment ≠ ['.'] := by
  have hplain : segment ∈ (root.join directory).plainSegments := by
    rw [(join_of_segmentsBelow? h).2]
    exact List.mem_append_right _ hsegment
  refine ⟨slash_not_mem_plainSegment hplain, ?_⟩
  simpa using (List.mem_filter.mp hplain).2

end Path

/-! ## What is left as a text -/

namespace Path

/-- Segments that are written with slashes between them can be told apart. -/
theorem eq_of_intercalate_eq {segments others : List Text}
    (h : ∀ segment ∈ segments, '/' ∉ segment ∧ segment ≠ [])
    (h' : ∀ segment ∈ others, '/' ∉ segment ∧ segment ≠ [])
    (heq : List.intercalate ['/'] segments =
      List.intercalate ['/'] others) : segments = others := by
  have hsplit : ∀ {parts : List Text},
      (∀ segment ∈ parts, '/' ∉ segment ∧ segment ≠ []) →
      ((List.intercalate ['/'] parts).splitOn '/').filter (· ≠ []) =
        parts := by
    intro parts hparts
    by_cases hempty : parts = []
    · rw [hempty]
      rfl
    · rw [List.splitOn_intercalate '/'
        (fun segment hmem => (hparts segment hmem).1) hempty,
        List.filter_eq_self]
      intro segment hmem
      simpa using (hparts segment hmem).2
  rw [← hsplit h, heq, hsplit h']

end Path

namespace RawPath

variable {root segment : RawPath} {path relative : Path}
variable {names others : List Name}

theorem exists_segments_of_relative? {entry : RawPath}
    (h : root.relative? entry = some relative) :
    ∃ segments, entry.plainSegments = root.plainSegments ++ segments ∧
      relative =
        List.intercalate ['/'] (segments.map Utf8.decodeLossy) := by
  obtain ⟨segments, hbelow, rfl⟩ := Option.map_eq_some_iff.mp h
  exact ⟨segments, (below?_eq_some_iff.mp hbelow).2, rfl⟩

/-- A segment of a path that begins with a text is read as a segment. -/
theorem plain_decodeLossy
    (h : segment ∈ (path.raw.descend names).plainSegments) :
    '/' ∉ Utf8.decodeLossy segment ∧ Utf8.decodeLossy segment ≠ [] := by
  rw [plainSegments_descend, Path.plainSegments_raw, List.mem_append] at h
  rcases h with htext | hname
  · obtain ⟨text, hmem, rfl⟩ := List.mem_map.mp htext
    rw [Utf8.decodeLossy_encode]
    have hplain := (List.mem_filter.mp hmem).2
    simp only [Bool.and_eq_true, bne_iff_ne] at hplain
    exact ⟨Path.slash_not_mem_plainSegment hmem, hplain.1⟩
  · obtain ⟨name, -, rfl⟩ := List.mem_map.mp hname
    exact ⟨name.slash_not_mem_text, name.text_ne_nil⟩

/-- What is left of a path is never absolute. -/
theorem isAbsolute_of_relative?
    (h : root.relative? (path.raw.descend names) = some relative) :
    relative.isAbsolute = false := by
  obtain ⟨segments, hsegments, rfl⟩ := exists_segments_of_relative? h
  have hplain : ∀ text ∈ segments.map Utf8.decodeLossy,
      '/' ∉ text ∧ text ≠ [] := by
    rw [List.forall_mem_map]
    intro segment hsegment
    have hmem : segment ∈ (path.raw.descend names).plainSegments := by
      rw [hsegments]
      exact List.mem_append_right _ hsegment
    exact plain_decodeLossy hmem
  by_cases hempty : segments = []
  · rw [hempty]
    rfl
  · apply Path.isAbsolute_eq_false_of_splitOn
    rw [List.splitOn_intercalate '/' (fun text h => (hplain text h).1)
      (by simpa using hempty)]
    exact fun hmem => (hplain [] hmem).2 rfl

/-- The segments of a path are Unicode if it begins with a text and the names are. -/
theorem encode_decodeLossy (hnames : ∀ name ∈ names, name.Unicode)
    (h : segment ∈ (path.raw.descend names).plainSegments) :
    Utf8.encode (Utf8.decodeLossy segment) = segment := by
  rw [plainSegments_descend, Path.plainSegments_raw, List.mem_append] at h
  rcases h with htext | hname
  · obtain ⟨text, -, rfl⟩ := List.mem_map.mp htext
    rw [Utf8.decodeLossy_encode]
  · obtain ⟨name, hmem, rfl⟩ := List.mem_map.mp hname
    exact hnames name hmem

theorem map_encode_decodeLossy (hnames : ∀ name ∈ names, name.Unicode)
    {segments : List Bytes}
    (h : ∀ segment ∈ segments,
      segment ∈ (path.raw.descend names).plainSegments) :
    (segments.map Utf8.decodeLossy).map Utf8.encode = segments := by
  rw [List.map_map]
  exact map_eq_self fun segment hsegment =>
    encode_decodeLossy hnames (h segment hsegment)

/-- Unicode names that are followed from a path text have different paths below any
root. -/
theorem descend_relative?_inj (hnames : ∀ name ∈ names, name.Unicode)
    (hothers : ∀ name ∈ others, name.Unicode)
    (h : root.relative? (path.raw.descend names) = some relative)
    (h' : root.relative? (path.raw.descend others) = some relative) :
    names = others := by
  obtain ⟨segments, hsegments, rfl⟩ := exists_segments_of_relative? h
  obtain ⟨segments', hsegments', heq⟩ := exists_segments_of_relative? h'
  have hmem : ∀ segment ∈ segments,
      segment ∈ (path.raw.descend names).plainSegments := by
    rw [hsegments]
    exact fun segment => List.mem_append_right _
  have hmem' : ∀ segment ∈ segments',
      segment ∈ (path.raw.descend others).plainSegments := by
    rw [hsegments']
    exact fun segment => List.mem_append_right _
  have htexts : segments.map Utf8.decodeLossy =
      segments'.map Utf8.decodeLossy :=
    Path.eq_of_intercalate_eq
      (List.forall_mem_map.mpr fun segment h => plain_decodeLossy (hmem _ h))
      (List.forall_mem_map.mpr fun segment h => plain_decodeLossy (hmem' _ h))
      heq
  have hbytes : segments = segments' := by
    rw [← map_encode_decodeLossy hnames hmem, htexts,
      map_encode_decodeLossy hothers hmem']
  rw [hbytes, ← hsegments', plainSegments_descend, plainSegments_descend,
    List.append_cancel_left_eq] at hsegments
  refine List.map_injective_iff.mpr ?_ hsegments
  rintro ⟨bytes, _⟩ ⟨bytes', _⟩ rfl
  rfl

end RawPath
end HeaderMake
