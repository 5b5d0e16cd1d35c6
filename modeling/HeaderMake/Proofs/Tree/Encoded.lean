import HeaderMake.Proofs.Text.Occurrences
import HeaderMake.Proofs.Text.Segments
import HeaderMake.Tree.Basic

/-!
# Path texts and their bytes

A slash is one byte, and no other character has that byte in its encoding.  So a path text
can be taken apart before or after it is encoded: it has the same segments
(`Path.splitOn_raw`), and joining commutes with encoding (`Path.raw_join`).

A name keeps what makes it a segment when it is shown as a text (`Name.slash_not_mem_text`,
`Name.text_ne_nil`, `Name.text_ne_dot`), also where replacement characters stand in it.
-/

namespace HeaderMake

/-! ## The slash -/

theorem Utf8.slash_mem_encode_iff {text : Text} :
    RawPath.slash ∈ encode text ↔ '/' ∈ text := by
  constructor
  · intro h
    obtain ⟨start, rest, hbytes⟩ := List.append_of_mem h
    have htext : text = decodeLossy start ++ '/' :: decodeLossy rest := by
      rw [← decodeLossy_encode text, hbytes]
      exact decodeLossy_append_ascii start (c := '/') (by decide) rest
    rw [htext]
    exact List.mem_append_right _ List.mem_cons_self
  · intro h
    exact List.mem_flatMap.mpr ⟨'/', h, by decide⟩

theorem Utf8.encode_injective : Function.Injective encode :=
  Function.LeftInverse.injective decodeLossy_encode

theorem Utf8.encode_eq_nil_iff {text : Text} : encode text = [] ↔ text = [] :=
  encode_injective.eq_iff' rfl

theorem Utf8.encode_intercalate (segments : List Text) :
    encode (List.intercalate ['/'] segments) =
      List.intercalate [RawPath.slash] (segments.map encode) := by
  induction segments with
  | nil => rfl
  | cons segment rest ih =>
      by_cases hempty : rest = []
      · rw [hempty, List.intercalate_singleton, List.map_singleton,
          List.intercalate_singleton]
      · rw [List.intercalate_cons_of_ne_nil hempty, List.map_cons,
          List.intercalate_cons_of_ne_nil (by simpa using hempty),
          encode_append, encode_append, ih]
        rfl

/-! ## Texts as bytes -/

namespace Path

/-- The segments of the bytes are the bytes of the segments. -/
theorem splitOn_raw (path : Path) :
    path.raw.splitOn RawPath.slash = (path.splitOn '/').map Utf8.encode := by
  have hjoin : List.intercalate ['/'] (path.splitOn '/') = path :=
    List.intercalate_splitOn '/'
  conv => lhs; rw [raw, ← hjoin]
  rw [Utf8.encode_intercalate]
  apply List.splitOn_intercalate
  · intro bytes hbytes
    obtain ⟨segment, hsegment, rfl⟩ := List.mem_map.mp hbytes
    exact mt Utf8.slash_mem_encode_iff.mp (slash_not_mem_segment hsegment)
  · simp [List.splitOn_ne_nil]

theorem isAbsolute_raw (path : Path) :
    path.raw.isAbsolute = path.isAbsolute := by
  cases path with
  | nil => rfl
  | cons c rest =>
      by_cases hslash : c = '/'
      · rw [hslash]
        rfl
      · have hpath : isAbsolute (c :: rest) = false := by
          simpa [isAbsolute] using hslash
        obtain ⟨byte, bytes, hbytes⟩ := List.exists_cons_of_ne_nil
          (String.utf8EncodeChar_ne_nil (c := c))
        have hbyte : byte ≠ RawPath.slash := by
          rintro rfl
          have hmem : RawPath.slash ∈ Utf8.encode [c] := by
            simp [Utf8.encode, hbytes]
          exact hslash (by simpa [eq_comm] using
            Utf8.slash_mem_encode_iff.mp hmem)
        rw [hpath, raw, Utf8.encode_cons, hbytes]
        simpa [RawPath.isAbsolute] using hbyte

theorem getLast?_raw_eq_slash_iff (path : Path) :
    path.raw.getLast? = some RawPath.slash ↔ path.getLast? = some '/' := by
  rcases List.eq_nil_or_concat' path with rfl | ⟨start, last, rfl⟩
  · simp [raw, Utf8.encode]
  · rw [List.getLast?_append, List.getLast?_singleton, Option.some_or,
      Option.some_inj, raw, Utf8.encode_append]
    constructor
    · intro h
      have hne : Utf8.encode [last] ≠ [] := by
        simp [Utf8.encode_eq_nil_iff]
      rw [List.getLast?_append_of_ne_nil _ hne] at h
      simpa [eq_comm] using
        Utf8.slash_mem_encode_iff.mp (List.mem_of_getLast? h)
    · rintro rfl
      exact List.getLast?_concat

/-- Joining texts and encoding them can be exchanged. -/
theorem raw_join (root path : Path) :
    (root.join path).raw = root.raw.join path.raw := by
  have hempty : root.raw.isEmpty = root.isEmpty := by
    rw [Bool.eq_iff_iff, List.isEmpty_iff, List.isEmpty_iff, raw,
      Utf8.encode_eq_nil_iff]
  have hlast : (root.raw.getLast? == some RawPath.slash) =
      (root.getLast? == some '/') := by
    rw [Bool.eq_iff_iff, beq_iff_eq, beq_iff_eq, getLast?_raw_eq_slash_iff]
  rw [join, RawPath.join, isAbsolute_raw, hempty, hlast]
  split
  · rfl
  · split
    · exact Utf8.encode_append root path
    · exact Utf8.encode_append root ('/' :: path)

/-- The segments of a path that are neither empty nor `.`. -/
def plainSegments (path : Path) : List Text :=
  (path.splitOn '/').filter fun segment => segment != [] && segment != ['.']

theorem plainSegments_raw (path : Path) :
    path.raw.plainSegments = path.plainSegments.map Utf8.encode := by
  rw [RawPath.plainSegments, splitOn_raw, List.filter_map, plainSegments]
  congr 1
  apply List.filter_congr
  intro segment _
  rw [Bool.eq_iff_iff]
  simp [Utf8.encode_eq_nil_iff,
    Utf8.encode_injective.eq_iff' (show Utf8.encode ['.'] = [RawPath.dot] from rfl)]

theorem slash_not_mem_plainSegment {path : Path} {segment : Text}
    (h : segment ∈ path.plainSegments) : '/' ∉ segment :=
  slash_not_mem_segment (List.mem_filter.mp h).1

end Path

/-! ## Names as texts -/

namespace Name

theorem slash_not_mem_text (name : Name) : '/' ∉ name.text := by
  obtain ⟨-, -, -, hslash, -, -⟩ := name.valid
  exact Utf8.not_mem_decodeLossy (by decide) hslash

theorem text_ne_nil (name : Name) : name.text ≠ [] :=
  fun h => name.valid.1 (Utf8.eq_nil_of_decodeLossy_eq_nil h)

theorem text_ne_dot (name : Name) : name.text ≠ ['.'] := by
  intro h
  obtain ⟨start, rest, hbytes, hstart, hrest⟩ :=
    Utf8.exists_of_decodeLossy_eq_append_cons (by decide) name.bytes
      (show Utf8.decodeLossy name.bytes = [] ++ '.' :: [] from h)
  rw [Utf8.eq_nil_of_decodeLossy_eq_nil hstart,
    Utf8.eq_nil_of_decodeLossy_eq_nil hrest] at hbytes
  exact name.valid.2.1 hbytes

end Name
end HeaderMake
