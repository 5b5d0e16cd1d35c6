import HeaderMake.Include.Directive
import HeaderMake.Proofs.Text.Cutting
import HeaderMake.Proofs.Text.Decoding

/-!
# Files written for what they include

Every payload without quote and line feed can be written down: `includeLine` is the line
of which it is the payload, and `twoIncludes` is the file that includes two of them.
From any directory that holds no `/../` a file reaches any path, by the way out and back
that `detour` spells.
-/

namespace HeaderMake

/-- A text that can stand between the quotes of an include line. -/
def Spellable (payload : Text) : Prop :=
  '"' ∉ payload ∧ '\n' ∉ payload

/-- The line that includes a payload. -/
def includeLine (payload : Text) : Text :=
  includeDirective ++ (payload ++ ['"'])

theorem quotedInclude?_includeLine {payload : Text} (h : Spellable payload) :
    quotedInclude? (includeLine payload) = some payload := by
  simp [quotedInclude?, includeLine, Text.cutAt?_mark_append,
    Text.cutAt?_singleton h.1]

theorem newline_not_mem_includeLine {payload : Text} (h : Spellable payload) :
    '\n' ∉ includeLine payload := by
  have hdirective : '\n' ∉ includeDirective := by decide
  simp [includeLine, hdirective, h.2]

/-- The file of two include lines. -/
def twoIncludes (first second : Text) : Bytes :=
  Utf8.encode (includeLine first ++ '\n' :: includeLine second)

theorem includePayloads_twoIncludes {first second : Text}
    (hfirst : Spellable first) (hsecond : Spellable second) :
    includePayloads (twoIncludes first second) = [first, second] := by
  have hlines : (includeLine first ++ '\n' :: includeLine second).lines =
      [includeLine first, includeLine second] := by
    rw [Text.lines, List.splitOn_append_cons_self,
      List.splitOn_eq_singleton (newline_not_mem_includeLine hfirst),
      List.splitOn_eq_singleton (newline_not_mem_includeLine hsecond)]
    rfl
  rw [includePayloads, twoIncludes, Utf8.decodeLossy_encode, hlines]
  simp [quotedInclude?_includeLine hfirst, quotedInclude?_includeLine hsecond]

/-! ## Ways through a spare directory -/

/-- The characters without a meaning in include lines and in paths. -/
def Ordinary (c : Char) : Prop :=
  c ∉ ['"', '\n', '/', '.']

/-- The payload that leads to a path from any directory without `/../`: into the
directory `spare` and out of it again. -/
def detour (spare : Char) (path : Path) : Text :=
  spare :: ("/../".toList ++ path)

namespace Ordinary

variable {spare : Char}

theorem not_mem_parent (h : Ordinary spare) : spare ∉ "/../".toList := by
  have hsubset : "/../".toList ⊆ ['"', '\n', '/', '.'] := by decide
  exact fun hmem => h (hsubset hmem)

theorem not_mem_replicate (h : Ordinary spare) {c : Char}
    (hc : c ∈ ['"', '\n', '/', '.']) (count : Nat) :
    c ∉ List.replicate count spare := by
  intro hmem
  rw [List.eq_of_mem_replicate hmem] at hc
  exact h hc

theorem spellable_replicate (h : Ordinary spare) (count : Nat) :
    Spellable (List.replicate count spare) :=
  ⟨h.not_mem_replicate (by decide) count,
    h.not_mem_replicate (by decide) count⟩

theorem slash_not_mem_replicate (h : Ordinary spare) (count : Nat) :
    '/' ∉ List.replicate count spare :=
  h.not_mem_replicate (by decide) count

theorem spellable_detour (h : Ordinary spare) {path : Path}
    (hpath : Spellable path) : Spellable (detour spare path) := by
  simp only [Ordinary, List.mem_cons, not_or] at h
  constructor
  · simp [detour, Ne.symm h.1, hpath.1]
  · simp [detour, Ne.symm h.2.1, hpath.2]

theorem collapseParent_detour (h : Ordinary spare) {directory : Path}
    (hdirectory : Text.cutAt? "/../".toList directory = none) (path : Path) :
    Path.collapseParent (directory ++ detour spare path) = path := by
  rw [Path.collapseParent, detour,
    Text.cutAt?_append_cons_of_not_mem h.not_mem_parent hdirectory,
    Text.cutAt?_mark_append]
  rfl

end Ordinary
end HeaderMake
