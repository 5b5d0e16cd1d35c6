import HeaderMake.Include.Directive
import HeaderMake.Proofs.Text.Occurrences

/-!
# Payloads read off the bytes

The payloads of a file are found in its decoded text, where every ill-formed piece has
become a replacement character.  They can as well be read off the bytes themselves, with
nothing decoded but the payloads (`bytewisePayloads`): both ways find the same ones, so
bytes that are not UTF-8 neither hide an include nor make one up.

The ends of the lines do not matter either.  Carriage returns may stand before the line
feeds or not, and a reader of lines may take them off or leave them.
-/

namespace HeaderMake

/-! ## Reading bytes -/

/-- The bytes of the payload of a line: those between the first directive and the next
quote. -/
def quotedBytes? (line : Bytes) : Option Bytes := do
  let (_, afterDirective) ← line.dropInfix? (Utf8.encode includeDirective)
  let (payload, _) ← afterDirective.dropInfix? (Utf8.encode ['"'])
  return payload

/-- The payloads of a file, found in its bytes and decoded one by one. -/
def bytewisePayloads (content : Bytes) : List Text :=
  (content.splitOn 10).filterMap fun line =>
    (quotedBytes? line).map Utf8.decodeLossy

theorem quotedInclude?_decodeLossy (line : Bytes) :
    quotedInclude? (Utf8.decodeLossy line) =
      (quotedBytes? line).map Utf8.decodeLossy := by
  have hdirective : (Utf8.decodeLossy line).dropInfix? includeDirective = _ :=
    Utf8.dropInfix?_decodeLossy (by decide) (by decide) line
  simp only [quotedInclude?, quotedBytes?, Text.cutAt?_eq_dropInfix?,
    hdirective]
  cases line.dropInfix? (Utf8.encode includeDirective) with
  | none => rfl
  | some parts =>
      have hquote : (Utf8.decodeLossy parts.2).dropInfix? ['"'] = _ :=
        Utf8.dropInfix?_decodeLossy (by decide) (by decide) parts.2
      simp only [Option.map_some, Option.bind_eq_bind, Option.bind_some,
        hquote]
      cases parts.2.dropInfix? (Utf8.encode ['"']) with
      | none => rfl
      | some payload => rfl

theorem includePayloads_eq_bytewisePayloads (content : Bytes) :
    includePayloads content = bytewisePayloads content := by
  rw [includePayloads, Utf8.lines_decodeLossy, List.filterMap_map,
    bytewisePayloads]
  congr 1
  funext line
  exact quotedInclude?_decodeLossy line

/-! ## Ends of lines -/

/-- A carriage return at the end of a line belongs to no payload. -/
theorem quotedInclude?_append_return (line : Text) :
    quotedInclude? (line ++ ['\r']) = quotedInclude? line := by
  unfold quotedInclude?
  cases hdirective : Text.cutAt? includeDirective line with
  | none =>
      have hnone : Text.cutAt? includeDirective [] = none := by decide
      rw [Text.cutAt?_append_cons_of_not_mem (by decide) hdirective, hnone]
      rfl
  | some parts =>
      rw [Text.cutAt?_append_of_cutAt? hdirective]
      simp only [Option.bind_eq_bind, Option.bind_some]
      cases hquote : Text.cutAt? ['"'] parts.2 with
      | none =>
          have hnone : Text.cutAt? ['"'] [] = none := by decide
          rw [Text.cutAt?_append_cons_of_not_mem (by decide) hquote, hnone]
          rfl
      | some payload =>
          rw [Text.cutAt?_append_of_cutAt? hquote]
          rfl

/-- A line without the carriage return at its end. -/
def Text.withoutReturn (line : Text) : Text :=
  if line.getLast? = some '\r' then line.dropLast else line

/-- The lines of a text in which each line ends in a line feed, or in a carriage return
and a line feed.  The last line need not be ended; if it is empty, it is not counted. -/
def Text.terminatedLines (text : Text) : List Text :=
  text.lines.dropLast.map Text.withoutReturn ++
    text.lines.getLast?.toList.filter (· ≠ [])

theorem quotedInclude?_withoutReturn (line : Text) :
    quotedInclude? line.withoutReturn = quotedInclude? line := by
  unfold Text.withoutReturn
  split
  · next hlast =>
    obtain ⟨start, rfl⟩ := List.getLast?_eq_some_iff.mp hlast
    rw [List.dropLast_concat, quotedInclude?_append_return]
  · rfl

theorem filterMap_terminatedLines (text : Text) :
    text.terminatedLines.filterMap quotedInclude? =
      text.lines.filterMap quotedInclude? := by
  have hreturns : quotedInclude? ∘ Text.withoutReturn = quotedInclude? :=
    funext quotedInclude?_withoutReturn
  have hne : text.lines ≠ [] := List.splitOn_ne_nil '\n' text
  obtain ⟨start, last, hlines⟩ :=
    (List.eq_nil_or_concat' text.lines).resolve_left hne
  have hlast : (([last] : List Text).filter (· ≠ [])).filterMap
      quotedInclude? = [last].filterMap quotedInclude? := by
    by_cases hempty : last = []
    · -- The line that is not counted has no payload.
      rw [hempty]
      decide
    · rw [List.filter_eq_self.mpr (by simpa using hempty)]
  rw [Text.terminatedLines, hlines, List.dropLast_concat,
    List.getLast?_concat, Option.toList_some, List.filterMap_append,
    List.filterMap_map, hreturns, hlast, ← List.filterMap_append]

/-- The bytes with a carriage return put before every line feed. -/
def withReturns (content : Bytes) : Bytes :=
  content.flatMap fun byte => if byte = 10 then [13, 10] else [byte]

theorem includePayloads_append_newline (start rest : Bytes) :
    includePayloads (start ++ 10 :: rest) =
      includePayloads start ++ includePayloads rest := by
  rw [includePayloads, Utf8.decodeLossy_append_newline, Text.lines,
    List.splitOn_append_cons_self, List.filterMap_append]
  rfl

theorem includePayloads_append_return {line : Bytes} (h : 10 ∉ line) :
    includePayloads (line ++ [13]) = includePayloads line := by
  have hreturn : Utf8.decodeLossy (line ++ [13]) =
      Utf8.decodeLossy line ++ ['\r'] :=
    Utf8.decodeLossy_append_ascii line (c := '\r') (by decide) []
  have hline := Utf8.newline_not_mem_decodeLossy h
  have hlines : ∀ text : Text, '\n' ∉ text →
      text.lines.filterMap quotedInclude? =
        [text].filterMap quotedInclude? := by
    intro text htext
    rw [Text.lines, List.splitOn_eq_singleton htext]
  rw [includePayloads, includePayloads, hreturn, hlines _ hline, hlines,
    List.filterMap_cons, List.filterMap_cons, quotedInclude?_append_return]
  simpa using hline

theorem withReturns_eq_self {line : Bytes} (h : 10 ∉ line) :
    withReturns line = line := by
  induction line with
  | nil => rfl
  | cons byte line ih =>
      rw [List.mem_cons, not_or] at h
      rw [withReturns, List.flatMap_cons, if_neg (Ne.symm h.1), ← withReturns,
        ih h.2, List.singleton_append]

theorem includePayloads_withReturns (content : Bytes) :
    includePayloads (withReturns content) = includePayloads content := by
  by_cases hmem : 10 ∈ content
  · obtain ⟨line, rest, rfl, hline⟩ := List.eq_append_cons_of_mem hmem
    have hrest := includePayloads_withReturns rest
    have hreturns : withReturns (line ++ 10 :: rest) =
        (line ++ [13]) ++ 10 :: withReturns rest := by
      rw [withReturns, List.flatMap_append, ← withReturns,
        withReturns_eq_self hline, List.flatMap_cons, ← withReturns]
      simp
    rw [hreturns, includePayloads_append_newline,
      includePayloads_append_newline, includePayloads_append_return hline,
      hrest]
  · rw [withReturns_eq_self hmem]
termination_by content.length
decreasing_by
  subst_vars
  simp
  omega

/-- The payloads of a file are those that are read off its bytes, line feed by line feed,
with nothing decoded but the payloads.  It makes no difference whether a reader of the
decoded text counts carriage returns among the ends of lines, nor whether the file has
them. -/
theorem includePayloads_bytewise (content : Bytes) :
    includePayloads content = bytewisePayloads content ∧
      includePayloads content =
        (Utf8.decodeLossy content).terminatedLines.filterMap
          quotedInclude? ∧
      includePayloads (withReturns content) = includePayloads content := by
  refine ⟨includePayloads_eq_bytewisePayloads content, ?_,
    includePayloads_withReturns content⟩
  rw [filterMap_terminatedLines, includePayloads]

end HeaderMake
