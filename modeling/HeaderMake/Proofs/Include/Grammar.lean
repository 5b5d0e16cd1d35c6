import HeaderMake.Include.Directive
import HeaderMake.Proofs.Text.Slices

/-!
# The grammar of quoted includes

A line quotes a payload if it can be written as the directive, a payload without quotes
and a closing quote, with anything before and behind them, such that the directive occurs
nowhere earlier (`Quotes`).  The payload read from a line is exactly the one that the line
quotes, and there is none exactly if no directive on the line is followed by a quote
(`quotedInclude?_exactly`).

The payload can also be cut out of the bytes of the line by offsets, and then no offset is
beyond the line or inside a character (`slicedInclude?_encode`).
-/

namespace HeaderMake

/-- The line is the payload between the first directive on it and a quote, with `before`
and `after` around them. -/
structure Quotes (line before payload after : Text) : Prop where
  line_eq : line = before ++ includeDirective ++ (payload ++ '"' :: after)
  quote_not_mem : '"' ∉ payload
  first : ∀ before' after', line = before' ++ includeDirective ++ after' →
    before.length ≤ before'.length

/-! ## What a line quotes -/

/-- A text is cut at a character where the character occurs first. -/
theorem Text.cutAt?_singleton_iff {c : Char} {text before after : Text} :
    cutAt? [c] text = some (before, after) ↔
      text = before ++ c :: after ∧ c ∉ before := by
  constructor
  · intro hcut
    have heq := eq_append_of_cutAt? hcut
    rw [List.append_assoc, List.singleton_append] at heq
    refine ⟨heq, fun hmem => ?_⟩
    -- Within `before` the character would be found earlier.
    obtain ⟨start, rest, rfl, -⟩ := List.eq_append_cons_of_mem hmem
    have hearlier : text = start ++ [c] ++ (rest ++ c :: after) := by
      rw [heq]
      simp
    have hle := length_le_of_cutAt? hcut hearlier
    rw [List.length_append, List.length_cons] at hle
    omega
  · rintro ⟨rfl, hmem⟩
    exact cutAt?_singleton hmem after

theorem cutAt?_includeDirective_iff {line before after : Text} :
    Text.cutAt? includeDirective line = some (before, after) ↔
      line = before ++ includeDirective ++ after ∧
        ∀ before' after', line = before' ++ includeDirective ++ after' →
          before.length ≤ before'.length := by
  rw [Text.cutAt?_eq_dropInfix?, dropInfix?_eq_some_iff_first]

theorem quotedInclude?_eq_some_iff {line payload : Text} :
    quotedInclude? line = some payload ↔
      ∃ before after, Quotes line before payload after := by
  simp only [quotedInclude?, Option.bind_eq_bind, Option.bind_eq_some_iff,
    Option.pure_def, Option.some_inj, Prod.exists,
    cutAt?_includeDirective_iff, Text.cutAt?_singleton_iff]
  constructor
  · rintro ⟨before, rest, ⟨rfl, hfirst⟩, _, after, ⟨rfl, hquote⟩, rfl⟩
    exact ⟨before, after, rfl, hquote, hfirst⟩
  · rintro ⟨before, after, rfl, hquote, hfirst⟩
    exact ⟨before, _, ⟨rfl, hfirst⟩, payload, after, ⟨rfl, hquote⟩, rfl⟩

/-- A line quotes at most one payload, and at one place only. -/
theorem Quotes.unique {line before payload after before' payload' after' : Text}
    (h : Quotes line before payload after)
    (h' : Quotes line before' payload' after') :
    before = before' ∧ payload = payload' ∧ after = after' := by
  have hcut := cutAt?_includeDirective_iff.mpr ⟨h.line_eq, h.first⟩
  rw [cutAt?_includeDirective_iff.mpr ⟨h'.line_eq, h'.first⟩,
    Option.some_inj, Prod.mk.injEq] at hcut
  obtain ⟨rfl, hrest⟩ := hcut
  have hquote := Text.cutAt?_singleton h.quote_not_mem after
  rw [← hrest, Text.cutAt?_singleton h'.quote_not_mem, Option.some_inj,
    Prod.mk.injEq] at hquote
  exact ⟨rfl, hquote.1.symm, hquote.2.symm⟩

/-- What follows an occurrence of the directive follows the first occurrence too. -/
theorem suffix_of_cutAt?_includeDirective {line before after before' after' : Text}
    (hcut : Text.cutAt? includeDirective line = some (before, after))
    (heq : line = before' ++ includeDirective ++ after') : after' <:+ after := by
  have hfirst := Text.length_le_of_cutAt? hcut heq
  have hline := Text.eq_append_of_cutAt? hcut
  have hlengths := congrArg List.length (hline.symm.trans heq)
  simp only [List.length_append] at hlengths
  have hends : after <:+ line := hline ▸ List.suffix_append _ _
  have hends' : after' <:+ line := heq ▸ List.suffix_append _ _
  exact List.suffix_of_suffix_length_le hends' hends (by omega)

theorem quotedInclude?_eq_none_iff {line : Text} :
    quotedInclude? line = none ↔
      ∀ before after, line = before ++ includeDirective ++ after →
        '"' ∉ after := by
  constructor
  · intro hnone before after heq hquote
    have hoccurs : Text.cutAt? includeDirective line ≠ none := by
      rw [ne_eq, Text.cutAt?_eq_none_iff, not_not]
      exact ⟨before, after, heq.symm⟩
    obtain ⟨⟨first, rest⟩, hcut⟩ := Option.ne_none_iff_exists'.mp hoccurs
    obtain ⟨payload, last, hrest, hpayload⟩ := List.eq_append_cons_of_mem
      ((suffix_of_cutAt?_includeDirective hcut heq).subset hquote)
    rw [quotedInclude?, hcut, hrest] at hnone
    simp [Text.cutAt?_singleton hpayload] at hnone
  · intro h
    rw [Option.eq_none_iff_forall_ne_some]
    intro payload hsome
    obtain ⟨before, after, hquotes⟩ := quotedInclude?_eq_some_iff.mp hsome
    exact h before _ hquotes.line_eq
      (List.mem_append_right _ List.mem_cons_self)

/-! ## Cutting the payload out of the bytes -/

/-- The payload cut out of the bytes of a line by offsets: first all that follows the
directive is cut off, and then the bytes up to the next quote are cut out.  The outer
option is empty if bytes cannot be cut where they are to be cut, the inner one if there is
no payload. -/
def slicedInclude? (line : Bytes) : Option (Option Bytes) :=
  match Utf8.find? (Utf8.encode includeDirective) line with
  | none => some none
  | some found => do
    let start := found + (Utf8.encode includeDirective).length
    let rest ← Utf8.slice? line start line.length
    match Utf8.find? (Utf8.encode ['"']) rest with
    | none => return none
    | some length => return some (← Utf8.slice? line start (start + length))

/-- The bytes of a line can be cut wherever the payload is cut out of them, and what is
cut out are the bytes of the payload. -/
theorem slicedInclude?_encode (line : Text) :
    slicedInclude? (Utf8.encode line) =
      some ((quotedInclude? line).map Utf8.encode) := by
  rw [slicedInclude?, quotedInclude?, Utf8.find?_encode (by decide) (by decide)]
  cases hdirective : Text.cutAt? includeDirective line with
  | none => rfl
  | some parts =>
      obtain ⟨before, rest⟩ := parts
      have hline := Text.eq_append_of_cutAt? hdirective
      have hstart : (Utf8.encode before).length +
          (Utf8.encode includeDirective).length =
            (Utf8.encode (before ++ includeDirective)).length := by
        rw [Utf8.encode_append, List.length_append]
      have hrest : Utf8.slice? (Utf8.encode line)
          (Utf8.encode (before ++ includeDirective)).length
          (Utf8.encode line).length = some (Utf8.encode rest) := by
        rw [hline]
        exact Utf8.slice?_encode_append_length _ _
      have hfind : Utf8.find? (Utf8.encode ['"']) (Utf8.encode rest) = _ :=
        Utf8.find?_encode (by decide) (by decide) rest
      simp only [Option.map_some, hstart, hrest, hfind, Option.bind_eq_bind,
        Option.bind_some]
      cases hquote : Text.cutAt? ['"'] rest with
      | none => rfl
      | some parts =>
          obtain ⟨payload, after⟩ := parts
          have hpayload : Utf8.slice? (Utf8.encode line)
              (Utf8.encode (before ++ includeDirective)).length
              ((Utf8.encode (before ++ includeDirective)).length +
                (Utf8.encode payload).length) =
                some (Utf8.encode payload) := by
            rw [hline, Text.eq_append_of_cutAt? hquote, List.append_assoc _ ['"'],
              ← List.append_assoc]
            exact Utf8.slice?_encode_append _ _ _
          simp only [Option.map_some, hpayload, Option.bind_some]
          rfl

/-- The payload of a line is the one that the line quotes, at the only place where it
quotes one.  A line has none exactly if no occurrence of the directive on it is followed
by a quote.  The offsets by which the payload is cut out of the bytes of the line always
lie between two characters. -/
theorem quotedInclude?_exactly (line : Text) :
    (∀ payload, quotedInclude? line = some payload ↔
      ∃ before after, Quotes line before payload after) ∧
    (∀ before payload after before' payload' after',
      Quotes line before payload after →
      Quotes line before' payload' after' →
      before = before' ∧ payload = payload' ∧ after = after') ∧
    (quotedInclude? line = none ↔
      ∀ before after, line = before ++ includeDirective ++ after →
        '"' ∉ after) ∧
    slicedInclude? (Utf8.encode line) =
      some ((quotedInclude? line).map Utf8.encode) := by
  refine ⟨fun _ => quotedInclude?_eq_some_iff, ?_,
    quotedInclude?_eq_none_iff, slicedInclude?_encode line⟩
  intro before payload after before' payload' after' h h'
  exact h.unique h'

end HeaderMake
