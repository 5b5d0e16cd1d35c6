import HeaderMake.Makefile.Rule
import HeaderMake.Proofs.Text.Splitting

/-!
# Compile rules read back

The text of a rule is a block of three lines: the target line, the recipe behind a tab,
and an empty line.  `RuleBlock.ofText?` cuts a text into such blocks, and
`RuleBlock.rule?` reads a block as a rule.  The target line is split at its blanks.  The
recipe is read from its end, since the include flags at its beginning may hold blanks
themselves.

A rule is read back as it was (`RuleBlock.rule?_ofRule`), and so are rules that follow
each other (`RuleBlock.ofText?_renderRules`), provided that they are legible: no path in
them holds a blank or a line feed, and no flags hold a line feed.
-/

namespace HeaderMake

/-! ## The parts of a rule -/

/-- The line that names the object, the source and the prerequisites. -/
def CompileRule.targetLine (rule : CompileRule) : Text :=
  List.intercalate [' ']
    ((rule.object ++ [':']) :: rule.source :: rule.prerequisites)

/-- What a recipe begins with. -/
def compilerCall : Text := "$(CXX) ".toList

/-- The options behind the include flags of every recipe. -/
def commonOptions : Text := " $(CPPFLAGS) $(CFG) $(CXXFLAGS)".toList

/-- The options in front of the object of every recipe. -/
def outputOptions : Text := " $(UNDEF_STRICT_ANSI) -c -o".toList

/-- What a recipe holds between the include flags and the object. -/
def compilerOptions (suppressWarnings : Bool) : Text :=
  commonOptions ++ (if suppressWarnings then " -w".toList else []) ++
    outputOptions

/-- The recipe, without the tab in front of it. -/
def CompileRule.recipe (rule : CompileRule) : Text :=
  compilerCall ++
    (rule.includeFlags ++ compilerOptions rule.suppressWarnings) ++
    ' ' :: rule.object ++ ' ' :: rule.recipeSource

theorem intercalate_blank_eq (first : Text) (others : List Text) :
    List.intercalate [' '] (first :: others) =
      first ++ others.flatMap (' ' :: ·) := by
  induction others generalizing first with
  | nil => simp
  | cons next others ih =>
      rw [List.intercalate_cons_cons, ih, List.flatMap_cons]
      simp

theorem CompileRule.render_eq (rule : CompileRule) :
    rule.render =
      rule.targetLine ++ '\n' :: '\t' :: (rule.recipe ++ ['\n', '\n']) := by
  have hparts : rule.render =
      rule.object ++ [':', ' '] ++ rule.source ++
        rule.prerequisites.flatMap (' ' :: ·) ++ ['\n'] ++
        ('\t' :: compilerCall) ++ rule.includeFlags ++ commonOptions ++
        (if rule.suppressWarnings then " -w".toList else []) ++
        (outputOptions ++ [' ']) ++ rule.object ++ [' '] ++
        rule.recipeSource ++ ['\n', '\n'] := rfl
  rw [hparts, targetLine, recipe, compilerOptions, intercalate_blank_eq,
    List.flatMap_cons]
  simp only [List.append_assoc, List.cons_append, List.nil_append]

/-- The text holds neither a blank nor a line feed. -/
def Text.Unbroken (text : Text) : Prop :=
  ' ' ∉ text ∧ '\n' ∉ text

instance (text : Text) : Decidable text.Unbroken :=
  inferInstanceAs (Decidable (_ ∧ _))

/-- The paths of the rule hold no blank and no line feed, and its flags hold no line
feed. -/
structure CompileRule.Legible (rule : CompileRule) : Prop where
  object : rule.object.Unbroken
  source : rule.source.Unbroken
  recipeSource : rule.recipeSource.Unbroken
  prerequisites : ∀ path ∈ rule.prerequisites, path.Unbroken
  includeFlags : '\n' ∉ rule.includeFlags

/-! ## Blocks -/

/-- A rule as it stands in a text: its target line, and its recipe without the tab. -/
structure RuleBlock where
  target : Text
  recipe : Text
  deriving DecidableEq

namespace RuleBlock

/-- The block of a rule. -/
def ofRule (rule : CompileRule) : RuleBlock where
  target := rule.targetLine
  recipe := rule.recipe

/-- The blocks that lines form: a target line, a line that begins with a tab, and an
empty line each.  The empty line behind the last line feed belongs to no block. -/
def ofLines? : List Text → Option (List RuleBlock)
  | [[]] => some []
  | target :: ('\t' :: recipe) :: [] :: rest =>
    (ofLines? rest).map (⟨target, recipe⟩ :: ·)
  | _ => none

/-- The blocks of a text, if it consists of blocks. -/
def ofText? (text : Text) : Option (List RuleBlock) :=
  ofLines? text.lines

/-- The object, the source and the prerequisites that a target line names, split at
every blank. -/
def names? (target : Text) : Option (Path × Path × List Path) :=
  match target.splitOn ' ' with
  | label :: source :: prerequisites =>
    (Text.dropEnding? [':'] label).map fun object =>
      (object, source, prerequisites)
  | _ => none

/-- The include flags of a recipe, and whether it suppresses warnings, from what stands
between the compiler and the object. -/
def flags? (options : Text) : Option (Text × Bool) :=
  match Text.dropEnding? (compilerOptions true) options with
  | some flags => some (flags, true)
  | none =>
    (Text.dropEnding? (compilerOptions false) options).map fun flags =>
      (flags, false)

/-- The rule that a block shows.  The recipe has to make the object of the target
line. -/
def rule? (block : RuleBlock) : Option CompileRule := do
  let (object, source, prerequisites) ← names? block.target
  let (start, recipeSource) ← Text.lastWord? block.recipe
  let (start, made) ← Text.lastWord? start
  let options ← Text.dropLeading? compilerCall start
  let (includeFlags, suppressWarnings) ← flags? options
  if made = object then
    return { object, source, recipeSource, prerequisites, includeFlags,
             suppressWarnings }
  else none

/-! ## One rule -/

theorem names?_targetLine {rule : CompileRule} (h : rule.Legible) :
    names? rule.targetLine =
      some (rule.object, rule.source, rule.prerequisites) := by
  have hblank : ∀ word ∈
      (rule.object ++ [':']) :: rule.source :: rule.prerequisites,
      ' ' ∉ word := by
    intro word hword
    rcases List.mem_cons.mp hword with rfl | hword
    · simp [h.object.1]
    · rcases List.mem_cons.mp hword with rfl | hword
      · exact h.source.1
      · exact (h.prerequisites word hword).1
  have hwords : rule.targetLine.splitOn ' ' =
      (rule.object ++ [':']) :: rule.source :: rule.prerequisites :=
    List.splitOn_intercalate ' ' hblank (List.cons_ne_nil _ _)
  rw [names?, hwords]
  simp only [Text.dropEnding?_append, Option.map_some]

/-- The two forms of the options end differently, whatever flags stand before them. -/
theorem flags?_append (flags : Text) (suppressWarnings : Bool) :
    flags? (flags ++ compilerOptions suppressWarnings) =
      some (flags, suppressWarnings) := by
  cases suppressWarnings with
  | true => rw [flags?, Text.dropEnding?_append]
  | false =>
      have hother : Text.dropEnding? (compilerOptions true)
          (flags ++ compilerOptions false) = none := by
        rw [Text.dropEnding?, List.reverse_append]
        rfl
      rw [flags?, hother, Text.dropEnding?_append]
      rfl

theorem rule?_ofRule {rule : CompileRule} (h : rule.Legible) :
    (ofRule rule).rule? = some rule := by
  have hsource : Text.lastWord? rule.recipe =
      some (compilerCall ++ (rule.includeFlags ++
        compilerOptions rule.suppressWarnings) ++ ' ' :: rule.object,
        rule.recipeSource) :=
    Text.lastWord?_append h.recipeSource.1 _
  have hobject : Text.lastWord? (compilerCall ++ (rule.includeFlags ++
        compilerOptions rule.suppressWarnings) ++ ' ' :: rule.object) =
      some (compilerCall ++ (rule.includeFlags ++
        compilerOptions rule.suppressWarnings), rule.object) :=
    Text.lastWord?_append h.object.1 _
  have hoptions : Text.dropLeading? compilerCall
      (compilerCall ++ (rule.includeFlags ++
        compilerOptions rule.suppressWarnings)) =
      some (rule.includeFlags ++ compilerOptions rule.suppressWarnings) :=
    Text.dropLeading?_eq_some_iff.mpr rfl
  simp only [rule?, ofRule, names?_targetLine h, hsource, hobject, hoptions,
    flags?_append, Option.bind_eq_bind, Option.bind_some, if_true]
  rfl

/-! ## Rules that follow each other -/

theorem lines_render_append {rule : CompileRule} (h : rule.Legible)
    (rest : Text) :
    Text.lines (rule.render ++ rest) =
      rule.targetLine :: ('\t' :: rule.recipe) :: [] :: Text.lines rest := by
  have htarget : '\n' ∉ rule.targetLine := by
    rw [CompileRule.targetLine, intercalate_blank_eq]
    simp only [List.mem_append, List.mem_flatMap, List.mem_cons, not_or,
      not_exists, not_and, List.not_mem_nil, not_false_eq_true, and_true]
    refine ⟨⟨h.object.2, by decide⟩, fun word hword => ⟨by decide, ?_⟩⟩
    rcases hword with rfl | hword
    · exact h.source.2
    · exact (h.prerequisites word hword).2
  have hrecipe : '\n' ∉ '\t' :: rule.recipe := by
    have hcall : '\n' ∉ compilerCall := by decide
    have hoptions : ∀ suppressWarnings,
        '\n' ∉ compilerOptions suppressWarnings := by decide
    simp [CompileRule.recipe, hcall, h.includeFlags, hoptions, h.object.2,
      h.recipeSource.2]
  have htext : rule.render ++ rest =
      rule.targetLine ++ '\n' ::
        (('\t' :: rule.recipe) ++ '\n' :: ([] ++ '\n' :: rest)) := by
    rw [CompileRule.render_eq]
    simp only [List.append_assoc, List.cons_append, List.nil_append]
  rw [Text.lines, htext, List.splitOn_append_cons_self_of_not_mem htarget,
    List.splitOn_append_cons_self_of_not_mem hrecipe,
    List.splitOn_append_cons_self_of_not_mem (List.not_mem_nil)]
  rfl

/-- The text of rules consists of their blocks. -/
theorem ofText?_renderRules {rules : List ResolvedRule}
    (h : ∀ resolved ∈ rules, resolved.rule.Legible) :
    ofText? (renderRules rules) =
      some (rules.map fun resolved => ofRule resolved.rule) := by
  induction rules with
  | nil => rfl
  | cons resolved rules ih =>
      obtain ⟨hfirst, hrest⟩ := List.forall_mem_cons.mp h
      have hread : ofLines? (renderRules rules).lines =
          some (rules.map fun resolved => ofRule resolved.rule) := ih hrest
      rw [ofText?, renderRules, List.flatMap_cons,
        lines_render_append hfirst, ofLines?, ← renderRules, hread]
      rfl

theorem mapM_rule?_map_ofRule {rules : List CompileRule}
    (h : ∀ rule ∈ rules, rule.Legible) :
    (rules.map ofRule).mapM rule? = some rules := by
  induction rules with
  | nil => rfl
  | cons rule rules ih =>
      obtain ⟨hfirst, hrest⟩ := List.forall_mem_cons.mp h
      rw [List.map_cons, List.mapM_cons, rule?_ofRule hfirst, ih hrest]
      rfl

end RuleBlock
end HeaderMake
