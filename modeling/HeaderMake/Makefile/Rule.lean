import HeaderMake.Collection
import HeaderMake.ObjectPath

/-!
# Compile rules

A `CompileRule` tells how one source is compiled.  Its text is the target line, which
names the object, the source and the prerequisites, then the recipe, then an empty line.
The rules of a group follow each other in the order of its files.
-/

namespace HeaderMake

/-- How one source is compiled. -/
structure CompileRule where
  object : Path
  source : Path
  /-- The source as the recipe names it, in the build directory if it is moved there. -/
  recipeSource : Path
  prerequisites : List Path
  includeFlags : Text
  suppressWarnings : Bool
  deriving DecidableEq

/-- The text of a rule in the Makefile. -/
def CompileRule.render (rule : CompileRule) : Text :=
  rule.object ++ ": ".toList ++ rule.source ++
    rule.prerequisites.flatMap (' ' :: ·) ++ "\n".toList ++
    "\t$(CXX) ".toList ++ rule.includeFlags ++ " $(CPPFLAGS) $(CFG) $(CXXFLAGS)".toList ++
    (if rule.suppressWarnings then " -w".toList else []) ++
    " $(UNDEF_STRICT_ANSI) -c -o ".toList ++ rule.object ++ " ".toList ++ rule.recipeSource ++
    "\n\n".toList

/-- The rule of one source of a group, from the prerequisites found for it. -/
def Layout.compileRule (layout : Layout) (group : SourceGroup) (source : Path)
    (prerequisites : List Path) : CompileRule where
  object := layout.objectFile source
  source
  recipeSource := layout.inBuildDirectory source
  prerequisites
  includeFlags := group.includeFlags
  suppressWarnings := group.vendored

/-- A rule with the walk that found its prerequisites. -/
structure ResolvedRule where
  rule : CompileRule
  resolution : Resolution
  deriving DecidableEq

/-- The rule of one source of a group. -/
def resolveRule (layout : Layout) (view : SourceView) (group : SourceGroup) (source : Path) :
    ResolvedRule :=
  let resolution := resolve layout view source
  { rule := layout.compileRule group source resolution.dependencies
    resolution }

/-- The events of a rule: those of its walk, then that it is written. -/
def ResolvedRule.events (resolved : ResolvedRule) : List Event :=
  resolved.resolution.events ++
    [.emittingRule resolved.rule.source resolved.rule.prerequisites.length]

/-- The rules of a group, in the order of its files. -/
def resolveRules (layout : Layout) (view : SourceView) (collected : CollectedGroup) :
    List ResolvedRule :=
  collected.files.map (resolveRule layout view collected.group)

/-- The text of rules that follow each other. -/
def renderRules (rules : List ResolvedRule) : Text :=
  rules.flatMap (·.rule.render)

/-- The events of rules that follow each other. -/
def ruleEvents (rules : List ResolvedRule) : List Event :=
  rules.flatMap ResolvedRule.events

end HeaderMake
