import HeaderMake.Makefile.FixedText
import HeaderMake.Makefile.ObjectList
import HeaderMake.Makefile.Rule

/-!
# The Makefile

The Makefile is the preamble, the object lists, the fixed targets, and the compile rules
of all groups.  It is rendered as one text before anything is written, and the rules that
went into it are kept beside the text.
-/

namespace HeaderMake

/-- A rendered Makefile with the rules that it holds, group by group. -/
structure RenderedMakefile where
  text : Text
  rules : List ResolvedRule

/-- The events of rendering: those of the rules, in their order. -/
def RenderedMakefile.events (makefile : RenderedMakefile) : List Event :=
  ruleEvents makefile.rules

/-- The Makefile of the collected groups. -/
def renderMakefile (configuration : Configuration) (view : SourceView)
    (groups : List CollectedGroup) (release : Bool) : RenderedMakefile :=
  let layout := configuration.layout
  let rules := groups.flatMap (resolveRules layout view)
  { text :=
      Makefile.preamble layout.library (configuration.flags.select release) ++
        (layout.objectLists configuration.objectLists groups).flatten ++
        Makefile.targets ++
        renderRules rules
    rules }

end HeaderMake
