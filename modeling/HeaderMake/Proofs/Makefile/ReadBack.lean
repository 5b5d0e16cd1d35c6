import HeaderMake.Proofs.Include.Visit
import HeaderMake.Proofs.Makefile.RuleBlocks
import HeaderMake.Run.Plan

/-!
# A Makefile read back

What stands behind the fixed targets of a Makefile is a block for each collected source,
in the order of the groups and of their files, and each block shows the rule of its
source (`rules_read_back`).  There are as many blocks as the plan of the run says.

The object lists stand before the fixed targets.  `listedObjects?` reads the list of a
variable, and every object in it is made by one of the blocks.
-/

namespace HeaderMake

/-! ## The rules of a Makefile -/

/-- The rules of collected groups: one for each file, group after group. -/
def compileRules (layout : Layout) (view : SourceView)
    (groups : List CollectedGroup) : List CompileRule :=
  groups.flatMap fun collected =>
    collected.files.map fun file =>
      (resolveRule layout view collected.group file).rule

/-- The text of a Makefile up to the end of the fixed targets. -/
def Configuration.makefileStart (configuration : Configuration)
    (groups : List CollectedGroup) (release : Bool) : Text :=
  Makefile.preamble configuration.layout.library
      (configuration.flags.select release) ++
    (configuration.layout.objectLists configuration.objectLists
      groups).flatten ++
    Makefile.targets

/-- The blocks behind the fixed targets in the text of a Makefile. -/
def Configuration.ruleBlocks? (configuration : Configuration)
    (groups : List CollectedGroup) (release : Bool) (text : Text) :
    Option (List RuleBlock) :=
  (Text.dropLeading? (configuration.makefileStart groups release) text).bind
    RuleBlock.ofText?

theorem map_rule_rules_renderMakefile (configuration : Configuration)
    (view : SourceView) (groups : List CollectedGroup) (release : Bool) :
    (renderMakefile configuration view groups release).rules.map (·.rule) =
      compileRules configuration.layout view groups := by
  simp only [renderMakefile, compileRules, resolveRules, List.map_flatMap,
    List.map_map]
  rfl

theorem length_compileRules (layout : Layout) (view : SourceView)
    (groups : List CollectedGroup) :
    (compileRules layout view groups).length =
      (groups.flatMap (·.files)).length := by
  simp only [compileRules, List.length_flatMap, List.length_map]

theorem mem_compileRules (layout : Layout) (view : SourceView)
    {groups : List CollectedGroup} {collected : CollectedGroup} {file : Path}
    (hcollected : collected ∈ groups) (hfile : file ∈ collected.files) :
    (resolveRule layout view collected.group file).rule ∈
      compileRules layout view groups :=
  List.mem_flatMap.mpr ⟨collected, hcollected, List.mem_map_of_mem hfile⟩

theorem ruleBlocks?_renderMakefile {configuration : Configuration}
    {view : SourceView} {groups : List CollectedGroup} {release : Bool}
    (h : ∀ rule ∈ compileRules configuration.layout view groups,
      rule.Legible) :
    configuration.ruleBlocks? groups release
        (renderMakefile configuration view groups release).text =
      some ((compileRules configuration.layout view groups).map
        RuleBlock.ofRule) := by
  have hrest : Text.dropLeading? (configuration.makefileStart groups release)
      (renderMakefile configuration view groups release).text =
        some (renderRules
          (renderMakefile configuration view groups release).rules) :=
    Text.dropLeading?_eq_some_iff.mpr rfl
  rw [← map_rule_rules_renderMakefile configuration view groups release] at h ⊢
  rw [Configuration.ruleBlocks?, hrest, Option.bind_some,
    RuleBlock.ofText?_renderRules (List.forall_mem_map.mp h), List.map_map]
  rfl

/-! ## Object lists -/

/-- The objects that the text of an object list names behind its variable.  An empty entry
names nothing. -/
def listedObjects? (name list : Text) : Option (List Path) := do
  let entries ← Text.dropLeading?
    ((name ++ " =".toList).rightpad objectColumn ' ') list
  let entries ← Text.dropEnding? "\n\n".toList entries
  return (Text.pieces objectSeparator entries).filter (· ≠ [])

theorem pieces_objects {objects : List Path}
    (h : ∀ object ∈ objects, ' ' ∉ object) :
    (Text.pieces objectSeparator
        (List.intercalate objectSeparator objects)).filter (· ≠ []) =
      objects.filter (· ≠ []) := by
  cases objects with
  | nil =>
      -- No entries are written as the empty text, which reads as one empty entry.
      have hnone : Text.cutAt? objectSeparator [] = none := by decide
      rw [List.intercalate_nil, Text.pieces_of_cutAt?_none hnone]
      rfl
  | cons object objects =>
      rw [Text.pieces_intercalate (by decide) (List.cons_ne_nil _ _)]
      intro entry hentry rest
      exact Text.cutAt?_append_mark (h entry hentry) rest

theorem listedObjects?_objectList (layout : Layout) (name : Text)
    {files : List Path}
    (h : ∀ file ∈ files, (layout.objectFile file).Unbroken) :
    listedObjects? name (layout.objectList name files) =
      some ((files.map layout.objectFile).filter (· ≠ [])) := by
  have hobjects : ∀ object ∈ files.map layout.objectFile, ' ' ∉ object := by
    intro object hobject
    obtain ⟨file, hfile, rfl⟩ := List.mem_map.mp hobject
    exact (h file hfile).1
  have hhead : Text.dropLeading?
      ((name ++ " =".toList).rightpad objectColumn ' ')
      (layout.objectList name files) =
        some (List.intercalate objectSeparator (files.map layout.objectFile) ++
          "\n\n".toList) :=
    Text.dropLeading?_eq_some_iff.mpr (List.append_assoc ..)
  rw [listedObjects?, hhead]
  simp only [Option.bind_eq_bind, Option.bind_some, Text.dropEnding?_append,
    pieces_objects hobjects]
  rfl

theorem mem_of_mem_objectListOrder {order : List Text}
    {groups : List CollectedGroup} {collected : CollectedGroup}
    (h : collected ∈ objectListOrder order groups) : collected ∈ groups := by
  rcases List.mem_append.mp h with hnamed | hrest
  · obtain ⟨name, -, hfirst⟩ := List.mem_filterMap.mp hnamed
    exact List.mem_of_find?_eq_some hfirst
  · exact (List.mem_filter.mp hrest).1

/-- An object list is that of a collected group with a variable. -/
theorem exists_group_of_mem_objectLists {layout : Layout} {order : List Text}
    {groups : List CollectedGroup} {list : Text}
    (h : list ∈ layout.objectLists order groups) :
    ∃ collected ∈ groups, ∃ name,
      collected.group.objectsVariable = some name ∧
        list = layout.objectList name collected.files := by
  obtain ⟨collected, hcollected, hlist⟩ := List.mem_filterMap.mp h
  obtain ⟨name, hname, rfl⟩ := Option.map_eq_some_iff.mp hlist
  exact ⟨collected, mem_of_mem_objectListOrder hcollected, name, hname, rfl⟩

/-! ## The whole Makefile -/

/-- If the rules of the collected sources are legible, the text behind the fixed targets
consists of one block for each source, and the blocks are read back as these rules, in
their order.  There are as many blocks as the plan has rules.  Each object list that
stands before the fixed targets is read back as the objects of a group that names its
variable, and each of these is made by one of the blocks. -/
theorem rules_read_back (configuration : Configuration) {view : SourceView}
    {groups : List CollectedGroup} (release : Bool)
    (hlegible : ∀ rule ∈ compileRules configuration.layout view groups,
      rule.Legible) :
    ∃ blocks,
      configuration.ruleBlocks? groups release
          (renderMakefile configuration view groups release).text =
        some blocks ∧
      blocks.mapM RuleBlock.rule? =
        some (compileRules configuration.layout view groups) ∧
      blocks.length =
        (Plan.ofGroups configuration view groups release).rules ∧
      ∀ list ∈ configuration.layout.objectLists configuration.objectLists
          groups,
        ∃ collected ∈ groups, ∃ name objects,
          collected.group.objectsVariable = some name ∧
          listedObjects? name list = some objects ∧
          objects = (collected.files.map
            configuration.layout.objectFile).filter (· ≠ []) ∧
          ∀ object ∈ objects, ∃ block ∈ blocks,
            block.rule?.map (·.object) = some object := by
  refine ⟨_, ruleBlocks?_renderMakefile hlegible,
    RuleBlock.mapM_rule?_map_ofRule hlegible, ?_, ?_⟩
  · rw [List.length_map]
    exact length_compileRules _ _ _
  · intro list hlist
    obtain ⟨collected, hcollected, name, hname, rfl⟩ :=
      exists_group_of_mem_objectLists hlist
    refine ⟨collected, hcollected, name, _, hname, ?_, rfl, ?_⟩
    · apply listedObjects?_objectList
      intro file hfile
      exact (hlegible _ (mem_compileRules _ _ hcollected hfile)).object
    · intro object hobject
      obtain ⟨file, hfile, rfl⟩ :=
        List.mem_map.mp (List.mem_of_mem_filter hobject)
      have hrule :=
        mem_compileRules configuration.layout view hcollected hfile
      refine ⟨_, List.mem_map_of_mem hrule, ?_⟩
      rw [RuleBlock.rule?_ofRule (hlegible _ hrule)]
      rfl

/-! ## Two rules with flags of several words -/

/-- A library source with a header. -/
def SourceView.headed : SourceView where
  read path :=
    if path = "lib/a.cpp".toList then
      some (Utf8.encode "#include \"b.h\"\n".toList)
    else if path = "lib/b.h".toList then some []
    else none
  finite := by
    refine ⟨["lib/a.cpp".toList, "lib/b.h".toList], ?_⟩
    intro path hread
    split at hread
    · next heq => exact heq ▸ List.mem_cons_self
    · split at hread
      · next heq => exact heq ▸ List.mem_cons_of_mem _ (List.mem_singleton_self _)
      · cases hread

/-- That source and one that is missing, compiled without warnings and with several
include options. -/
def CollectedGroup.headed : CollectedGroup where
  group :=
    { SourceGroup.scanning "lib".toList "lib/".toList "-Ilib -I ext".toList
        (some "LIBOBJ".toList) with
      vendored := true }
  files := ["lib/a.cpp".toList, "lib/c.cpp".toList]

theorem dependencies_resolve_headed :
    (resolve .standard .headed "lib/a.cpp".toList).dependencies =
      ["lib/cxx11emu.h".toList, "lib/b.h".toList] := by
  have hsource : SourceView.headed.read "lib/a.cpp".toList =
      some (Utf8.encode "#include \"b.h\"\n".toList) := rfl
  have hheader : SourceView.headed.read "lib/b.h".toList = some [] := rfl
  have hincluded : includedPaths "lib/a.cpp".toList
      (Utf8.encode "#include \"b.h\"\n".toList) =
        ["lib/b.h".toList] := by decide +kernel
  have hnothing : includedPaths "lib/b.h".toList [] = [] := rfl
  rw [resolve, walkIncludes_of_not_mem (by decide),
    Layout.followUps_of_read hsource, hincluded, List.map_singleton,
    List.append_nil, walkIncludes_of_not_mem (by decide),
    Layout.followUps_of_read hheader, hnothing, List.map_nil,
    List.nil_append, walkIncludes_nil]
  rfl

theorem dependencies_resolve_missing :
    (resolve .standard .headed "lib/c.cpp".toList).dependencies =
      ["lib/cxx11emu.h".toList] := by
  have hread : SourceView.headed.read "lib/c.cpp".toList = none := rfl
  have hnowhere : Layout.standard.fallback? ⟨"lib/c.cpp".toList, false⟩ =
      none := by decide +kernel
  rw [resolve, walkIncludes_of_not_mem (by decide),
    Layout.followUps_of_unreadable hread, hnowhere, Option.toList_none,
    List.map_nil, List.nil_append, walkIncludes_nil]
  rfl

/-- The rules of the two sources. -/
def CompileRule.headed : List CompileRule :=
  [{ object := "$(SRCDIR)/a.o".toList
     source := "lib/a.cpp".toList
     recipeSource := "$(SRCDIR)/a.cpp".toList
     prerequisites := ["lib/cxx11emu.h".toList, "lib/b.h".toList]
     includeFlags := "-Ilib -I ext".toList
     suppressWarnings := true },
   { object := "$(SRCDIR)/c.o".toList
     source := "lib/c.cpp".toList
     recipeSource := "$(SRCDIR)/c.cpp".toList
     prerequisites := ["lib/cxx11emu.h".toList]
     includeFlags := "-Ilib -I ext".toList
     suppressWarnings := true }]

theorem compileRules_headed :
    compileRules .standard .headed [.headed] = CompileRule.headed := by
  have hsource : Layout.standard.compileRule CollectedGroup.headed.group
      "lib/a.cpp".toList ["lib/cxx11emu.h".toList, "lib/b.h".toList] =
        CompileRule.headed.head (by decide) := rfl
  have hmissing : Layout.standard.compileRule CollectedGroup.headed.group
      "lib/c.cpp".toList ["lib/cxx11emu.h".toList] =
        CompileRule.headed.getLast (by decide) := rfl
  change [(resolveRule .standard .headed CollectedGroup.headed.group
      "lib/a.cpp".toList).rule,
    (resolveRule .standard .headed CollectedGroup.headed.group
      "lib/c.cpp".toList).rule] = _
  simp only [resolveRule, dependencies_resolve_headed,
    dependencies_resolve_missing, hsource, hmissing]
  rfl

theorem legible_headed : ∀ rule ∈ CompileRule.headed, rule.Legible := by
  intro rule hrule
  rcases List.mem_pair.mp hrule with rfl | rfl
  · exact ⟨by decide, by decide, by decide, by decide, by decide⟩
  · exact ⟨by decide, by decide, by decide, by decide, by decide⟩

/-- The objects of the two sources are listed, and both are made. -/
theorem rules_read_back_headed :
    (∀ rule ∈ compileRules .standard .headed [.headed], rule.Legible) ∧
      ∃ blocks list,
        Configuration.standard.ruleBlocks? [.headed] false
            (renderMakefile .standard .headed [.headed] false).text =
          some blocks ∧
        blocks.mapM RuleBlock.rule? = some CompileRule.headed ∧
        blocks.length = 2 ∧
        Layout.standard.objectLists Configuration.standard.objectLists
          [.headed] = [list] ∧
        listedObjects? "LIBOBJ".toList list =
          some ["$(SRCDIR)/a.o".toList, "$(SRCDIR)/c.o".toList] ∧
        ∀ object ∈ ["$(SRCDIR)/a.o".toList, "$(SRCDIR)/c.o".toList],
          ∃ block ∈ blocks, block.rule?.map (·.object) = some object := by
  have hlegible : ∀ rule ∈ compileRules .standard .headed [.headed],
      rule.Legible := by
    rw [compileRules_headed]
    exact legible_headed
  have hlists : Layout.standard.objectLists Configuration.standard.objectLists
      [.headed] = [Layout.standard.objectList "LIBOBJ".toList
        CollectedGroup.headed.files] := rfl
  have hobjects : (CollectedGroup.headed.files.map
      Layout.standard.objectFile).filter (· ≠ []) =
        ["$(SRCDIR)/a.o".toList, "$(SRCDIR)/c.o".toList] := by decide
  obtain ⟨blocks, hblocks, hrules, hlength, hlisted⟩ :=
    rules_read_back .standard false hlegible
  obtain ⟨collected, hcollected, name, objects, hname, hread, rfl, hmade⟩ :=
    hlisted _ (hlists ▸ List.mem_singleton_self _)
  obtain rfl := List.mem_singleton.mp hcollected
  obtain rfl : "LIBOBJ".toList = name := Option.some_inj.mp hname
  change listedObjects? _ _ = some ((CollectedGroup.headed.files.map
    Layout.standard.objectFile).filter (· ≠ [])) at hread
  change ∀ object ∈ (CollectedGroup.headed.files.map
    Layout.standard.objectFile).filter (· ≠ []), _ at hmade
  rw [hobjects] at hread hmade
  exact ⟨hlegible, blocks, _, hblocks,
    hrules.trans (congrArg some compileRules_headed), hlength, hlists, hread,
    hmade⟩

end HeaderMake
