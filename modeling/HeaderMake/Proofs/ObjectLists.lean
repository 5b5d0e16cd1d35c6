import HeaderMake.Makefile.Render
import HeaderMake.Proofs.Configuration.Loading
import Mathlib.Data.List.Nodup

/-!
# Each object list once

A group with a variable should have its object list in the Makefile, and have it there
once.  The lists are ordered by names: an entry of the configured order stands for the
first group of its name, and all groups of that name are left out of the rest.  So every
list is written exactly once if no configured name is ambiguous, in the sense of
`ListedOnce`, and only then if the lists of different groups differ
(`objectLists_once_exactly`).

Neither the names of groups nor the entries of the order are checked when a configuration
is read.  The list of a group whose name has been taken before is lost, and an entry that
is repeated repeats its list (`object_list_lost_by_namesake`).
-/

namespace HeaderMake

/-! ## Groups and their lists -/

/-- Whether the objects of a group are held by a variable. -/
def CollectedGroup.hasVariable (collected : CollectedGroup) : Bool :=
  collected.group.objectsVariable.isSome

/-- The object list of a group, if it has a variable. -/
def Layout.objectList? (layout : Layout) (collected : CollectedGroup) :
    Option Text :=
  collected.group.objectsVariable.map fun name =>
    layout.objectList name collected.files

/-- The groups of a name that have a variable. -/
def holders (groups : List CollectedGroup) (name : Text) :
    List CollectedGroup :=
  groups.filter fun collected =>
    collected.group.name = name && collected.hasVariable

/-- The group that an entry of the order stands for. -/
def firstNamed? (groups : List CollectedGroup) (name : Text) :
    Option CollectedGroup :=
  groups.find? (·.group.name = name)

/-- No entry of the order is ambiguous: if a group with a variable has its name, then the
entry is not repeated, and that group is the first of the name and the only one of the
name with a variable. -/
def ListedOnce (order : List Text) (groups : List CollectedGroup) : Prop :=
  ∀ name ∈ order, holders groups name = [] ∨
    (order.count name = 1 ∧
      holders groups name = (firstNamed? groups name).toList)

instance (order : List Text) (groups : List CollectedGroup) :
    Decidable (ListedOnce order groups) :=
  inferInstanceAs (Decidable (∀ name ∈ order, _))

theorem mem_holders_iff {groups : List CollectedGroup} {name : Text}
    {collected : CollectedGroup} :
    collected ∈ holders groups name ↔
      collected ∈ groups ∧ collected.group.name = name ∧
        collected.hasVariable := by
  simp [holders]

theorem name_of_firstNamed? {groups : List CollectedGroup} {name : Text}
    {collected : CollectedGroup}
    (h : firstNamed? groups name = some collected) :
    collected.group.name = name := by
  simpa using List.find?_some h

theorem mem_of_firstNamed? {groups : List CollectedGroup} {name : Text}
    {collected : CollectedGroup}
    (h : firstNamed? groups name = some collected) : collected ∈ groups :=
  List.mem_of_find?_eq_some h

theorem hasVariable_of_objectList? {layout : Layout}
    {collected : CollectedGroup} {list : Text}
    (h : layout.objectList? collected = some list) :
    collected.hasVariable := by
  obtain ⟨name, hname, -⟩ := Option.map_eq_some_iff.mp h
  simp [CollectedGroup.hasVariable, hname]

theorem exists_objectList?_of_hasVariable {collected : CollectedGroup}
    (layout : Layout) (h : collected.hasVariable) :
    ∃ list, layout.objectList? collected = some list := by
  obtain ⟨name, hname⟩ := Option.isSome_iff_exists.mp h
  exact ⟨_, by rw [Layout.objectList?, hname, Option.map_some]⟩

/-! ## Counting the listed groups -/

theorem count_filterMap_firstNamed? {order : List Text}
    {groups : List CollectedGroup} {collected : CollectedGroup}
    (h : firstNamed? groups collected.group.name = some collected) :
    (order.filterMap (firstNamed? groups)).count collected =
      order.count collected.group.name := by
  rw [List.count_filterMap, List.count]
  apply List.countP_congr
  intro name _
  rw [beq_iff_eq, beq_iff_eq]
  constructor
  · intro hname
    exact (name_of_firstNamed? hname).symm
  · rintro rfl
    exact h

theorem count_filterMap_firstNamed?_eq_zero {order : List Text}
    {groups : List CollectedGroup} {collected : CollectedGroup}
    (h : ∀ name ∈ order, firstNamed? groups name ≠ some collected) :
    (order.filterMap (firstNamed? groups)).count collected = 0 := by
  rw [List.count_eq_zero, List.mem_filterMap]
  rintro ⟨name, hname, hfirst⟩
  exact h name hname hfirst

/-- If no entry of the order is ambiguous, each group with a variable is listed as often
as it is configured. -/
theorem perm_listed_of_listedOnce {order : List Text}
    {groups : List CollectedGroup} (honce : ListedOnce order groups) :
    ((objectListOrder order groups).filter CollectedGroup.hasVariable).Perm
      (groups.filter CollectedGroup.hasVariable) := by
  rw [List.perm_iff_count]
  intro collected
  by_cases hvariable : collected.hasVariable
  · rw [List.count_filter hvariable, List.count_filter hvariable,
      objectListOrder, List.count_append]
    change (order.filterMap (firstNamed? groups)).count collected + _ = _
    by_cases hname : collected.group.name ∈ order
    · have hrest : (groups.filter (·.group.name ∉ order)).count collected
          = 0 := by
        rw [List.count_eq_zero, List.mem_filter]
        rintro ⟨-, hnot⟩
        exact of_decide_eq_true hnot hname
      rw [hrest, Nat.add_zero]
      by_cases hmem : collected ∈ groups
      · have hholder : collected ∈ holders groups collected.group.name :=
          mem_holders_iff.mpr ⟨hmem, rfl, hvariable⟩
        rcases honce _ hname with hnone | ⟨hcount, hholders⟩
        · rw [hnone] at hholder
          cases hholder
        · have hfirst : firstNamed? groups collected.group.name =
              some collected := by
            rwa [hholders, Option.mem_toList] at hholder
          have hsingle : (holders groups collected.group.name).count
              collected = groups.count collected :=
            List.count_filter (by simp [hvariable])
          rw [count_filterMap_firstNamed? hfirst, hcount, ← hsingle,
            hholders, hfirst, Option.toList_some, List.count_singleton_self]
      · rw [List.count_eq_zero.mpr hmem]
        apply count_filterMap_firstNamed?_eq_zero
        intro name _ hfirst
        exact hmem (mem_of_firstNamed? hfirst)
    · have hnamed : (order.filterMap (firstNamed? groups)).count collected
          = 0 := by
        apply count_filterMap_firstNamed?_eq_zero
        intro name hmem hfirst
        rw [name_of_firstNamed? hfirst] at hname
        exact hname hmem
      rw [hnamed, Nat.zero_add]
      exact List.count_filter (by simp [hname])
  · rw [List.count_eq_zero.mpr, List.count_eq_zero.mpr]
    · exact fun hmem => hvariable (List.mem_filter.mp hmem).2
    · exact fun hmem => hvariable (List.mem_filter.mp hmem).2

/-! ## Lists that differ -/

theorem eq_of_nodup_filterMap {α β : Type} {f : α → Option β} {xs : List α}
    (hnodup : (xs.filterMap f).Nodup) {x y : α} (hx : x ∈ xs) (hy : y ∈ xs)
    {z : β} (hxz : f x = some z) (hyz : f y = some z) : x = y := by
  induction xs with
  | nil => cases hx
  | cons a xs ih =>
      cases ha : f a with
      | none =>
          rw [List.filterMap_cons_none ha] at hnodup
          have hx' : x ∈ xs := by
            rcases List.mem_cons.mp hx with rfl | hx
            · rw [ha] at hxz
              cases hxz
            · exact hx
          have hy' : y ∈ xs := by
            rcases List.mem_cons.mp hy with rfl | hy
            · rw [ha] at hyz
              cases hyz
            · exact hy
          exact ih hnodup hx' hy'
      | some b =>
          rw [List.filterMap_cons_some ha, List.nodup_cons] at hnodup
          obtain ⟨hfresh, hnodup⟩ := hnodup
          rcases List.mem_cons.mp hx with rfl | hx' <;>
            rcases List.mem_cons.mp hy with rfl | hy'
          · rfl
          · rw [hxz] at ha
            cases ha
            exact absurd (List.mem_filterMap.mpr ⟨y, hy', hyz⟩) hfresh
          · rw [hyz] at ha
            cases ha
            exact absurd (List.mem_filterMap.mpr ⟨x, hx', hxz⟩) hfresh
          · exact ih hnodup hx' hy'

theorem count_le_one_of_nodup_filterMap {α β : Type} [BEq α] [LawfulBEq α]
    [DecidableEq β] {f : α → Option β} {xs : List α}
    (hnodup : (xs.filterMap f).Nodup) {x : α} {z : β} (hxz : f x = some z) :
    xs.count x ≤ 1 := by
  have hle : xs.count x ≤ (xs.filterMap f).count z := by
    rw [List.count_filterMap]
    apply List.countP_mono_left
    intro y _ hy
    rw [beq_iff_eq] at hy ⊢
    rw [hy, hxz]
  exact Nat.le_trans hle (List.nodup_iff_count_le_one.mp hnodup z)

theorem objectLists_eq_filterMap (layout : Layout) (order : List Text)
    (groups : List CollectedGroup) :
    layout.objectLists order groups =
      (objectListOrder order groups).filterMap layout.objectList? := rfl

/-- A list of its own that is written at all comes from the group itself, so a group
whose name is in the order is the group that its name stands for. -/
theorem firstNamed?_eq_of_mem_objectLists {layout : Layout}
    {order : List Text} {groups : List CollectedGroup}
    (hdistinct : (groups.filterMap layout.objectList?).Nodup)
    {collected : CollectedGroup} {list : Text} (hmem : collected ∈ groups)
    (hname : collected.group.name ∈ order)
    (hlist : layout.objectList? collected = some list)
    (hwritten : list ∈ layout.objectLists order groups) :
    firstNamed? groups collected.group.name = some collected := by
  rw [objectLists_eq_filterMap] at hwritten
  obtain ⟨other, hother, hsame⟩ := List.mem_filterMap.mp hwritten
  rcases List.mem_append.mp hother with hnamed | hrest
  · obtain ⟨name, -, hfirst⟩ := List.mem_filterMap.mp hnamed
    have hgroup : other ∈ groups := List.mem_of_find?_eq_some hfirst
    have heq : other = collected :=
      eq_of_nodup_filterMap hdistinct hgroup hmem hsame hlist
    subst heq
    have hown : other.group.name = name := name_of_firstNamed? hfirst
    rw [hown]
    exact hfirst
  · obtain ⟨hgroup, hnot⟩ := List.mem_filter.mp hrest
    have heq : other = collected :=
      eq_of_nodup_filterMap hdistinct hgroup hmem hsame hlist
    subst heq
    exact absurd hname (of_decide_eq_true hnot)

theorem listedOnce_of_perm {layout : Layout} {order : List Text}
    {groups : List CollectedGroup}
    (hdistinct : (groups.filterMap layout.objectList?).Nodup)
    (hperm : (layout.objectLists order groups).Perm
      (groups.filterMap layout.objectList?)) :
    ListedOnce order groups := by
  intro name hname
  by_cases hnone : holders groups name = []
  · exact .inl hnone
  right
  have hfirst : ∀ collected ∈ holders groups name,
      firstNamed? groups name = some collected := by
    intro collected hholder
    obtain ⟨hmem, rfl, hvariable⟩ := mem_holders_iff.mp hholder
    obtain ⟨list, hlist⟩ :=
      exists_objectList?_of_hasVariable layout hvariable
    apply firstNamed?_eq_of_mem_objectLists hdistinct hmem hname hlist
    exact hperm.mem_iff.mpr (List.mem_filterMap.mpr ⟨_, hmem, hlist⟩)
  obtain ⟨collected, hholder⟩ := List.exists_mem_of_ne_nil _ hnone
  obtain ⟨hmem, -, hvariable⟩ := mem_holders_iff.mp hholder
  obtain ⟨list, hlist⟩ := exists_objectList?_of_hasVariable layout hvariable
  constructor
  · have hnodup : (order.filterMap fun name =>
        (firstNamed? groups name).bind layout.objectList?).Nodup := by
      have hall := hperm.nodup_iff.mpr hdistinct
      rw [objectLists_eq_filterMap, objectListOrder,
        List.filterMap_append] at hall
      rw [← List.filterMap_filterMap]
      exact hall.of_append_left
    have hle : order.count name ≤ 1 := by
      apply count_le_one_of_nodup_filterMap hnodup
      rw [hfirst collected hholder]
      exact hlist
    have hpos : 0 < order.count name := List.count_pos_iff.mpr hname
    omega
  · have hall : ∀ other ∈ holders groups name, other = collected := by
      intro other hother
      have heq := hfirst other hother
      rw [hfirst collected hholder] at heq
      exact (Option.some.inj heq).symm
    have hle : (holders groups name).count collected ≤ 1 :=
      Nat.le_trans (List.filter_sublist.count_le _)
        (count_le_one_of_nodup_filterMap hdistinct hlist)
    have hlength : (holders groups name).length = 1 := by
      have hcount : (holders groups name).count collected =
          (holders groups name).length :=
        List.count_eq_length.mpr fun other hother => (hall other hother).symm
      have hpos : 0 < (holders groups name).length :=
        List.length_pos_of_mem hholder
      omega
    rw [hfirst collected hholder, Option.toList_some,
      List.eq_replicate_of_mem hall, hlength, List.replicate_one]

/-! ## The lists of a Makefile -/

theorem names_filterMap_firstNamed? (order : List Text)
    (groups : List CollectedGroup) :
    ((order.filterMap (firstNamed? groups)).map (·.group.name)).Sublist
      order := by
  induction order with
  | nil => exact .slnil
  | cons name order ih =>
      cases hfirst : firstNamed? groups name with
      | none =>
          rw [List.filterMap_cons_none hfirst]
          exact ih.cons name
      | some collected =>
          rw [List.filterMap_cons_some hfirst, List.map_cons,
            name_of_firstNamed? hfirst]
          exact ih.cons_cons name

/-- If no entry of the order is ambiguous, the object lists of a Makefile are those of
the groups with a variable, each once: first those that the order names, in its order,
and then the others as they are configured.  Where different groups have different
lists, they are so only then. -/
theorem objectLists_once_exactly (configuration : Configuration)
    (view : SourceView) (groups : List CollectedGroup) (release : Bool) :
    (ListedOnce configuration.objectLists groups →
      ∃ named others : List CollectedGroup,
        (renderMakefile configuration view groups release).text =
          Makefile.preamble configuration.layout.library
              (configuration.flags.select release) ++
            ((named ++ others).filterMap
              configuration.layout.objectList?).flatten ++
            Makefile.targets ++
            renderRules
              (renderMakefile configuration view groups release).rules ∧
        (named ++ others).Perm
          (groups.filter CollectedGroup.hasVariable) ∧
        (named.map (·.group.name)).Sublist configuration.objectLists ∧
        others.Sublist groups ∧
        ∀ collected ∈ others,
          collected.group.name ∉ configuration.objectLists) ∧
    ((groups.filterMap configuration.layout.objectList?).Nodup →
      (configuration.layout.objectLists configuration.objectLists
        groups).Perm
          (groups.filterMap configuration.layout.objectList?) →
      ListedOnce configuration.objectLists groups) := by
  constructor
  · intro honce
    refine ⟨(configuration.objectLists.filterMap
        (firstNamed? groups)).filter CollectedGroup.hasVariable,
      (groups.filter (·.group.name ∉ configuration.objectLists)).filter
        CollectedGroup.hasVariable, ?_, ?_, ?_, ?_, ?_⟩
    · rw [← List.filter_append, List.filterMap_filter]
      have hlists : configuration.layout.objectLists
          configuration.objectLists groups =
            (objectListOrder configuration.objectLists groups).filterMap
              fun collected =>
                if collected.hasVariable then
                  configuration.layout.objectList? collected
                else none := by
        rw [objectLists_eq_filterMap]
        apply List.filterMap_congr
        intro collected _
        by_cases hvariable : collected.hasVariable
        · rw [if_pos hvariable]
        · rw [if_neg hvariable]
          cases hlist : configuration.layout.objectList? collected with
          | none => rfl
          | some list =>
              exact absurd (hasVariable_of_objectList? hlist) hvariable
      simp only [renderMakefile, hlists]
      rfl
    · rw [← List.filter_append]
      exact perm_listed_of_listedOnce honce
    · exact (List.filter_sublist.map _).trans
        (names_filterMap_firstNamed? _ _)
    · exact List.filter_sublist.trans List.filter_sublist
    · intro collected hmem
      have hrest := (List.mem_filter.mp hmem).1
      exact of_decide_eq_true (List.mem_filter.mp hrest).2
  · exact listedOnce_of_perm

/-- The conventional groups, with the sources that they name themselves. -/
def CollectedGroup.standard : List CollectedGroup :=
  SourceGroup.standard.map fun group => ⟨group, group.files⟩

theorem objectLists_once_standard :
    ListedOnce Configuration.standard.objectLists CollectedGroup.standard ∧
      ∃ named others : List CollectedGroup,
        (named ++ others).Perm
          (CollectedGroup.standard.filter CollectedGroup.hasVariable) ∧
        (named.map (·.group.name)).Sublist
          Configuration.standard.objectLists := by
  have honce : ListedOnce Configuration.standard.objectLists
      CollectedGroup.standard := by decide
  obtain ⟨named, others, -, hperm, hnamed, -, -⟩ :=
    (objectLists_once_exactly .standard ⟨fun _ => none, [], by simp⟩
      CollectedGroup.standard false).1 honce
  exact ⟨honce, named, others, hperm, hnamed⟩

/-! ## A name taken twice -/

/-- A group that names one source and holds its object by a variable. -/
def SourceGroup.ofSource (name : Text) (source : Path) (variableName : Text) :
    SourceGroup where
  name
  directory := none
  files := [source]
  recursive := false
  includeFlags := []
  objectsVariable := some variableName
  vendored := false
  tracked := true

/-- Two groups of one name, which the order holds. -/
def Configuration.namesakes : Configuration :=
  { Configuration.standard with
    groups :=
      [.ofSource "lib".toList "a".toList "A".toList,
        .ofSource "lib".toList "b".toList "B".toList] }

/-- The document of that configuration. -/
def namesakesDocument : Text :=
  ("[[group]]\nname='lib'\nfiles=['a']\nobjects_var='A'\n" ++
    "[[group]]\nname='lib'\nfiles=['b']\nobjects_var='B'\n").toList

/-- The entries of a group that names one source. -/
def sourceEntries (source : Path) (variableName : Text) : Toml.Entries :=
  [("name".toList, .string "lib".toList),
    ("files".toList, .array [.string source]),
    ("objects_var".toList, .string variableName)]

theorem parse_namesakes :
    Configuration.parse namesakesDocument = .ok .namesakes := by
  have htoml : Toml.parse? namesakesDocument =
      some (.table .header [("group".toList,
        .tables [sourceEntries "a".toList "A".toList,
          sourceEntries "b".toList "B".toList])]) := by
    with_unfolding_all rfl
  have hvalue : Configuration.ofValue? (.table .header [("group".toList,
        .tables [sourceEntries "a".toList "A".toList,
          sourceEntries "b".toList "B".toList])]) =
      some .namesakes := by rfl
  exact Configuration.parse_eq_ok htoml hvalue (by rfl)

/-- Of two groups with one name only the first has its object list written, and an entry
that stands in the order twice has its list written twice.  The configuration of the two
groups can be read from a document. -/
theorem object_list_lost_by_namesake :
    Configuration.parse namesakesDocument = .ok .namesakes ∧
    ¬(Configuration.namesakes.layout.objectLists
        Configuration.namesakes.objectLists
        (Workspace.collectGroups ⟨.empty, []⟩ .namesakes)).Perm
      ((Workspace.collectGroups ⟨.empty, []⟩ .namesakes).filterMap
        Configuration.namesakes.layout.objectList?) ∧
    ¬(Layout.standard.objectLists ["lib".toList, "lib".toList]
        CollectedGroup.standard).Perm
      (CollectedGroup.standard.filterMap Layout.standard.objectList?) := by
  refine ⟨parse_namesakes, ?_, ?_⟩
  · intro hperm
    have hlength := hperm.length_eq
    revert hlength
    decide
  · intro hperm
    have hlength := hperm.length_eq
    revert hlength
    decide

end HeaderMake
