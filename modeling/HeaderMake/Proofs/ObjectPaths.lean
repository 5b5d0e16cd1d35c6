import HeaderMake.Proofs.SharedObjects
import HeaderMake.Proofs.Text.Extensions
import Mathlib.Data.Set.Function

/-!
# Objects and the sources that recipes name

The object of a source is found by cutting off an extension and moving what is left,
while the source that a recipe names is moved as a whole.  Whether a path is moved is
decided at a slash, and neither the extension of a source nor that of an object holds
one; so both paths are their common stem, moved or not, with an extension behind it
(`compileRules_move_together`).

For the same reason a library source is moved onto the object of another source only if
it is itself moved onto that source.  Sources with one extension that do not lie in the
build directory have different objects (`objectFile_injOn_units`).
-/

namespace HeaderMake

/-! ## Names behind a path -/

/-- A character that a name does not hold stands in front of the name. -/
theorem Text.exists_append_of_append_eq {c : Char} {name : Text} (h : c ∉ name)
    {text start rest : Text} (heq : text ++ name = start ++ c :: rest) :
    ∃ between, text = start ++ c :: between ∧ rest = between ++ name := by
  rcases List.append_eq_append_iff.mp heq with
    ⟨between, -, hname⟩ | ⟨between, htext, hrest⟩
  · rw [hname] at h
    simp at h
  · cases between with
    | nil =>
        rw [List.nil_append] at hrest
        rw [← hrest] at h
        simp at h
    | cons d between =>
        rw [List.cons_append] at hrest
        obtain ⟨rfl, hbehind⟩ := List.cons.inj hrest
        exact ⟨between, htext, hbehind⟩

namespace Layout

variable {layout : Layout} {name : Text}

theorem inLibrary_append_iff (h : '/' ∉ name) {path : Path} :
    layout.InLibrary (path ++ name) ↔ layout.InLibrary path := by
  constructor
  · rintro ⟨rest, heq⟩
    obtain ⟨between, hpath, -⟩ := Text.exists_append_of_append_eq h heq
    exact ⟨between, hpath⟩
  · rintro ⟨rest, rfl⟩
    exact ⟨rest ++ name, by simp⟩

/-- A name behind a path moves with the path. -/
theorem inBuildDirectory_append_name (h : '/' ∉ name) (path : Path) :
    layout.inBuildDirectory (path ++ name) =
      layout.inBuildDirectory path ++ name := by
  by_cases hlibrary : layout.InLibrary path
  · obtain ⟨rest, rfl⟩ := hlibrary
    rw [List.append_assoc, List.cons_append, inBuildDirectory_append,
      inBuildDirectory_append, List.append_assoc, List.cons_append]
  · have hname : ¬layout.InLibrary (path ++ name) := by
      rwa [inLibrary_append_iff h]
    rw [inBuildDirectory_eq_self hlibrary, inBuildDirectory_eq_self hname]

/-- A path is moved onto another one exactly if it is with a name behind both. -/
theorem movesOnto_append_iff (h : '/' ∉ name) {path other : Path} :
    layout.MovesOnto (path ++ name) (other ++ name) ↔
      layout.MovesOnto path other := by
  rw [MovesOnto, MovesOnto, inLibrary_append_iff h]
  apply and_congr_right
  intro _
  constructor
  · rintro ⟨rest, hpath, hother⟩
    obtain ⟨between, rfl, rfl⟩ := Text.exists_append_of_append_eq h hpath
    obtain ⟨between', rfl, hrest⟩ :=
      Text.exists_append_of_append_eq h hother
    exact ⟨between, rfl, by rw [List.append_cancel_right hrest]⟩
  · rintro ⟨rest, rfl, rfl⟩
    exact ⟨rest ++ name, by simp, by simp⟩

end Layout

/-! ## Stems and endings -/

/-- A path cut before the extension of its last component, or at its end if that has no
extension. -/
inductive Path.Cut (path : Path) : Path → Text → Prop
  | extension {base : Path} {extension : Text}
      (h : path.EndsInExtension base extension) :
      Cut path base ('.' :: extension)
  | whole (h : ¬path.HasExtension) : Cut path path []

namespace Path

variable {path stem : Path} {ending : Text}

theorem Cut.path_eq (h : path.Cut stem ending) : path = stem ++ ending := by
  cases h with
  | extension h => exact h.path_eq
  | whole => exact (List.append_nil path).symm

theorem Cut.slash_not_mem (h : path.Cut stem ending) : '/' ∉ ending := by
  cases h with
  | extension h =>
      rw [List.mem_cons, not_or]
      exact ⟨by decide, h.slash_not_mem⟩
  | whole => exact List.not_mem_nil

theorem Cut.stem_eq (h : path.Cut stem ending) : path.stem = stem := by
  cases h with
  | extension h => exact stem_eq_of_endsInExtension h
  | whole h => exact stem_eq_self h

/-- Every path can be cut in one way. -/
theorem existsUnique_cut (path : Path) :
    ∃! parts : Path × Text, path.Cut parts.1 parts.2 := by
  have hcut : ∃ stem ending, path.Cut stem ending := by
    by_cases h : path.HasExtension
    · obtain ⟨base, extension, hends⟩ := h
      exact ⟨base, '.' :: extension, .extension hends⟩
    · exact ⟨path, [], .whole h⟩
  obtain ⟨stem, ending, hcut⟩ := hcut
  refine ⟨(stem, ending), hcut, ?_⟩
  rintro ⟨stem', ending'⟩ hcut'
  have hstem : stem' = stem := hcut'.stem_eq.symm.trans hcut.stem_eq
  subst hstem
  have hending : ending' = ending :=
    List.append_cancel_left (hcut'.path_eq.symm.trans hcut.path_eq)
  rw [hending]

end Path

/-! ## Both paths of a rule -/

namespace Layout

variable {layout : Layout} {source stem : Path} {ending : Text}

theorem objectFile_of_cut (hobject : '/' ∉ layout.objectExtension)
    (hcut : source.Cut stem ending) :
    layout.objectFile source =
      layout.inBuildDirectory stem ++ layout.objectExtension := by
  rw [objectFile, hcut.stem_eq, inBuildDirectory_append_name hobject]

theorem inBuildDirectory_of_cut (hcut : source.Cut stem ending) :
    layout.inBuildDirectory source =
      layout.inBuildDirectory stem ++ ending := by
  rw [hcut.path_eq, inBuildDirectory_append_name hcut.slash_not_mem]

/-- What a rule makes and what its recipe compiles are one stem with two endings, in one
directory, and the stem is either moved for both or kept for both. -/
structure MovesTogether (layout : Layout) (rule : CompileRule) (stem : Path)
    (ending : Text) : Prop where
  object_eq :
    rule.object = layout.inBuildDirectory stem ++ layout.objectExtension
  recipeSource_eq : rule.recipeSource = layout.inBuildDirectory stem ++ ending
  directory_eq : rule.object.directory = rule.recipeSource.directory
  moved_or_kept :
    (∃ rest, stem = layout.libraryDirectory ++ '/' :: rest ∧
      rule.object = layout.buildDirectory ++ '/' ::
        (rest ++ layout.objectExtension) ∧
      rule.recipeSource = layout.buildDirectory ++ '/' :: (rest ++ ending)) ∨
    rule.object = stem ++ layout.objectExtension ∧
      rule.recipeSource = rule.source

theorem movesTogether_compileRule (hobject : '/' ∉ layout.objectExtension)
    (hcut : source.Cut stem ending) (group : SourceGroup)
    (prerequisites : List Path) :
    layout.MovesTogether (layout.compileRule group source prerequisites) stem
      ending where
  object_eq := objectFile_of_cut hobject hcut
  recipeSource_eq := inBuildDirectory_of_cut hcut
  directory_eq := by
    change (layout.objectFile source).directory =
      (layout.inBuildDirectory source).directory
    rw [objectFile_of_cut hobject hcut, inBuildDirectory_of_cut hcut,
      Path.directory_append hobject, Path.directory_append hcut.slash_not_mem]
  moved_or_kept := by
    change (∃ rest, _ ∧ layout.objectFile source = _ ∧
        layout.inBuildDirectory source = _) ∨
      layout.objectFile source = _ ∧ layout.inBuildDirectory source = source
    rw [objectFile_of_cut hobject hcut, inBuildDirectory_of_cut hcut]
    by_cases hlibrary : layout.InLibrary stem
    · obtain ⟨rest, rfl⟩ := hlibrary
      rw [inBuildDirectory_append]
      exact .inl ⟨rest, rfl, by simp, by simp⟩
    · rw [inBuildDirectory_eq_self hlibrary]
      exact .inr ⟨rfl, hcut.path_eq.symm⟩

end Layout

/-- With an object extension without slash, the object of every path is the stem of the
path, moved if it lies in the library, with the object extension; and the path itself is
moved by moving its stem.  So in every rule of every group the object and the source of
the recipe move together. -/
theorem compileRules_move_together {layout : Layout}
    (hobject : '/' ∉ layout.objectExtension) :
    (∀ source : Path,
      (∃! parts : Path × Text, source.Cut parts.1 parts.2) ∧
      ∀ stem ending, source.Cut stem ending →
        layout.objectFile source =
            layout.inBuildDirectory stem ++ layout.objectExtension ∧
          layout.inBuildDirectory source =
            layout.inBuildDirectory stem ++ ending) ∧
    ∀ (view : SourceView) (collected : CollectedGroup),
      ∀ resolved ∈ resolveRules layout view collected,
      ∀ stem ending, resolved.rule.source.Cut stem ending →
        layout.MovesTogether resolved.rule stem ending := by
  constructor
  · intro source
    refine ⟨source.existsUnique_cut, fun stem ending hcut => ?_⟩
    exact ⟨Layout.objectFile_of_cut hobject hcut,
      Layout.inBuildDirectory_of_cut hcut⟩
  · intro view collected resolved hresolved stem ending hcut
    obtain ⟨source, -, rfl⟩ := List.mem_map.mp hresolved
    exact Layout.movesTogether_compileRule hobject hcut _ _

/-- Neither the dot in the directory nor the first one in the name begins the extension of
this library source. -/
theorem compileRules_move_together_hidden :
    '/' ∉ Layout.standard.objectExtension ∧
      Path.Cut "lib/v1.2/.run.cpp".toList "lib/v1.2/.run".toList
        ".cpp".toList ∧
      Layout.standard.objectFile "lib/v1.2/.run.cpp".toList =
        "$(SRCDIR)/v1.2/.run.o".toList ∧
      Layout.standard.inBuildDirectory "lib/v1.2/.run.cpp".toList =
        "$(SRCDIR)/v1.2/.run.cpp".toList := by
  have hobject : '/' ∉ Layout.standard.objectExtension := by decide
  have hends : Path.EndsInExtension "lib/v1.2/.run.cpp".toList
      "lib/v1.2/.run".toList "cpp".toList :=
    ⟨rfl, by decide, by decide, by decide⟩
  have hstem : Layout.standard.inBuildDirectory "lib/v1.2/.run".toList =
      "$(SRCDIR)/v1.2/.run".toList := by decide
  obtain ⟨hpaths, -⟩ := compileRules_move_together hobject
  obtain ⟨hfile, hmoved⟩ :=
    (hpaths "lib/v1.2/.run.cpp".toList).2 _ _ (.extension hends)
  rw [hstem] at hfile hmoved
  exact ⟨hobject, .extension hends, hfile, hmoved⟩

/-! ## Sources with one extension -/

namespace Layout

/-- The path ends in the source extension, with a name before it. -/
def EndsInSource (layout : Layout) (path : Path) : Prop :=
  ∃ stem : Path, path = stem ++ layout.sourceExtension ∧ stem.fileName ≠ []

/-- The source extension is one dot with a name behind it, so that it is what the object
mapper cuts off. -/
def HasPlainExtension (layout : Layout) : Prop :=
  ∃ letters : Text, letters ≠ [] ∧ '.' ∉ letters ∧ '/' ∉ letters ∧
    layout.sourceExtension = '.' :: letters

/-- The path lies in the build directory, as far as its text says. -/
def InBuild (layout : Layout) (path : Path) : Prop :=
  layout.buildDirectory ++ ['/'] <+: path

instance (layout : Layout) (path : Path) : Decidable (layout.InBuild path) :=
  inferInstanceAs (Decidable (_ <+: _))

variable {layout : Layout}

theorem MovesOnto.inBuild {path other : Path}
    (h : layout.MovesOnto path other) : layout.InBuild other := by
  obtain ⟨-, rest, -, rfl⟩ := h
  exact ⟨rest, by simp⟩

/-- Sources that end in the source extension share an object only if one of them is moved
onto the other. -/
theorem objectFile_eq_iff_of_endsInSource (hplain : layout.HasPlainExtension)
    (hobject : '/' ∉ layout.objectExtension) {source other : Path}
    (hsource : layout.EndsInSource source) (hother : layout.EndsInSource other) :
    layout.objectFile source = layout.objectFile other ↔
      source = other ∨ layout.MovesOnto source other ∨
        layout.MovesOnto other source := by
  obtain ⟨letters, -, hdot, hslash, hextension⟩ := hplain
  obtain ⟨stem, rfl, hstem⟩ := hsource
  obtain ⟨stem', rfl, hstem'⟩ := hother
  have hends : ∀ base : Path, base.fileName ≠ [] →
      Path.stem (base ++ layout.sourceExtension) = base := by
    intro base hname
    rw [hextension]
    exact Path.stem_eq_of_endsInExtension ⟨rfl, hdot, hslash, hname⟩
  have hending : '/' ∉ layout.sourceExtension := by
    rw [hextension, List.mem_cons, not_or]
    exact ⟨by decide, hslash⟩
  rw [objectFile_eq_iff, SharesObject, objectBeside, objectBeside,
    hends stem hstem, hends stem' hstem', movesOnto_append_iff hobject,
    movesOnto_append_iff hobject, movesOnto_append_iff hending,
    movesOnto_append_iff hending, List.append_left_inj]

end Layout

/-- Sources that end in the source extension and do not lie in the build directory have
different objects. -/
theorem objectFile_injOn_units {layout : Layout}
    (hplain : layout.HasPlainExtension)
    (hobject : '/' ∉ layout.objectExtension) :
    Set.InjOn layout.objectFile
      {path | layout.EndsInSource path ∧ ¬layout.InBuild path} := by
  rintro source ⟨hsource, houtside⟩ other ⟨hother, houtside'⟩ heq
  rcases (Layout.objectFile_eq_iff_of_endsInSource hplain hobject hsource
    hother).mp heq with heq | hmoves | hmoves
  · exact heq
  · exact absurd hmoves.inBuild houtside'
  · exact absurd hmoves.inBuild houtside

/-- Two library sources, one of which has a dot in its name. -/
theorem objectFile_injOn_units_standard :
    Layout.standard.HasPlainExtension ∧
      '/' ∉ Layout.standard.objectExtension ∧
      Layout.standard.objectFile "lib/a.cpp".toList ≠
        Layout.standard.objectFile "lib/a.b.cpp".toList := by
  have hplain : Layout.standard.HasPlainExtension :=
    ⟨"cpp".toList, by decide, by decide, by decide, rfl⟩
  have hobject : '/' ∉ Layout.standard.objectExtension := by decide
  refine ⟨hplain, hobject, fun heq => ?_⟩
  have hsame := objectFile_injOn_units hplain hobject
    ⟨⟨"lib/a".toList, rfl, by decide⟩, by decide⟩
    ⟨⟨"lib/a.b".toList, rfl, by decide⟩, by decide⟩ heq
  revert hsame
  decide

/-- A source in the build directory shares its object with the library source that is
moved onto it. -/
example : Layout.standard.objectFile "$(SRCDIR)/a.cpp".toList =
    Layout.standard.objectFile "lib/a.cpp".toList := by decide

end HeaderMake
