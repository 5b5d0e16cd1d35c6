import HeaderMake.Makefile.Render
import HeaderMake.Proofs.SharedObjects
import HeaderMake.Proofs.Text.Extensions
import HeaderMake.Proofs.Text.Splitting

/-!
# The default of the source directory

Rules name library files through a variable, and the Makefile gives that variable a value
where it has none.  With this value the paths of the rules are the paths of the sources
and of the objects beside them again (`sourceDirectory_undoes_inBuildDirectory`).

The value is the library directory without the slashes at its end, and paths are moved
by the same text; so it does not matter how many slashes there are, or whether anything
else is left.  A path that only begins like the library is not moved and holds no
reference.
-/

namespace HeaderMake

/-! ## The variable and its default -/

namespace Makefile

/-- The name of the variable that holds the source directory. -/
def sourceDirectory : Text := "SRCDIR".toList

/-- How the value of the source directory is asked for. -/
def sourceDirectoryReference : Text := "$(SRCDIR)".toList

/-- What stands before the value in the default of a variable. -/
def defaultOpening (name : Text) : Text :=
  "ifndef ".toList ++ name ++ "\n    ".toList ++ name ++ "=".toList

/-- What stands after the value in the default of a variable. -/
def defaultEnding : Text := "\nendif\n\n".toList

/-- The value that a Makefile gives to a variable that has none, read off the first
default of that variable. -/
def default? (name makefile : Text) : Option Text := do
  let (_, opened) ← Text.cutAt? (defaultOpening name) makefile
  let (value, _) ← Text.cutAt? defaultEnding opened
  return value

theorem conditionalVariable_eq (name value : Text) :
    conditionalVariable name value =
      defaultOpening name ++ value ++ defaultEnding := rfl

/-- The preamble up to the comment that names the library directory. -/
def preambleStart : Text :=
  header ++ "# To compile with rules, use 'make HAVE_RULES=yes'\n".toList ++
    conditionalVariable "HAVE_RULES".toList "no".toList

/-- What the comment says before the library directory. -/
def folderComment : Text := " folder where ".toList

/-- What the comment says after the library directory and a slash. -/
def filesComment : Text := "*.cpp files are located\n".toList

/-- The preamble gives the source directory a default, after the comment that names the
library directory. -/
theorem preamble_eq (library flags : Text) :
    ∃ after, preamble library flags =
      preambleStart ++ '#' ::
        (folderComment ++ library.dropTrailingSlashes ++ '/' ::
          (filesComment ++
            (conditionalVariable sourceDirectory
              library.dropTrailingSlashes ++ after))) := by
  unfold preamble
  simp only [List.append_assoc]
  exact ⟨_, rfl⟩

/-- The default of the source directory is the first one that is found, unless the
library directory brings in lines of its own. -/
theorem cutAt?_preamble {library : Text}
    (h : '\n' ∉ library.dropTrailingSlashes) (flags : Text) :
    ∃ before after,
      Text.cutAt? (defaultOpening sourceDirectory) (preamble library flags) =
        some (before,
          library.dropTrailingSlashes ++ (defaultEnding ++ after)) := by
  obtain ⟨after, hpreamble⟩ := preamble_eq library flags
  -- The capital letter is in the name of the variable and in nothing before it.
  have hstart : Text.cutAt? (defaultOpening sourceDirectory) preambleStart =
      none :=
    Text.cutAt?_eq_none_of_not_mem (show 'D' ∈ _ by decide)
      (by decide +kernel)
  have hcomment : Text.cutAt? (defaultOpening sourceDirectory)
      (folderComment ++ library.dropTrailingSlashes) = none := by
    apply Text.cutAt?_eq_none_of_not_mem (show '\n' ∈ _ by decide)
    rw [List.mem_append, not_or]
    exact ⟨by decide, h⟩
  have hfiles : ∀ rest, Text.cutAt? (defaultOpening sourceDirectory)
      (filesComment ++ (defaultOpening sourceDirectory ++ rest)) =
        some (filesComment, rest) := by
    intro rest
    rfl
  rw [hpreamble, Text.cutAt?_append_cons_of_not_mem (by decide) hstart,
    Text.cutAt?_append_cons_of_not_mem (by decide) hcomment,
    conditionalVariable_eq, List.append_assoc, List.append_assoc, hfiles]
  exact ⟨_, _, rfl⟩

theorem newline_not_mem_dropTrailingSlashes {text : Text} (h : '\n' ∉ text) :
    '\n' ∉ text.dropTrailingSlashes := by
  intro hmem
  have hkept := (List.dropWhile_suffix _).subset (List.mem_reverse.mp hmem)
  exact h (List.mem_reverse.mp hkept)

/-- The value of the source directory is read back from every text that begins with the
preamble. -/
theorem default?_preamble_append {library : Text} (h : '\n' ∉ library)
    (flags rest : Text) :
    default? sourceDirectory (preamble library flags ++ rest) =
      some library.dropTrailingSlashes := by
  have hvalue := newline_not_mem_dropTrailingSlashes h
  obtain ⟨before, after, hopening⟩ := cutAt?_preamble hvalue flags
  have hending : ∀ more, Text.cutAt? defaultEnding
      (library.dropTrailingSlashes ++ (defaultEnding ++ more)) =
        some (library.dropTrailingSlashes, more) :=
    Text.cutAt?_append_mark hvalue
  rw [default?, Text.cutAt?_append_of_cutAt? hopening rest]
  simp only [List.append_assoc, Option.bind_eq_bind, Option.bind_some, hending]
  rfl

/-- The path that make sees when the source directory has a value. -/
def expandSourceDirectory (value : Text) (path : Path) : Path :=
  Text.replaceAll sourceDirectoryReference value path

end Makefile

/-! ## Paths under the default -/

namespace Layout

open Makefile

variable {layout : Layout} {path source : Path}

theorem expand_inBuildDirectory
    (htoken : layout.buildDirectory = sourceDirectoryReference)
    (h : '$' ∉ path) :
    expandSourceDirectory layout.libraryDirectory
      (layout.inBuildDirectory path) = path := by
  have hreference : '$' ∈ sourceDirectoryReference := by decide
  by_cases hlibrary : layout.InLibrary path
  · obtain ⟨rest, rfl⟩ := hlibrary
    rw [inBuildDirectory_append, htoken, expandSourceDirectory]
    apply Text.replaceAll_mark_append hreference
    exact fun hmem => h (List.mem_append_right _ hmem)
  · rw [inBuildDirectory_eq_self hlibrary]
    exact Text.replaceAll_of_not_mem hreference h _

theorem expand_objectFile
    (htoken : layout.buildDirectory = sourceDirectoryReference)
    (hsource : '$' ∉ source) (hextension : '$' ∉ layout.objectExtension) :
    expandSourceDirectory layout.libraryDirectory (layout.objectFile source) =
      source.stem ++ layout.objectExtension := by
  have hstem : '$' ∉ source.stem := by
    intro hmem
    apply hsource
    rw [← source.stem_append_extension]
    exact List.mem_append_left _ hmem
  apply expand_inBuildDirectory htoken
  rw [List.mem_append, not_or]
  exact ⟨hstem, hextension⟩

/-- What the rule of a source comes to when the source directory has a value: the recipe
compiles the source itself, and the object stands beside it. -/
structure CompiledInPlace (layout : Layout) (value : Text) (source : Path) :
    Prop where
  source_eq :
    expandSourceDirectory value (layout.inBuildDirectory source) = source
  object_eq_of_extension : ∀ base extension,
    source.EndsInExtension base extension →
    expandSourceDirectory value (layout.objectFile source) =
      base ++ layout.objectExtension
  object_eq_of_no_extension : ¬source.HasExtension →
    expandSourceDirectory value (layout.objectFile source) =
      source ++ layout.objectExtension
  /-- What a rule compiles is what it names as its source. -/
  recipe_eq : ∀ group prerequisites,
    expandSourceDirectory value
        (layout.compileRule group source prerequisites).recipeSource =
      (layout.compileRule group source prerequisites).source
  /-- What a rule makes stands in the directory of its source. -/
  object_beside : ∃ name, '/' ∉ name ∧ ∀ group prerequisites,
    expandSourceDirectory value
        (layout.compileRule group source prerequisites).object =
      source.directory ++ name ++ layout.objectExtension

theorem compiledInPlace
    (htoken : layout.buildDirectory = sourceDirectoryReference)
    (hsource : '$' ∉ source) (hextension : '$' ∉ layout.objectExtension) :
    layout.CompiledInPlace layout.libraryDirectory source where
  source_eq := expand_inBuildDirectory htoken hsource
  object_eq_of_extension base extension hends := by
    rw [expand_objectFile htoken hsource hextension,
      Path.stem_eq_of_endsInExtension hends]
  object_eq_of_no_extension hnone := by
    rw [expand_objectFile htoken hsource hextension, Path.stem_eq_self hnone]
  recipe_eq _ _ := expand_inBuildDirectory htoken hsource
  object_beside := by
    refine ⟨source.stem.fileName, source.stem.slash_not_mem_fileName, ?_⟩
    intro _ _
    rw [← source.directory_stem, Path.directory_append_fileName]
    exact expand_objectFile htoken hsource hextension

end Layout

/-- The preamble gives the source directory the library directory as its default, and
with this value every rule compiles the very file that it names, into the same directory.
The default is also what is read off a Makefile, unless the library directory brings in
lines of its own. -/
theorem sourceDirectory_undoes_inBuildDirectory {layout : Layout}
    (htoken : layout.buildDirectory = Makefile.sourceDirectoryReference) :
    (∀ flags, ∃ before after,
      Makefile.preamble layout.library flags =
        before ++
          Makefile.conditionalVariable Makefile.sourceDirectory
            layout.libraryDirectory ++ after) ∧
    ('\n' ∉ layout.library → ∀ flags rest,
      Makefile.default? Makefile.sourceDirectory
          (Makefile.preamble layout.library flags ++ rest) =
        some layout.libraryDirectory) ∧
    ∀ source, '$' ∉ source → '$' ∉ layout.objectExtension →
      layout.CompiledInPlace layout.libraryDirectory source := by
  refine ⟨?_, Makefile.default?_preamble_append, ?_⟩
  · intro flags
    obtain ⟨after, hpreamble⟩ := Makefile.preamble_eq layout.library flags
    rw [hpreamble]
    simp only [← List.append_assoc, ← List.cons_append]
    exact ⟨_, after, rfl⟩
  · intro source hsource hextension
    exact Layout.compiledInPlace htoken hsource hextension

theorem sourceDirectory_undoes_inBuildDirectory_standard :
    Layout.standard.buildDirectory = Makefile.sourceDirectoryReference ∧
      Makefile.default? Makefile.sourceDirectory
          (Makefile.preamble "lib/".toList []) = some "lib".toList ∧
      Layout.standard.objectFile "lib/token.cpp".toList =
        "$(SRCDIR)/token.o".toList ∧
      Makefile.expandSourceDirectory "lib".toList
          "$(SRCDIR)/token.o".toList = "lib/token.o".toList := by
  have htoken : Layout.standard.buildDirectory =
      Makefile.sourceDirectoryReference := rfl
  have hobject : Layout.standard.objectFile "lib/token.cpp".toList =
      "$(SRCDIR)/token.o".toList := by decide
  obtain ⟨-, hdefault, hrules⟩ :=
    sourceDirectory_undoes_inBuildDirectory htoken
  have hread := hdefault (by decide) [] []
  have hplace := hrules "lib/token.cpp".toList (by decide) (by decide)
  have hends : Path.EndsInExtension "lib/token.cpp".toList
      "lib/token".toList "cpp".toList :=
    ⟨rfl, by decide, by decide, by decide⟩
  have hexpanded := hplace.object_eq_of_extension _ _ hends
  rw [List.append_nil] at hread
  rw [hobject] at hexpanded
  exact ⟨htoken, hread, hobject, hexpanded⟩

end HeaderMake
