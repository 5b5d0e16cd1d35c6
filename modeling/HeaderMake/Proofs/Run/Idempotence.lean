import HeaderMake.Proofs.Include.Agreement
import HeaderMake.Proofs.Run.Plans
import HeaderMake.Proofs.Tree.Scanned
import HeaderMake.Tree.Edit
import Mathlib.Tactic.ByContra

/-!
# Running twice

A run writes files into the tree that it has read.  Running once more gives the same
report and changes no file (`generate_idempotent`), provided that no output is one of the
files that the run reads: a source that is collected, or a path that a walk looks up.

The second run finds the same sources, since no new file is collected, and reads the same
bytes, since what it looks up has not been written.  So it plans the same outputs, and
the same ones can be opened.
-/

namespace HeaderMake

/-! ## What a run reads -/

/-- The locations of the files that the scanned groups collect. -/
def Workspace.collectedLocations (workspace : Workspace)
    (configuration : Configuration) : List Location :=
  configuration.groups.flatMap fun group =>
    match group.directory with
    | some directory =>
      workspace.tree.collectedLocations workspace.root directory
        configuration.layout.sourceExtension group.recursive
    | none => []

/-- The paths that the include walks of a run look up. -/
def Workspace.lookups (workspace : Workspace) (configuration : Configuration) :
    List Path :=
  (workspace.collectGroups configuration).flatMap fun collected =>
    collected.files.flatMap fun file =>
      (resolve configuration.layout workspace.view file).lookups

/-- The workspace that a run leaves. -/
def Workspace.afterRun (workspace : Workspace) (configuration : Configuration)
    (release : Bool) : Workspace :=
  (workspace.generate configuration release false).workspace

/-- No output of a run is a file that its groups collect or that its walks look up.  It is
enough to follow the paths in the workspace that the run leaves, where everything stands
that a second run could find. -/
structure Workspace.OutputsApart (workspace : Workspace)
    (configuration : Configuration) (release : Bool) : Prop where
  not_collected :
    ∀ output ∈ (workspace.planned configuration release).outputs,
    ∀ location,
      (workspace.afterRun configuration release).fileAt? output.path =
        some location →
      location ∉ (workspace.afterRun configuration
        release).collectedLocations configuration
  not_lookedUp :
    ∀ output ∈ (workspace.planned configuration release).outputs,
    ∀ location,
      (workspace.afterRun configuration release).fileAt? output.path =
        some location →
      ∀ path ∈ workspace.lookups configuration,
        (workspace.afterRun configuration release).fileAt? path ≠
          some location

/-! ## Reading a workspace that has grown -/

namespace Workspace.Grows

variable {before after : Workspace}

/-- A path is read as before unless it leads to a file that has been written. -/
theorem read (h : before.Grows after) (path : Path) :
    after.view.read path = before.view.read path ∨
      ∃ location, after.fileAt? path = some location ∧
        after.tree.lookup location ≠ before.tree.lookup location := by
  have hgrows := h.tree.find (before.root.join path)
  simp only [Workspace.fileAt?_eq_some_iff]
  simp only [Workspace.view, Workspace.read, Tree.read, h.root_eq]
  generalize before.tree.find (before.root.join path) = found at hgrows ⊢
  generalize after.tree.find (before.root.join path) = found' at hgrows ⊢
  cases hgrows with
  | directory target => exact .inl rfl
  | failed => exact .inl rfl
  | created cause location content hbefore hafter =>
      refine .inr ⟨location, ⟨content, rfl⟩, ?_⟩
      rw [hbefore, hafter]
      intro hentry
      cases hentry
  | file location old new hbefore hafter =>
      by_cases heq : old = new
      · subst heq
        exact .inl rfl
      · refine .inr ⟨location, ⟨new, rfl⟩, ?_⟩
        rw [hbefore, hafter]
        intro hentry
        cases hentry
        exact heq rfl

theorem collectGroups (h : before.Grows after) {configuration : Configuration}
    (hold : ∀ location ∈ after.collectedLocations configuration,
      after.tree.lookup location = before.tree.lookup location) :
    after.collectGroups configuration = before.collectGroups configuration := by
  apply List.map_congr_left
  intro group hgroup
  rw [Workspace.collectGroup, Workspace.collectGroup]
  cases hdirectory : group.directory with
  | none => rfl
  | some directory =>
      have hgroupOld : ∀ location ∈ after.tree.collectedLocations after.root
            directory configuration.layout.sourceExtension group.recursive,
          after.tree.lookup location = before.tree.lookup location := by
        intro location hlocation
        apply hold
        refine List.mem_flatMap.mpr ⟨group, hgroup, ?_⟩
        rwa [hdirectory]
      have hcollect := h.tree.collect hgroupOld
      rw [h.root_eq] at hcollect ⊢
      simp only [hcollect]

end Workspace.Grows

/-! ## Planning again -/

/-- Plans differ only where a source of theirs has other headers. -/
theorem Plan.ofGroups_congr {configuration : Configuration}
    {view other : SourceView} {groups : List CollectedGroup}
    (h : ∀ collected ∈ groups, ∀ file ∈ collected.files,
      resolve configuration.layout other file =
        resolve configuration.layout view file) (release : Bool) :
    Plan.ofGroups configuration other groups release =
      Plan.ofGroups configuration view groups release := by
  have hrules : groups.flatMap (resolveRules configuration.layout other) =
      groups.flatMap (resolveRules configuration.layout view) := by
    apply List.flatMap_congr
    intro collected hcollected
    apply List.map_congr_left
    intro file hfile
    rw [resolveRule, resolveRule, h collected hcollected file hfile]
  rw [Plan.ofGroups, Plan.ofGroups, renderMakefile, renderMakefile, hrules]

namespace Workspace

variable {workspace : Workspace} {configuration : Configuration}
variable {release : Bool} {report : Report}

theorem afterRun_of_sources
    (hsources : lacksSources (workspace.collectGroups configuration) = false) :
    workspace.afterRun configuration release =
      (workspace.writeOutputs
        (workspace.planned configuration release).outputs).workspace :=
  (generate_false_of_sources hsources release).1

theorem grows_afterRun
    (hsources : lacksSources (workspace.collectGroups configuration) = false) :
    workspace.Grows (workspace.afterRun configuration release) := by
  rw [afterRun_of_sources hsources]
  exact grows_writeOutputs _ _

/-- What a run has changed is denoted by one of its outputs. -/
theorem exists_output_of_changed
    (hsources : lacksSources (workspace.collectGroups configuration) = false)
    {location : Location}
    (h : (workspace.afterRun configuration release).tree.lookup location ≠
      workspace.tree.lookup location) :
    ∃ output ∈ (workspace.planned configuration release).outputs,
      (workspace.afterRun configuration release).fileAt? output.path =
        some location := by
  rw [afterRun_of_sources hsources] at h ⊢
  obtain ⟨output, houtput, -, hdenoted⟩ := exists_fileAt?_of_lookup_ne h
  exact ⟨output, houtput, hdenoted⟩

theorem collectGroups_afterRun
    (hsources : lacksSources (workspace.collectGroups configuration) = false)
    (hapart : workspace.OutputsApart configuration release) :
    (workspace.afterRun configuration release).collectGroups configuration =
      workspace.collectGroups configuration := by
  apply (grows_afterRun hsources).collectGroups
  intro location hcollected
  by_contra hchanged
  obtain ⟨output, houtput, hdenoted⟩ :=
    exists_output_of_changed hsources hchanged
  exact hapart.not_collected output houtput location hdenoted hcollected

theorem planned_afterRun
    (hsources : lacksSources (workspace.collectGroups configuration) = false)
    (hapart : workspace.OutputsApart configuration release) :
    (workspace.afterRun configuration release).planned configuration release =
      workspace.planned configuration release := by
  rw [planned, collectGroups_afterRun hsources hapart]
  apply Plan.ofGroups_congr
  intro collected hcollected file hfile
  apply resolve_congr
  intro path hpath
  have hlookup : path ∈ workspace.lookups configuration :=
    List.mem_flatMap.mpr
      ⟨collected, hcollected, List.mem_flatMap.mpr ⟨file, hfile, hpath⟩⟩
  rcases (grows_afterRun hsources).read path with
    hsame | ⟨location, hlocation, hchanged⟩
  · exact hsame
  · obtain ⟨output, houtput, hdenoted⟩ :=
      exists_output_of_changed hsources hchanged
    exact absurd hlocation
      (hapart.not_lookedUp output houtput location hdenoted path hlookup)

/-- Writing the outputs of a run once more changes no file. -/
theorem lookup_writeOutputs_twice (workspace : Workspace)
    (outputs : List OutputFile) (location : Location) :
    ((workspace.writeOutputs outputs).workspace.writeOutputs
        outputs).workspace.tree.lookup location =
      (workspace.writeOutputs outputs).workspace.tree.lookup location := by
  have hgrows := grows_writeOutputs workspace outputs
  rcases writeOutputs_cell workspace outputs location with
    hkept | ⟨content, hcontent⟩
  · exact hkept _ hgrows
  · rw [hcontent _ hgrows, hcontent _ (.refl workspace)]

end Workspace

/-- After a run that succeeds and whose outputs are none of the files that it reads, a
second run succeeds with the same report and changes no file. -/
theorem generate_idempotent {workspace : Workspace}
    {configuration : Configuration} {release : Bool} {report : Report}
    (hresult : (workspace.generate configuration release false).result =
      .ok report)
    (hapart : workspace.OutputsApart configuration release) :
    ((workspace.afterRun configuration release).generate configuration release
        false).result = .ok report ∧
      ∀ location,
        ((workspace.afterRun configuration release).afterRun configuration
          release).tree.lookup location =
        (workspace.afterRun configuration release).tree.lookup location := by
  obtain ⟨hsources, hopens, rfl⟩ :=
    Workspace.result_generate_eq_ok_iff.mp hresult
  have hgrows : workspace.Grows (workspace.afterRun configuration release) :=
    Workspace.grows_afterRun hsources
  have hgroups := Workspace.collectGroups_afterRun hsources hapart
  have hplanned := Workspace.planned_afterRun hsources hapart
  have hsources' : lacksSources ((workspace.afterRun configuration
      release).collectGroups configuration) = false := by
    rwa [hgroups]
  -- Equal sources and an equal plan; what can be opened is settled by growth alone.
  constructor
  · apply Workspace.result_generate_eq_ok_iff.mpr
    refine ⟨hsources', ?_, ?_⟩
    · rwa [hgrows.slot?]
    · rw [hplanned, hgrows.reportOf]
  · intro location
    rw [Workspace.afterRun_of_sources hsources', hplanned,
      Workspace.afterRun_of_sources hsources]
    exact Workspace.lookup_writeOutputs_twice workspace _ location

/-! ## A run over a small library -/

/-- The standard configuration for a tree that holds nothing but a library. -/
def Configuration.libraryOnly : Configuration :=
  { Configuration.standard with groups := SourceGroup.standard.take 1 }

/-- A library source with a header. -/
def Workspace.small : Workspace where
  tree := (Tree.empty.putFile "lib/a.cpp".toList
    (Utf8.encode "#include \"b.h\"\n".toList)).putFile "lib/b.h".toList []
  root := ".".toList

namespace Workspace

/-- The location of the library listing of the small workspace. -/
def smallListing : Location :=
  ⟨Utf8.encode "lib.pri".toList, by decide⟩ :: Tree.libraryLocation

/-- The location of its Makefile. -/
def smallMakefile : Location :=
  ⟨Utf8.encode "Makefile".toList, by decide⟩ :: Tree.empty.start

/-- The small workspace once its two outputs stand in it. -/
def smallWritten : Workspace :=
  { small with
    tree := (small.tree.insert smallListing (.file (Utf8.encode
      (Configuration.libraryOnly.libraryListing ["lib/a.cpp".toList])))).insert
        smallMakefile (.file (Utf8.encode
          (small.makefileOutput .libraryOnly false).contents)) }

theorem lookups_resolve_small :
    (resolve .standard small.view "lib/a.cpp".toList).lookups =
      ["lib/a.cpp".toList, "lib/b.h".toList] := by
  have hsource : small.view.read "lib/a.cpp".toList =
      some (Utf8.encode "#include \"b.h\"\n".toList) := by decide +kernel
  have hheader : small.view.read "lib/b.h".toList = some [] := by decide +kernel
  have hincluded : includedPaths "lib/a.cpp".toList
      (Utf8.encode "#include \"b.h\"\n".toList) =
        ["lib/b.h".toList] := by decide +kernel
  have hnothing : includedPaths "lib/b.h".toList [] = [] := by decide +kernel
  rw [lookups_resolve, walkIncludes_of_not_mem (by decide),
    Layout.followUps_of_read hsource, hincluded, List.map_singleton,
    List.append_nil, walkIncludes_of_not_mem (by decide),
    Layout.followUps_of_read hheader, hnothing, List.map_nil,
    List.nil_append, walkIncludes_nil]
  rfl

theorem collectGroups_small :
    small.collectGroups .libraryOnly =
      [⟨SourceGroup.standard.head (by decide), ["lib/a.cpp".toList]⟩] := by
  have hfiles : small.tree.collect ".".toList "lib/".toList ".cpp".toList
      false = ["lib/a.cpp".toList] := by decide +kernel
  exact congrArg (fun files => [CollectedGroup.mk _ files]) hfiles

theorem lookups_small :
    small.lookups .libraryOnly = ["lib/a.cpp".toList, "lib/b.h".toList] := by
  rw [lookups, collectGroups_small]
  change (resolve .standard small.view "lib/a.cpp".toList).lookups ++ [] ++
    [] = _
  rw [lookups_resolve_small]
  rfl

theorem collectedLocations_small :
    smallWritten.collectedLocations .libraryOnly =
      [⟨Utf8.encode "a.cpp".toList, by decide⟩ :: Tree.libraryLocation] := by
  have hlibrary :
      smallWritten.tree.collectedLocations ".".toList "lib/".toList
        ".cpp".toList false =
        [⟨Utf8.encode "a.cpp".toList, by decide⟩ :: Tree.libraryLocation] := by
    decide +kernel
  change smallWritten.tree.collectedLocations ".".toList "lib/".toList
    ".cpp".toList false ++ [] = _
  rw [hlibrary]
  rfl

theorem lacksSources_small :
    lacksSources (small.collectGroups .libraryOnly) = false := by
  rw [collectGroups_small]
  rfl

theorem outputs_small :
    (small.planned .libraryOnly false).outputs =
      [⟨"lib/lib.pri".toList,
          Configuration.libraryOnly.libraryListing ["lib/a.cpp".toList], false⟩,
        small.makefileOutput .libraryOnly false] := by
  have hlisting : Configuration.libraryOnly.listingOutputs
      (small.collectGroups .libraryOnly) =
        [⟨"lib/lib.pri".toList,
          Configuration.libraryOnly.libraryListing ["lib/a.cpp".toList],
          false⟩] := by
    rw [collectGroups_small]
    rfl
  rw [outputs_planned, hlisting]
  rfl

theorem slot?_makefile_small :
    small.slot? "Makefile".toList = some smallMakefile := by
  decide +kernel

theorem afterRun_small :
    small.afterRun .libraryOnly false = smallWritten := by
  have hlisting : small.slot? "lib/lib.pri".toList = some smallListing := by
    decide +kernel
  have hmakefile := (grows_put hlisting
    (Configuration.libraryOnly.libraryListing
      ["lib/a.cpp".toList])).slot? "Makefile".toList
  rw [slot?_makefile_small] at hmakefile
  rw [afterRun_of_sources lacksSources_small, outputs_small,
    writeOutputs_of_slot? hlisting, workspace_afterWriting,
    writeOutputs_of_slot? hmakefile]
  rfl

/-- The outputs of the small workspace are apart from what its run reads. -/
theorem outputsApart_small : small.OutputsApart .libraryOnly false := by
  have hlisting :
      smallWritten.fileAt? "lib/lib.pri".toList = some smallListing := by
    decide +kernel
  have hmakefile :
      smallWritten.fileAt? (small.makefileOutput .libraryOnly false).path =
        some smallMakefile := by
    decide +kernel
  have hplaces : ∀ output ∈ (small.planned .libraryOnly false).outputs,
      ∀ location,
        smallWritten.fileAt? output.path = some location →
        location ∈ [smallListing, smallMakefile] := by
    rw [outputs_small]
    intro output houtput location hlocation
    rcases List.mem_pair.mp houtput with rfl | rfl
    · rw [hlisting] at hlocation
      cases hlocation
      exact List.mem_cons_self
    · rw [hmakefile] at hlocation
      cases hlocation
      exact List.mem_cons_of_mem _ (List.mem_singleton_self _)
  have hsource : smallWritten.fileAt? "lib/a.cpp".toList =
        some (⟨Utf8.encode "a.cpp".toList, by decide⟩ ::
          Tree.libraryLocation) := by
    decide +kernel
  have hheader : smallWritten.fileAt? "lib/b.h".toList =
        some (⟨Utf8.encode "b.h".toList, by decide⟩ ::
          Tree.libraryLocation) := by
    decide +kernel
  constructor
  · intro output houtput location hlocation
    rw [afterRun_small] at hlocation ⊢
    have hplace := hplaces output houtput location hlocation
    rw [collectedLocations_small, List.mem_singleton]
    rintro rfl
    revert hplace
    decide
  · intro output houtput location hlocation path hpath
    rw [afterRun_small] at hlocation ⊢
    have hplace := hplaces output houtput location hlocation
    rw [lookups_small] at hpath
    rcases List.mem_pair.mp hpath with rfl | rfl
    · rw [hsource]
      rintro ⟨⟩
      revert hplace
      decide
    · rw [hheader]
      rintro ⟨⟩
      revert hplace
      decide

end Workspace

theorem generate_idempotent_small :
    ∃ report,
      (Workspace.small.generate .libraryOnly false false).result =
          .ok report ∧
        Workspace.small.OutputsApart .libraryOnly false ∧
        ((Workspace.small.afterRun .libraryOnly false).generate .libraryOnly
          false false).result = .ok report := by
  have hopens : (Workspace.small.slot?
      Configuration.libraryOnly.makefile).isSome := by
    change (Workspace.small.slot? "Makefile".toList).isSome
    rw [Workspace.slot?_makefile_small]
    rfl
  obtain ⟨report, hreport⟩ : ∃ report,
      (Workspace.small.generate .libraryOnly false false).result =
        .ok report :=
    ⟨_, Workspace.result_generate_eq_ok_iff.mpr
      ⟨Workspace.lacksSources_small, hopens, rfl⟩⟩
  have hapart := Workspace.outputsApart_small
  exact ⟨report, hreport, hapart, (generate_idempotent hreport hapart).1⟩

end HeaderMake
