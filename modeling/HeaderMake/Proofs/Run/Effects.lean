import HeaderMake.CommandLine.Program
import HeaderMake.Proofs.Run.Plans
import HeaderMake.Tree.Edit
import Mathlib.Tactic.ByContra

/-!
# What a run may touch

A run ends in one of four ways: sources are lacking, it is a dry run, the Makefile cannot
be opened, or the outputs are written.  `RunEffects` says for each of them what has become
of the workspace, and `ProgramEffects` says the same of the program with its command
line.  `effects_of_runs` says that every run and every call of the program is of this
kind.
-/

namespace HeaderMake

namespace Workspace

/-! ## One output -/

/-- An output can fail to be opened, and nothing else can. -/
theorem writeOutputs_singleton_eq_error {workspace : Workspace}
    {output : OutputFile} {error : RunError}
    (h : (workspace.writeOutputs [output]).result = .error error) :
    ∃ cause, workspace.write output.path output.contents = .error cause ∧
      error = .outputNotOpened (workspace.root.join output.path) cause ∧
      (workspace.writeOutputs [output]).workspace = workspace := by
  cases hslot : workspace.slot? output.path with
  | some location =>
      rw [writeOutputs_of_slot? hslot] at h
      cases h
  | none =>
      obtain ⟨cause, hcause⟩ :=
        exists_error_of_slot?_eq_none hslot output.contents
      cases hrequired : output.required with
      | true =>
          rw [writeOutputs_of_refused hcause hrequired] at h ⊢
          exact ⟨cause, hcause, (Except.error.inj h).symm, rfl⟩
      | false =>
          rw [writeOutputs_of_skipped hcause hrequired] at h
          cases h

end Workspace

/-! ## Lacking sources -/

/-- Sources are lacking exactly if every tracked group is empty, or every group where
none is tracked. -/
theorem lacksSources_iff {groups : List CollectedGroup} :
    lacksSources groups = true ↔
      ∀ collected ∈ groups,
        (collected.group.tracked ∨
          ∀ other ∈ groups, ¬other.group.tracked) →
        collected.files = [] := by
  unfold lacksSources
  by_cases hnone : groups.filter (·.group.tracked) = []
  · have hall : ∀ other ∈ groups, ¬other.group.tracked :=
      List.filter_eq_nil_iff.mp hnone
    simp only [hnone, List.isEmpty_nil, if_true, List.all_eq_true,
      List.isEmpty_iff]
    exact ⟨fun h collected hmem _ => h collected hmem,
      fun h collected hmem => h collected hmem (.inr hall)⟩
  · have hsome : ¬∀ other ∈ groups, ¬other.group.tracked :=
      fun hall => hnone (List.filter_eq_nil_iff.mpr hall)
    have hisEmpty : (groups.filter (·.group.tracked)).isEmpty = false := by
      rwa [List.isEmpty_eq_false_iff]
    simp only [hisEmpty, Bool.false_eq_true, if_false, List.all_eq_true,
      List.isEmpty_iff, List.mem_filter, and_imp, hsome, or_false]

/-! ## The ends of a run -/

/-- What a run says and what has become of its workspace, for each way in which it can
end. -/
structure RunEffects (workspace : Workspace) (configuration : Configuration)
    (release dryRun : Bool) : Prop where
  /-- Sources are lacking exactly if the groups that count are all empty. -/
  noSources_iff :
    (workspace.generate configuration release dryRun).result =
        .error .noSources ↔
      ∀ collected ∈ workspace.collectGroups configuration,
        (collected.group.tracked ∨
          ∀ other ∈ workspace.collectGroups configuration,
            ¬other.group.tracked) →
        collected.files = []
  unchanged_of_noSources :
    (workspace.generate configuration release dryRun).result =
        .error .noSources →
      (workspace.generate configuration release dryRun).workspace = workspace
  unchanged_of_dryRun : dryRun = true →
    (workspace.generate configuration release dryRun).workspace = workspace
  /-- The only other error is that the Makefile cannot be opened.  By then the listings
  that can be opened have been written, and nothing else. -/
  listings_of_error : ∀ error,
    (workspace.generate configuration release dryRun).result = .error error →
    error ≠ .noSources →
    (workspace.generate configuration release dryRun).workspace =
        workspace.writeOpenable (configuration.listingOutputs
          (workspace.collectGroups configuration)) ∧
      ∃ cause,
        error = .outputNotOpened
          (workspace.root.join configuration.makefile) cause ∧
        (workspace.generate configuration release dryRun).workspace.write
          configuration.makefile
          (workspace.makefileOutput configuration release).contents =
            .error cause
  /-- After a success, what has changed is denoted by one of the written outputs. -/
  denoted_of_changed : ∀ report,
    (workspace.generate configuration release dryRun).result = .ok report →
    ∀ location,
      (workspace.generate configuration release
          dryRun).workspace.tree.lookup location ≠
        workspace.tree.lookup location →
      ∃ path ∈ report.written,
        (workspace.generate configuration release
          dryRun).workspace.fileAt? path = some location

namespace Workspace

variable {workspace : Workspace} {configuration : Configuration}

/-- If a run that has sources fails, then for the Makefile, after the listings. -/
theorem generate_of_sources_eq_error
    (hsources : lacksSources (workspace.collectGroups configuration) = false)
    {release dryRun : Bool} {error : RunError}
    (h : (workspace.generate configuration release dryRun).result =
      .error error) :
    (workspace.generate configuration release dryRun).workspace =
        workspace.writeOpenable (configuration.listingOutputs
          (workspace.collectGroups configuration)) ∧
      ∃ cause,
        error = .outputNotOpened
          (workspace.root.join configuration.makefile) cause ∧
        (workspace.generate configuration release dryRun).workspace.write
          configuration.makefile
          (workspace.makefileOutput configuration release).contents =
            .error cause := by
  cases dryRun with
  | true =>
      rw [generate_of_sources hsources] at h
      exact nomatch h
  | false =>
      obtain ⟨hworkspace, hresult⟩ :=
        generate_false_of_sources hsources release
      obtain ⟨hlistings, herrors⟩ := writeOutputs_append_of_opens workspace
        (configuration.listingOutputs
          (workspace.collectGroups configuration))
        [workspace.makefileOutput configuration release]
        (by
          intro output houtput hrequired
          rw [required_of_mem_listingOutputs output houtput] at hrequired
          cases hrequired)
      rw [hresult, map_eq_error_iff, outputs_planned, herrors] at h
      obtain ⟨cause, hcause, rfl, hkept⟩ := writeOutputs_singleton_eq_error h
      rw [hworkspace, outputs_planned, hlistings, hkept,
        (grows_writeOpenable _ _).root_eq]
      exact ⟨rfl, cause, rfl, hcause⟩

theorem result_generate_eq_noSources_iff {release dryRun : Bool} :
    (workspace.generate configuration release dryRun).result =
        .error .noSources ↔
      lacksSources (workspace.collectGroups configuration) = true := by
  constructor
  · intro h
    by_contra hsources
    rw [Bool.not_eq_true] at hsources
    obtain ⟨-, cause, herror, -⟩ := generate_of_sources_eq_error hsources h
    exact nomatch herror
  · intro h
    rw [generate_of_lacksSources h]

theorem workspace_generate_of_dryRun (workspace : Workspace)
    (configuration : Configuration) (release : Bool) :
    (workspace.generate configuration release true).workspace = workspace := by
  cases hsources : lacksSources (workspace.collectGroups configuration) with
  | true => rw [generate_of_lacksSources hsources]
  | false =>
      rw [generate_of_sources hsources]
      exact workspace_carryOut_true workspace _

theorem denoted_of_changed {release dryRun : Bool} {report : Report}
    (h : (workspace.generate configuration release dryRun).result =
      .ok report)
    {location : Location}
    (hchanged : (workspace.generate configuration release
        dryRun).workspace.tree.lookup location ≠
      workspace.tree.lookup location) :
    ∃ path ∈ report.written,
      (workspace.generate configuration release
        dryRun).workspace.fileAt? path = some location := by
  cases dryRun with
  | true =>
      rw [workspace_generate_of_dryRun] at hchanged
      exact absurd rfl hchanged
  | false =>
      obtain ⟨hsources, -, rfl⟩ := result_generate_eq_ok_iff.mp h
      rw [(generate_false_of_sources hsources release).1] at hchanged ⊢
      obtain ⟨output, houtput, hopens, hdenoted⟩ :=
        exists_fileAt?_of_lookup_ne hchanged
      refine ⟨output.path, ?_, hdenoted⟩
      exact List.mem_map_of_mem (List.mem_filter.mpr ⟨houtput, hopens⟩)

theorem runEffects (workspace : Workspace) (configuration : Configuration)
    (release dryRun : Bool) :
    RunEffects workspace configuration release dryRun where
  noSources_iff := result_generate_eq_noSources_iff.trans lacksSources_iff
  unchanged_of_noSources h := by
    rw [generate_of_lacksSources (result_generate_eq_noSources_iff.mp h)]
  unchanged_of_dryRun h := by
    rw [h]
    exact workspace_generate_of_dryRun workspace configuration release
  listings_of_error error h hne := by
    apply generate_of_sources_eq_error _ h
    by_contra hlacks
    rw [Bool.not_eq_false] at hlacks
    rw [generate_of_lacksSources hlacks] at h
    exact hne (Except.error.inj h).symm
  denoted_of_changed _ h _ hchanged := denoted_of_changed h hchanged

end Workspace

/-! ## The ends of the program -/

section Options

variable {options : Options} {tree : Tree}

/-- The workspace over which the options run. -/
def Options.workspace (options : Options) (tree : Tree) : Workspace :=
  ⟨tree, options.directory⟩

theorem Options.run_of_refused {error : LoadError}
    (h : (options.workspace tree).loadConfiguration options.config =
      .error error) :
    (options.run tree).tree = tree ∧ (options.run tree).exitCode = 1 := by
  rw [Options.workspace] at h
  rw [Options.run, h]
  exact ⟨rfl, rfl⟩

theorem Options.run_of_loaded {configuration : Configuration}
    (h : (options.workspace tree).loadConfiguration options.config =
      .ok configuration) :
    (options.run tree).tree =
        ((options.workspace tree).generate configuration options.release
          options.dryRun).workspace.tree ∧
      ((options.run tree).exitCode = 0 ∧
          (∃ report, ((options.workspace tree).generate configuration
            options.release options.dryRun).result = .ok report) ∨
        (options.run tree).exitCode = 1 ∧
          ∃ error, ((options.workspace tree).generate configuration
            options.release options.dryRun).result = .error error) := by
  unfold Options.workspace at h ⊢
  cases hresult : ((Workspace.mk tree options.directory).generate
      configuration options.release options.dryRun).result with
  | error error =>
      simp only [Options.run, h, hresult]
      exact ⟨trivial, .inr ⟨trivial, error, rfl⟩⟩
  | ok report =>
      simp only [Options.run, h, hresult]
      exact ⟨trivial, .inl ⟨trivial, report, rfl⟩⟩

end Options

/-- What a call of the program leaves and how it exits, for arguments that ask for a
run. -/
structure ProgramEffects (tree : Tree) (arguments : List Text)
    (options : Options) : Prop where
  unchanged_of_refused : ∀ error,
    (options.workspace tree).loadConfiguration options.config =
        .error error →
    (runProgram tree arguments).tree = tree
  tree_of_loaded : ∀ configuration,
    (options.workspace tree).loadConfiguration options.config =
        .ok configuration →
    (runProgram tree arguments).tree =
      ((options.workspace tree).generate configuration options.release
        options.dryRun).workspace.tree
  exitCode_eq_zero_iff :
    (runProgram tree arguments).exitCode = 0 ↔
      ∃ configuration,
        (options.workspace tree).loadConfiguration options.config =
            .ok configuration ∧
        ∃ report,
          ((options.workspace tree).generate configuration options.release
            options.dryRun).result = .ok report
  exitCode_eq_one_of_ne_zero : (runProgram tree arguments).exitCode ≠ 0 →
    (runProgram tree arguments).exitCode = 1

theorem programEffects {arguments : List Text} {options : Options}
    (h : Request.ofArguments? arguments = some (.run options)) (tree : Tree) :
    ProgramEffects tree arguments options := by
  have hrun : runProgram tree arguments = options.run tree := by
    rw [runProgram, h]
  cases hload :
      (options.workspace tree).loadConfiguration options.config with
  | error error =>
      obtain ⟨htree, hexit⟩ := Options.run_of_refused hload
      constructor
      · intro _ _
        rw [hrun, htree]
      · rw [hload]
        exact nofun
      · rw [hrun, hexit, hload]
        simp
      · intro _
        rw [hrun, hexit]
  | ok configuration =>
      obtain ⟨htree, hend⟩ := Options.run_of_loaded hload
      constructor
      · rw [hload]
        exact nofun
      · rw [hload]
        rintro _ ⟨⟩
        rw [hrun, htree]
      · rw [hrun, hload]
        rcases hend with ⟨hexit, report, hreport⟩ | ⟨hexit, error, herror⟩
        · exact ⟨fun _ => ⟨configuration, rfl, report, hreport⟩,
            fun _ => hexit⟩
        · rw [hexit]
          constructor
          · exact nofun
          · rintro ⟨_, ⟨⟩, report, hreport⟩
            rw [herror] at hreport
            cases hreport
      · rw [hrun]
        rcases hend with ⟨hexit, -⟩ | ⟨hexit, -⟩
        · exact fun hne => absurd hexit hne
        · exact fun _ => hexit

/-- Every run, and every call of the program that asks for one, touches the files in
the ways described and in no other. -/
theorem effects_of_runs :
    (∀ (workspace : Workspace) (configuration : Configuration)
      (release dryRun : Bool),
      RunEffects workspace configuration release dryRun) ∧
    ∀ (tree : Tree) (arguments : List Text) (options : Options),
      Request.ofArguments? arguments = some (.run options) →
      ProgramEffects tree arguments options :=
  ⟨Workspace.runEffects, fun tree _ _ h => programEffects h tree⟩

/-- A library source in a tree where a directory stands in place of the Makefile. -/
def Workspace.blocked : Workspace where
  tree := (Tree.empty.putFile "lib/a.cpp".toList []).makeDirectory
    "Makefile".toList
  root := ['.']

/-- The group of the library in a conventional tree. -/
def SourceGroup.standardLibrary : SourceGroup :=
  .scanning "lib".toList "lib/".toList "$\x7bINCLUDE_FOR_LIB\x7d".toList
    (some "LIBOBJ".toList)

theorem effects_of_runs_blocked :
    Request.ofArguments? [] = some (.run (Given.options [])) ∧
      (∃ cause, (Workspace.blocked.generate .standard false false).result =
        .error (.outputNotOpened "./Makefile".toList cause)) ∧
      (runProgram Workspace.blocked.tree []).exitCode = 1 := by
  have harguments :
      Request.ofArguments? [] = some (.run (Given.options [])) := rfl
  obtain ⟨hruns, hprograms⟩ := effects_of_runs
  have hrun := hruns .blocked .standard false false
  have hprogram := hprograms Workspace.blocked.tree [] _ harguments
  have hnotOk : ∀ report,
      (Workspace.blocked.generate .standard false false).result ≠
        .ok report := by
    intro report hreport
    have hopens := (Workspace.result_generate_eq_ok_iff.mp hreport).2.1
    have hblocked : (Workspace.blocked.slot? "Makefile".toList).isSome =
        false := by decide +kernel
    exact absurd (hblocked.symm.trans hopens) (by decide)
  have hsources :
      (Workspace.blocked.generate .standard false false).result ≠
        .error .noSources := by
    intro hnone
    have hlibrary : Workspace.blocked.collectGroup ".cpp".toList
        SourceGroup.standardLibrary ∈
          Workspace.blocked.collectGroups .standard :=
      List.mem_map_of_mem List.mem_cons_self
    have hfiles : (Workspace.blocked.collectGroup ".cpp".toList
        SourceGroup.standardLibrary).files = ["lib/a.cpp".toList] := by
      decide +kernel
    have hempty := hrun.noSources_iff.mp hnone _ hlibrary (.inl rfl)
    rw [hfiles] at hempty
    cases hempty
  have herror : ∃ cause,
      (Workspace.blocked.generate .standard false false).result =
        .error (.outputNotOpened "./Makefile".toList cause) := by
    cases hresult :
        (Workspace.blocked.generate .standard false false).result with
    | ok report => exact absurd hresult (hnotOk report)
    | error error =>
        have hne : error ≠ .noSources := by
          rintro rfl
          exact hsources hresult
        obtain ⟨-, cause, rfl, -⟩ := hrun.listings_of_error error hresult hne
        exact ⟨cause, rfl⟩
  refine ⟨harguments, herror, ?_⟩
  apply hprogram.exitCode_eq_one_of_ne_zero
  intro hzero
  obtain ⟨configuration, hload, report, hreport⟩ :=
    hprogram.exitCode_eq_zero_iff.mp hzero
  have hstandard : Workspace.blocked.loadConfiguration none =
      .ok .standard := by
    have hmissing : Workspace.blocked.tree.pathExists
        (Workspace.blocked.root.join configurationFile) = false := by decide +kernel
    simp only [Workspace.loadConfiguration, Option.getD_none, hmissing,
      Bool.false_eq_true, if_false, Option.isSome_none]
  obtain rfl := Except.ok.inj (hstandard.symm.trans hload)
  exact hnotOk report hreport

end HeaderMake
