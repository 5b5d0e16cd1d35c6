import HeaderMake.Proofs.Run.Outputs

/-!
# What a run plans

A run that finds sources carries out one plan: the listings, which may be skipped, and
then the Makefile.  `Workspace.result_generate_eq_ok_iff` says when it succeeds, and with
which report.
-/

namespace HeaderMake

/-- The listings of a plan. -/
def Configuration.listingOutputs (configuration : Configuration)
    (groups : List CollectedGroup) : List OutputFile :=
  (configuration.libraryOutput? groups).toList ++
    (configuration.testOutput? groups).toList

theorem required_of_mem_listingOutputs {configuration : Configuration}
    {groups : List CollectedGroup} :
    ∀ output ∈ configuration.listingOutputs groups,
      output.required = false := by
  intro output houtput
  rcases List.mem_append.mp houtput with hlibrary | htest
  · rw [Option.mem_toList, Configuration.libraryOutput?] at hlibrary
    obtain ⟨library, -, rfl⟩ := Option.map_eq_some_iff.mp hlibrary
    rfl
  · rw [Option.mem_toList, Configuration.testOutput?] at htest
    obtain ⟨test, -, htest⟩ := Option.bind_eq_some_iff.mp htest
    obtain ⟨directory, -, htest⟩ := Option.bind_eq_some_iff.mp htest
    cases htest
    rfl

namespace Workspace

variable {workspace : Workspace} {configuration : Configuration}

/-- What a run plans once it has found sources. -/
def planned (workspace : Workspace) (configuration : Configuration)
    (release : Bool) : Plan :=
  .ofGroups configuration workspace.view
    (workspace.collectGroups configuration) release

/-- The Makefile as a run plans it. -/
def makefileOutput (workspace : Workspace) (configuration : Configuration)
    (release : Bool) : OutputFile where
  path := configuration.makefile
  contents := (renderMakefile configuration workspace.view
    (workspace.collectGroups configuration) release).text
  required := true

theorem outputs_planned (workspace : Workspace)
    (configuration : Configuration) (release : Bool) :
    (workspace.planned configuration release).outputs =
      configuration.listingOutputs (workspace.collectGroups configuration) ++
        [workspace.makefileOutput configuration release] := rfl

theorem plan_of_sources
    (h : lacksSources (workspace.collectGroups configuration) = false)
    (release : Bool) :
    workspace.plan configuration release =
      .ok (workspace.planned configuration release) := by
  simp only [plan, h, Bool.false_eq_true, if_false]
  rfl

theorem generate_of_lacksSources
    (h : lacksSources (workspace.collectGroups configuration) = true)
    (release dryRun : Bool) :
    workspace.generate configuration release dryRun =
      ⟨workspace, [], .error .noSources⟩ := by
  simp only [generate, plan, h, if_true]

theorem generate_of_sources
    (h : lacksSources (workspace.collectGroups configuration) = false)
    (release dryRun : Bool) :
    workspace.generate configuration release dryRun =
      workspace.carryOut (workspace.planned configuration release) dryRun := by
  rw [generate, plan_of_sources h]

theorem workspace_carryOut_true (workspace : Workspace) (plan : Plan) :
    (workspace.carryOut plan true).workspace = workspace := rfl

theorem workspace_carryOut_false (workspace : Workspace) (plan : Plan) :
    (workspace.carryOut plan false).workspace =
      (workspace.writeOutputs plan.outputs).workspace := rfl

theorem result_carryOut_false (workspace : Workspace) (plan : Plan) :
    (workspace.carryOut plan false).result =
      (workspace.writeOutputs plan.outputs).result.map fun report =>
        { report with rules := plan.rules } := rfl

/-- A run that is no dry run and has sources writes its plan. -/
theorem generate_false_of_sources
    (hsources : lacksSources (workspace.collectGroups configuration) = false)
    (release : Bool) :
    (workspace.generate configuration release false).workspace =
        (workspace.writeOutputs
          (workspace.planned configuration release).outputs).workspace ∧
      (workspace.generate configuration release false).result =
        (workspace.writeOutputs
          (workspace.planned configuration release).outputs).result.map
            fun report =>
              { report with
                rules := (workspace.planned configuration release).rules } := by
  rw [generate_of_sources hsources]
  exact ⟨workspace_carryOut_false _ _, result_carryOut_false _ _⟩

/-- Of what is planned only the Makefile has to be opened. -/
theorem forall_required_opens_iff {release : Bool} :
    (∀ output ∈ (workspace.planned configuration release).outputs,
        output.required → workspace.opens output) ↔
      (workspace.slot? configuration.makefile).isSome := by
  rw [outputs_planned]
  constructor
  · intro h
    exact h _ (List.mem_append_right _ (List.mem_singleton_self _)) rfl
  · intro h output houtput hrequired
    rcases List.mem_append.mp houtput with hlisting | hmakefile
    · rw [required_of_mem_listingOutputs output hlisting] at hrequired
      exact absurd hrequired Bool.false_ne_true
    · rwa [List.mem_singleton.mp hmakefile]

/-- A run succeeds exactly if there are sources and the Makefile can be opened. -/
theorem result_generate_eq_ok_iff {release : Bool} {report : Report} :
    (workspace.generate configuration release false).result = .ok report ↔
      lacksSources (workspace.collectGroups configuration) = false ∧
        (workspace.slot? configuration.makefile).isSome ∧
        report =
          { workspace.reportOf
              (workspace.planned configuration release).outputs with
            rules := (workspace.planned configuration release).rules } := by
  cases hsources : lacksSources (workspace.collectGroups configuration) with
  | true =>
      rw [generate_of_lacksSources hsources]
      exact ⟨nofun, nofun⟩
  | false =>
      rw [(generate_false_of_sources hsources release).2]
      constructor
      · intro h
        obtain ⟨inner, hinner⟩ := exists_ok_of_map_eq_ok h
        obtain ⟨hopens, rfl⟩ := result_writeOutputs_eq_ok_iff.mp hinner
        rw [hinner] at h
        exact ⟨rfl, forall_required_opens_iff.mp hopens,
          (Except.ok.inj h).symm⟩
      · rintro ⟨-, hmakefile, rfl⟩
        rw [result_writeOutputs_of_opens _ _
          (forall_required_opens_iff.mpr hmakefile)]
        rfl

end Workspace
end HeaderMake
