import HeaderMake.Proofs.Run.Effects
import HeaderMake.Proofs.Run.Idempotence
import HeaderMake.Proofs.Text.Decoding

/-!
# What a dry run foretells

A dry run announces what a run over the same workspace would write.  Both make the same
plan, since everything is rendered before the first file is opened; so they lack sources
together, and what the dry run announces is what the run goes through in order
(`dryRun_agrees`).

Some announced outputs may turn out not to be writable, and two of them may be one file.
What a run owes to an announcement is therefore the size of every file that is written
and that no later output overwrites (`Outcome.Fulfils`).
-/

namespace HeaderMake

/-! ## Announcements -/

/-- The paths that an outcome announces and the size of each, in order. -/
def Outcome.announced (outcome : Outcome) : List (Path × Nat) :=
  outcome.notices.filterMap fun
    | .wouldWrite path bytes => some (path, bytes)
    | _ => none

/-- All that the outcome says is which outputs of the plan would be written and how many
bytes each takes, and all that it reports is the number of rules. -/
structure Outcome.Announces (outcome : Outcome) (plan : Plan) : Prop where
  notices_eq : outcome.notices = plan.outputs.map fun output =>
    .wouldWrite output.path (Utf8.encode output.contents).length
  result_eq : outcome.result =
    .ok { rules := plan.rules, written := [], skipped := [] }

/-- The outcome of a run that reports success does what has been announced. -/
structure Outcome.Fulfils (outcome : Outcome) (announced : List (Path × Nat))
    (report : Report) : Prop where
  /-- Each announced path is either written or skipped, and the order is kept. -/
  split : ∃ opened : Path → Bool,
    report.written = (announced.map Prod.fst).filter opened ∧
      report.skipped = (announced.map Prod.fst).filter (!opened ·)
  /-- A file that is written, and by no later output once more, has the announced
  size. -/
  size : ∀ before path bytes later,
    announced = before ++ (path, bytes) :: later → path ∈ report.written →
    (∀ other ∈ later, other.1 ∈ report.written →
      outcome.workspace.fileAt? other.1 ≠ outcome.workspace.fileAt? path) →
    ∃ content, outcome.workspace.read path = .ok content ∧
      content.length = bytes

namespace Outcome.Announces

variable {outcome : Outcome} {plan : Plan}

theorem announced_eq (h : outcome.Announces plan) :
    outcome.announced = plan.outputs.map fun output =>
      (output.path, (Utf8.encode output.contents).length) := by
  rw [announced, h.notices_eq, List.filterMap_map]
  change plan.outputs.filterMap (some ∘ fun output =>
    (output.path, (Utf8.encode output.contents).length)) = _
  rw [List.filterMap_eq_map]

theorem map_fst_announced (h : outcome.Announces plan) :
    outcome.announced.map Prod.fst = plan.outputs.map (·.path) := by
  rw [h.announced_eq, List.map_map]
  rfl

end Outcome.Announces

namespace Workspace

variable {workspace : Workspace}

theorem announces_carryOut (workspace : Workspace) (plan : Plan) :
    (workspace.carryOut plan true).Announces plan where
  notices_eq := by
    change plan.outputs.map OutputFile.announcement = _
    apply List.map_congr_left
    intro output _
    rw [OutputFile.announcement, Utf8.length_encode]
  result_eq := rfl

/-! ## Carrying out what has been announced -/

theorem mem_written_reportOf_iff {outputs : List OutputFile}
    {output : OutputFile} (h : output ∈ outputs) :
    output.path ∈ (workspace.reportOf outputs).written ↔
      workspace.opens output := by
  rw [reportOf, List.mem_map]
  constructor
  · -- Two outputs with the same path can be opened together or not at all.
    rintro ⟨other, hother, hpath⟩
    have hopens := (List.mem_filter.mp hother).2
    rwa [opens, hpath] at hopens
  · exact fun hopens => ⟨output, List.mem_filter.mpr ⟨h, hopens⟩, rfl⟩

/-- Whether an output is written or skipped is read off its path. -/
theorem reportOf_eq_filter_paths (workspace : Workspace)
    (outputs : List OutputFile) :
    (workspace.reportOf outputs).written =
        (outputs.map (·.path)).filter
          (fun path => (workspace.slot? path).isSome) ∧
      (workspace.reportOf outputs).skipped =
        (outputs.map (·.path)).filter
          (fun path => !(workspace.slot? path).isSome) := by
  rw [List.filter_map, List.filter_map]
  exact ⟨rfl, rfl⟩

/-- Writing the outputs of a plan, when it succeeds, does what has been announced of the
plan. -/
theorem fulfils_carryOut {plan : Plan} {dry : Outcome}
    (hdry : dry.Announces plan)
    (hopens : ∀ output ∈ plan.outputs,
      output.required → workspace.opens output) :
    (workspace.carryOut plan false).Fulfils dry.announced
      { workspace.reportOf plan.outputs with rules := plan.rules } where
  split := by
    refine ⟨fun path => (workspace.slot? path).isSome, ?_⟩
    rw [hdry.map_fst_announced]
    exact reportOf_eq_filter_paths workspace plan.outputs
  size := by
    intro before path bytes later hannounced hwritten hlater
    rw [hdry.announced_eq] at hannounced
    obtain ⟨first, rest, houtputs, -, hrest⟩ :=
      List.map_eq_append_iff.mp hannounced
    obtain ⟨output, last, rfl, houtput, rfl⟩ := List.map_eq_cons_iff.mp hrest
    obtain ⟨rfl, rfl⟩ := Prod.mk.inj houtput
    rw [workspace_carryOut_false] at hlater ⊢
    rw [houtputs] at hopens hwritten hlater ⊢
    have hmem : output ∈ first ++ output :: last :=
      List.mem_append_right _ List.mem_cons_self
    refine ⟨Utf8.encode output.contents, ?_, rfl⟩
    apply read_writeOutputs hopens
    · exact (mem_written_reportOf_iff hmem).mp hwritten
    · intro other hother hopen
      have hothers : other ∈ first ++ output :: last :=
        List.mem_append_right _ (List.mem_cons_of_mem _ hother)
      exact hlater _ (List.mem_map_of_mem hother)
        ((mem_written_reportOf_iff hothers).mpr hopen)

variable {configuration : Configuration}

theorem filter_required_planned (workspace : Workspace)
    (configuration : Configuration) (release : Bool) :
    (workspace.planned configuration release).outputs.filter (·.required) =
      [workspace.makefileOutput configuration release] := by
  have hlistings : (configuration.listingOutputs
      (workspace.collectGroups configuration)).filter (·.required) = [] := by
    rw [List.filter_eq_nil_iff]
    intro output houtput
    rw [required_of_mem_listingOutputs output houtput]
    exact Bool.false_ne_true
  rw [outputs_planned, List.filter_append, hlistings]
  rfl

theorem makefile_mem_written {release : Bool}
    (h : (workspace.slot? configuration.makefile).isSome) :
    configuration.makefile ∈ (workspace.reportOf
      (workspace.planned configuration release).outputs).written := by
  have hmem : workspace.makefileOutput configuration release ∈
      (workspace.planned configuration release).outputs := by
    rw [outputs_planned]
    exact List.mem_append_right _ (List.mem_singleton_self _)
  exact (mem_written_reportOf_iff hmem).mpr h

end Workspace

/-- A dry run and a run over the same workspace agree.  They lack sources together.
Otherwise the dry run announces exactly the outputs of the plan, the listings first and
then the Makefile, which alone is required; and a run that succeeds reports the same
number of rules, has written the Makefile, and has done what was announced. -/
theorem dryRun_agrees (workspace : Workspace) (configuration : Configuration)
    (release : Bool) :
    ((workspace.generate configuration release true).result =
        .error .noSources ↔
      (workspace.generate configuration release false).result =
        .error .noSources) ∧
    ((workspace.generate configuration release true).result ≠
        .error .noSources →
      ∃ plan : Plan,
        workspace.plan configuration release = .ok plan ∧
        plan.outputs =
          (configuration.libraryOutput?
              (workspace.collectGroups configuration)).toList ++
            (configuration.testOutput?
              (workspace.collectGroups configuration)).toList ++
            [workspace.makefileOutput configuration release] ∧
        plan.outputs.filter (·.required) =
          [workspace.makefileOutput configuration release] ∧
        (workspace.generate configuration release true).Announces plan ∧
        ∀ report,
          (workspace.generate configuration release false).result =
            .ok report →
          report.rules = plan.rules ∧
            configuration.makefile ∈ report.written ∧
            (workspace.generate configuration release false).Fulfils
              (workspace.generate configuration release true).announced
              report) := by
  refine ⟨Workspace.result_generate_eq_noSources_iff.trans
    Workspace.result_generate_eq_noSources_iff.symm, ?_⟩
  intro hdry
  have hsources :
      lacksSources (workspace.collectGroups configuration) = false := by
    rwa [Ne, Workspace.result_generate_eq_noSources_iff,
      Bool.not_eq_true] at hdry
  have hannounces :
      (workspace.generate configuration release true).Announces
        (workspace.planned configuration release) := by
    rw [Workspace.generate_of_sources hsources]
    exact Workspace.announces_carryOut workspace _
  refine ⟨workspace.planned configuration release,
    Workspace.plan_of_sources hsources release, rfl,
    Workspace.filter_required_planned workspace configuration release,
    hannounces, ?_⟩
  intro report hreport
  obtain ⟨-, hmakefile, rfl⟩ := Workspace.result_generate_eq_ok_iff.mp hreport
  refine ⟨rfl, Workspace.makefile_mem_written hmakefile, ?_⟩
  have hfulfils := Workspace.fulfils_carryOut hannounces
    (Workspace.forall_required_opens_iff.mpr hmakefile)
  rwa [← Workspace.generate_of_sources hsources release false] at hfulfils

theorem dryRun_agrees_small :
    (Workspace.small.generate .libraryOnly false true).result ≠
        .error .noSources ∧
      ∃ bytes content,
        ("Makefile".toList, bytes) ∈
            (Workspace.small.generate .libraryOnly false true).announced ∧
          (Workspace.small.afterRun .libraryOnly false).read
            "Makefile".toList = .ok content ∧
          content.length = bytes := by
  have hdry : (Workspace.small.generate .libraryOnly false true).result ≠
      .error .noSources := by
    rw [Ne, Workspace.result_generate_eq_noSources_iff,
      Workspace.lacksSources_small]
    exact Bool.false_ne_true
  have hopens : (Workspace.small.slot?
      Configuration.libraryOnly.makefile).isSome := by
    change (Workspace.small.slot? "Makefile".toList).isSome
    rw [Workspace.slot?_makefile_small]
    rfl
  obtain ⟨report, hreport⟩ : ∃ report,
      (Workspace.small.generate .libraryOnly false false).result =
        .ok report :=
    ⟨_, Workspace.result_generate_eq_ok_iff.mpr
      ⟨Workspace.lacksSources_small, hopens, rfl⟩⟩
  obtain ⟨plan, -, houtputs, -, hannounces, hreal⟩ :=
    (dryRun_agrees .small .libraryOnly false).2 hdry
  obtain ⟨-, hwritten, hfulfils⟩ := hreal report hreport
  -- The Makefile is announced last, so nothing overwrites it.
  have hannounced := hannounces.announced_eq
  rw [houtputs, List.map_append, List.map_singleton] at hannounced
  obtain ⟨content, hread, hlength⟩ := hfulfils.size _ _ _ [] hannounced
    hwritten nofun
  refine ⟨hdry, _, content, ?_, hread, hlength⟩
  rw [hannounced]
  exact List.mem_append_right _ (List.mem_singleton_self _)

end HeaderMake
