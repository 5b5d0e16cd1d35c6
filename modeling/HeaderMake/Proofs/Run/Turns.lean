import HeaderMake.Proofs.Run.Outputs
import Mathlib.Data.Nat.Find
import Mathlib.Tactic.ByContra
import Mathlib.Tactic.Push

/-!
# Outputs at their turn

Each output is opened in the workspace that the outputs before it have left, so an
earlier output might make a later one fail, or let it succeed.  `Workspace.atTurn` is the
workspace that an output finds, and `Workspace.OpenedAt` and `Workspace.RefusedAt` say
what becomes of the output there.

`writing_is_exact` says that these turns account for everything: for how the writing
ends, for what is reported, and for what stands at each location afterwards.
-/

namespace HeaderMake
namespace Workspace

variable (workspace : Workspace) (outputs : List OutputFile)

/-- The workspace at a turn: of the outputs before it, those that can be opened have been
written. -/
def atTurn (turn : Nat) : Workspace :=
  workspace.writeOpenable (outputs.take turn)

/-- The output has this turn and can then be opened. -/
def OpenedAt (turn : Nat) (output : OutputFile) : Prop :=
  outputs[turn]? = some output ∧
    (workspace.atTurn outputs turn).opens output = true

/-- The output has this turn and cannot then be opened. -/
def RefusedAt (turn : Nat) (output : OutputFile) : Prop :=
  outputs[turn]? = some output ∧
    (workspace.atTurn outputs turn).opens output = false

/-- The outputs that are opened at their turn, in order. -/
def openedOutputs : List OutputFile :=
  (outputs.zipIdx.filter fun (output, turn) =>
    (workspace.atTurn outputs turn).opens output).map Prod.fst

/-- The outputs that cannot be opened at their turn, in order. -/
def refusedOutputs : List OutputFile :=
  (outputs.zipIdx.filter fun (output, turn) =>
    !(workspace.atTurn outputs turn).opens output).map Prod.fst

/-- How the writing of some outputs ends and what it leaves, told by the turns of the
outputs. -/
structure WritesExactly : Prop where
  /-- The writing fails exactly if some required output is refused at its turn. -/
  error_iff :
    (∃ error, (workspace.writeOutputs outputs).result = .error error) ↔
      ∃ turn output, workspace.RefusedAt outputs turn output ∧
        output.required = true
  /-- The error names the first required output that is refused and why, and nothing has
  been written since its turn. -/
  first_of_error : ∀ error,
    (workspace.writeOutputs outputs).result = .error error →
    ∃ turn output cause,
      workspace.RefusedAt outputs turn output ∧ output.required = true ∧
      (∀ earlier other, workspace.RefusedAt outputs earlier other →
        other.required = true → turn ≤ earlier) ∧
      (workspace.atTurn outputs turn).write output.path output.contents =
        .error cause ∧
      error = .outputNotOpened (workspace.root.join output.path) cause ∧
      (workspace.writeOutputs outputs).workspace =
        workspace.atTurn outputs turn
  /-- The report splits the outputs into those opened and those refused. -/
  report_of_ok : ∀ report,
    (workspace.writeOutputs outputs).result = .ok report →
    report.rules = 0 ∧
      report.written = (workspace.openedOutputs outputs).map (·.path) ∧
      report.skipped = (workspace.refusedOutputs outputs).map (·.path) ∧
      ∀ output ∈ outputs, output.required = true →
        output ∈ workspace.openedOutputs outputs
  /-- Each opened output denotes a file afterwards, and the last output that denotes a
  file decides what it holds. -/
  last_of_ok : ∀ report,
    (workspace.writeOutputs outputs).result = .ok report →
    ∀ turn output, workspace.OpenedAt outputs turn output →
    ∃ location,
      (workspace.writeOutputs outputs).workspace.fileAt? output.path =
          some location ∧
        ((∀ later other, turn < later →
            workspace.OpenedAt outputs later other →
            (workspace.writeOutputs outputs).workspace.fileAt? other.path ≠
              some location) →
          (workspace.writeOutputs outputs).workspace.tree.lookup location =
            some (.file (Utf8.encode output.contents)))
  /-- What no opened output denotes stays as it was. -/
  kept_of_ok : ∀ report,
    (workspace.writeOutputs outputs).result = .ok report →
    ∀ location,
      (∀ turn output, workspace.OpenedAt outputs turn output →
        (workspace.writeOutputs outputs).workspace.fileAt? output.path ≠
          some location) →
      (workspace.writeOutputs outputs).workspace.tree.lookup location =
        workspace.tree.lookup location

variable {workspace outputs}

/-! ## Turns and the workspace to begin with -/

/-- No output changes whether a later one can be opened. -/
theorem opens_atTurn (turn : Nat) :
    (workspace.atTurn outputs turn).opens = workspace.opens :=
  (grows_writeOpenable workspace (outputs.take turn)).opens

theorem openedOutputs_eq :
    workspace.openedOutputs outputs = outputs.filter workspace.opens := by
  simp only [openedOutputs, opens_atTurn]
  conv_rhs => rw [← List.zipIdx_map_fst 0 outputs, List.filter_map]
  rfl

theorem refusedOutputs_eq :
    workspace.refusedOutputs outputs =
      outputs.filter (!workspace.opens ·) := by
  simp only [refusedOutputs, opens_atTurn]
  conv_rhs => rw [← List.zipIdx_map_fst 0 outputs, List.filter_map]
  rfl

theorem exists_openedAt {output : OutputFile} (hmem : output ∈ outputs)
    (hopens : workspace.opens output = true) :
    ∃ turn, workspace.OpenedAt outputs turn output := by
  obtain ⟨turn, hturn⟩ := List.mem_iff_getElem?.mp hmem
  exact ⟨turn, hturn, by rwa [opens_atTurn]⟩

theorem OpenedAt.opens {turn : Nat} {output : OutputFile}
    (h : workspace.OpenedAt outputs turn output) :
    workspace.opens output = true := by
  rw [← opens_atTurn turn]
  exact h.2

/-! ## The first refusal -/

theorem eq_take_append_of_getElem? {turn : Nat} {output : OutputFile}
    (h : outputs[turn]? = some output) :
    outputs = outputs.take turn ++ output :: outputs.drop (turn + 1) := by
  obtain ⟨hturn, rfl⟩ := List.getElem?_eq_some_iff.mp h
  rw [← List.drop_eq_getElem_cons hturn, List.take_append_drop]

theorem writeOutputs_of_refusedAt {turn : Nat} {output : OutputFile}
    (hrefused : workspace.RefusedAt outputs turn output)
    (hrequired : output.required = true)
    (hbefore : ∀ other ∈ outputs.take turn,
      other.required → workspace.opens other) :
    ∃ cause,
      (workspace.atTurn outputs turn).write output.path output.contents =
        .error cause ∧
      (workspace.writeOutputs outputs).result =
        .error (.outputNotOpened (workspace.root.join output.path) cause) ∧
      (workspace.writeOutputs outputs).workspace =
        workspace.atTurn outputs turn := by
  obtain ⟨hturn, hopens⟩ := hrefused
  have hslot : (workspace.atTurn outputs turn).slot? output.path = none := by
    rwa [opens, Option.isSome_eq_false_iff, Option.isNone_iff_eq_none]
      at hopens
  obtain ⟨cause, hcause⟩ :=
    exists_error_of_slot?_eq_none hslot output.contents
  obtain ⟨hworkspace, hresult⟩ := writeOutputs_append_of_opens workspace
    (outputs.take turn) (output :: outputs.drop (turn + 1)) hbefore
  rw [← eq_take_append_of_getElem? hturn] at hworkspace hresult
  have hroot : (workspace.atTurn outputs turn).root = workspace.root :=
    (grows_writeOpenable workspace (outputs.take turn)).root_eq
  rw [← atTurn, writeOutputs_of_refused hcause hrequired] at hworkspace hresult
  exact ⟨cause, hcause, (hresult _).mpr (by rw [hroot]), hworkspace⟩

/-- If some required output cannot be opened, then the writing ends at the first one. -/
theorem exists_first_refused
    (h : ¬∀ output ∈ outputs, output.required → workspace.opens output) :
    ∃ turn output cause,
      workspace.RefusedAt outputs turn output ∧ output.required = true ∧
      (∀ earlier other, workspace.RefusedAt outputs earlier other →
        other.required = true → turn ≤ earlier) ∧
      (workspace.atTurn outputs turn).write output.path output.contents =
        .error cause ∧
      (workspace.writeOutputs outputs).result =
        .error (.outputNotOpened (workspace.root.join output.path) cause) ∧
      (workspace.writeOutputs outputs).workspace =
        workspace.atTurn outputs turn := by
  classical
  have hsome : ∃ turn output, workspace.RefusedAt outputs turn output ∧
      output.required = true := by
    push Not at h
    obtain ⟨output, hmem, hrequired, hopens⟩ := h
    obtain ⟨turn, hturn⟩ := List.mem_iff_getElem?.mp hmem
    exact ⟨turn, output, ⟨hturn, by simpa [opens_atTurn] using hopens⟩,
      hrequired⟩
  obtain ⟨output, hrefused, hrequired⟩ := Nat.find_spec hsome
  have hfirst : ∀ earlier other, workspace.RefusedAt outputs earlier other →
      other.required = true → Nat.find hsome ≤ earlier :=
    fun earlier other hother hneeded =>
      Nat.find_min' hsome ⟨other, hother, hneeded⟩
  have hbefore : ∀ other ∈ outputs.take (Nat.find hsome),
      other.required → workspace.opens other := by
    intro other hother hneeded
    by_contra hopens
    obtain ⟨earlier, hearlier⟩ := List.mem_iff_getElem?.mp hother
    rw [List.getElem?_take] at hearlier
    split at hearlier
    · next hlt =>
      have hle := hfirst earlier other
        ⟨hearlier, by simpa [opens_atTurn] using hopens⟩ hneeded
      omega
    · cases hearlier
  obtain ⟨cause, hends⟩ :=
    writeOutputs_of_refusedAt hrefused hrequired hbefore
  exact ⟨_, output, cause, hrefused, hrequired, hfirst, hends⟩

/-! ## Ends of the writing -/

theorem exists_error_iff :
    (∃ error, (workspace.writeOutputs outputs).result = .error error) ↔
      ¬∀ output ∈ outputs, output.required → workspace.opens output := by
  constructor
  · rintro ⟨error, herror⟩ hopens
    rw [result_writeOutputs_of_opens workspace outputs hopens] at herror
    cases herror
  · intro h
    obtain ⟨turn, output, cause, -, -, -, -, hresult, -⟩ :=
      exists_first_refused h
    exact ⟨_, hresult⟩

/-- After a success, an output that was opened is the file that it denotes, unless a later
one denotes the same file. -/
theorem lookup_of_last_opened
    (hopens : ∀ output ∈ outputs, output.required → workspace.opens output)
    {turn : Nat} {output : OutputFile}
    (hopened : workspace.OpenedAt outputs turn output)
    {location : Location}
    (hslot : workspace.slot? output.path = some location)
    (hlater : ∀ later other, turn < later →
      workspace.OpenedAt outputs later other →
      (workspace.writeOutputs outputs).workspace.fileAt? other.path ≠
        some location) :
    (workspace.writeOutputs outputs).workspace.tree.lookup location =
      some (.file (Utf8.encode output.contents)) := by
  have hsplit := eq_take_append_of_getElem? hopened.1
  rw [hsplit]
  apply lookup_writeOutputs_of_last _ hslot
  · intro other hother hsame
    obtain ⟨n, hn⟩ := List.mem_iff_getElem?.mp hother
    rw [List.getElem?_drop] at hn
    have hmem := List.mem_of_getElem? hn
    apply hlater (turn + 1 + n) other (by omega)
    · exact ⟨hn, by rw [opens_atTurn]; exact opens_of_slot? hsame⟩
    · exact fileAt?_writeOutputs hopens hmem hsame
  · intro other hother
    exact hopens other (List.mem_of_mem_take hother)

/-- Writing outputs does to each of them what its turn says, and nothing else. -/
theorem writing_is_exact (workspace : Workspace) (outputs : List OutputFile) :
    workspace.WritesExactly outputs where
  error_iff := by
    rw [exists_error_iff]
    constructor
    · intro h
      obtain ⟨turn, output, -, hrefused, hrequired, -⟩ :=
        exists_first_refused h
      exact ⟨turn, output, hrefused, hrequired⟩
    · rintro ⟨turn, output, ⟨hturn, hrefused⟩, hrequired⟩ hopens
      have hopened := hopens output (List.mem_of_getElem? hturn) hrequired
      rw [opens_atTurn, hopened] at hrefused
      cases hrefused
  first_of_error error herror := by
    obtain ⟨turn, output, cause, hrefused, hrequired, hfirst, hcause,
      hresult, hworkspace⟩ :=
      exists_first_refused (exists_error_iff.mp ⟨error, herror⟩)
    rw [hresult] at herror
    exact ⟨turn, output, cause, hrefused, hrequired, hfirst, hcause,
      (Except.error.inj herror).symm, hworkspace⟩
  report_of_ok report hreport := by
    obtain ⟨hopens, rfl⟩ := result_writeOutputs_eq_ok_iff.mp hreport
    rw [openedOutputs_eq, refusedOutputs_eq]
    refine ⟨rfl, rfl, rfl, fun output hmem hrequired => ?_⟩
    exact List.mem_filter.mpr ⟨hmem, hopens output hmem hrequired⟩
  last_of_ok report hreport turn output hopened := by
    obtain ⟨hopens, -⟩ := result_writeOutputs_eq_ok_iff.mp hreport
    obtain ⟨location, hslot⟩ := Option.isSome_iff_exists.mp hopened.opens
    refine ⟨location, ?_, lookup_of_last_opened hopens hopened hslot⟩
    exact fileAt?_writeOutputs hopens (List.mem_of_getElem? hopened.1) hslot
  kept_of_ok report hreport location hapart := by
    by_contra hchanged
    obtain ⟨output, hmem, hopens, hdenoted⟩ :=
      exists_fileAt?_of_lookup_ne hchanged
    obtain ⟨turn, hopened⟩ := exists_openedAt hmem hopens
    exact hapart turn output hopened hdenoted

end Workspace
end HeaderMake
