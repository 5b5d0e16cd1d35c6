import HeaderMake.Proofs.Tree.Writing
import HeaderMake.Run.Generate

/-!
# Writing a list of outputs

Which outputs can be opened does not change while outputs are written, since the
workspace only grows by files.  What `Workspace.writeOutputs` reports is therefore
settled before it begins (`Workspace.result_writeOutputs_eq_ok_iff`), and each location
either keeps what stands there or receives bytes that do not depend on the workspace
(`Workspace.writeOutputs_cell`).  An output that no later one overwrites is read back
whole (`Workspace.read_writeOutputs`).
-/

namespace HeaderMake
namespace Workspace

/-! ## Opening paths -/

/-- The location that writing to a path creates or overwrites, if the path can be
opened. -/
def slot? (workspace : Workspace) (path : Path) : Option Location :=
  (workspace.tree.findSlot (workspace.root.join path)).toOption

/-- The location of the regular file that a path leads to, links followed. -/
def fileAt? (workspace : Workspace) (path : Path) : Option Location :=
  match workspace.tree.find (workspace.root.join path) with
  | .ok (.file location _) => some location
  | _ => none

/-- Whether an output can be opened for writing. -/
def opens (workspace : Workspace) (output : OutputFile) : Bool :=
  (workspace.slot? output.path).isSome

/-- The workspace with a text as the file at a location. -/
def put (workspace : Workspace) (location : Location) (contents : Text) :
    Workspace :=
  { workspace with
    tree := workspace.tree.insert location (.file (Utf8.encode contents)) }

/-- The second workspace is the first one after some regular files have been created or
overwritten. -/
structure Grows (before after : Workspace) : Prop where
  root_eq : after.root = before.root
  tree : before.tree.Grows after.tree

theorem slot?_eq_some_iff {workspace : Workspace} {path : Path}
    {location : Location} :
    workspace.slot? path = some location ↔
      workspace.tree.findSlot (workspace.root.join path) = .ok location := by
  unfold slot?
  cases workspace.tree.findSlot (workspace.root.join path) <;>
    simp [Except.toOption]

theorem fileAt?_eq_some_iff {workspace : Workspace} {path : Path}
    {location : Location} :
    workspace.fileAt? path = some location ↔
      ∃ content, workspace.tree.find (workspace.root.join path) =
        .ok (.file location content) := by
  unfold fileAt?
  split
  · next other content hfind => simp [hfind]
  · next hfind =>
    refine ⟨nofun, ?_⟩
    rintro ⟨content, hfile⟩
    exact absurd hfile (hfind location content)

theorem lookup_of_slot? {workspace : Workspace} {path : Path}
    {location : Location} (h : workspace.slot? path = some location) :
    location ≠ [] ∧
      (workspace.tree.lookup location = none ∨
        ∃ content, workspace.tree.lookup location = some (.file content)) :=
  Tree.lookup_of_slot (Tree.findSlot_eq_ok_iff.mp (slot?_eq_some_iff.mp h)).2

theorem fileAt?_of_slot? {workspace : Workspace} {path : Path}
    {location : Location} {content : Bytes}
    (h : workspace.slot? path = some location)
    (hlookup : workspace.tree.lookup location = some (.file content)) :
    workspace.fileAt? path = some location :=
  fileAt?_eq_some_iff.mpr
    ⟨content, Tree.find_of_findSlot hlookup (slot?_eq_some_iff.mp h)⟩

theorem write_of_slot? {workspace : Workspace} {path : Path}
    {location : Location} (h : workspace.slot? path = some location)
    (contents : Text) :
    workspace.write path contents = .ok (workspace.put location contents) := by
  rw [write, Tree.write, slot?_eq_some_iff.mp h]
  rfl

theorem exists_error_of_slot?_eq_none {workspace : Workspace} {path : Path}
    (h : workspace.slot? path = none) (contents : Text) :
    ∃ cause, workspace.write path contents = .error cause := by
  unfold slot? at h
  cases hslot : workspace.tree.findSlot (workspace.root.join path) with
  | ok location =>
      rw [hslot] at h
      cases h
  | error cause =>
      refine ⟨cause, ?_⟩
      rw [write, Tree.write, hslot]
      rfl

theorem slot?_eq_none_of_error {workspace : Workspace} {path : Path}
    {contents : Text} {cause : FileError}
    (h : workspace.write path contents = .error cause) :
    workspace.slot? path = none := by
  cases hslot : workspace.slot? path with
  | none => rfl
  | some location =>
      rw [write_of_slot? hslot] at h
      cases h

/-! ## Workspaces that grow -/

namespace Grows

theorem refl (workspace : Workspace) : workspace.Grows workspace :=
  ⟨rfl, .refl _⟩

theorem trans {first second third : Workspace} (h : first.Grows second)
    (h' : second.Grows third) : first.Grows third :=
  ⟨h'.root_eq.trans h.root_eq, h.tree.trans h'.tree⟩

variable {before after : Workspace}

theorem slot? (h : before.Grows after) (path : Path) :
    after.slot? path = before.slot? path := by
  apply Option.ext
  intro location
  rw [slot?_eq_some_iff, slot?_eq_some_iff, h.root_eq]
  exact h.tree.findSlot _ _

theorem opens (h : before.Grows after) : after.opens = before.opens := by
  funext output
  rw [Workspace.opens, Workspace.opens, h.slot?]

end Grows

theorem grows_put {workspace : Workspace} {path : Path} {location : Location}
    (h : workspace.slot? path = some location) (contents : Text) :
    workspace.Grows (workspace.put location contents) := by
  obtain ⟨hne, hlookup⟩ := lookup_of_slot? h
  exact ⟨rfl, Tree.grows_insert hne hlookup _⟩

theorem lookup_put (workspace : Workspace) {location : Location}
    (hne : location ≠ []) (contents : Text) (other : Location) :
    (workspace.put location contents).tree.lookup other =
      if other = location then some (.file (Utf8.encode contents))
      else workspace.tree.lookup other :=
  Tree.lookup_insert workspace.tree hne _ other

/-- Writing the same text to a path keeps one workspace grown out of another. -/
theorem Grows.put {before after : Workspace} (h : before.Grows after)
    {location : Location} (hne : location ≠ []) (contents : Text) :
    (before.put location contents).Grows (after.put location contents) := by
  refine ⟨h.root_eq, h.tree.start_eq, ?_⟩
  intro other
  rw [lookup_put before hne, lookup_put after hne]
  split
  · exact .same _
  · exact h.tree.lookup other

/-! ## Output by output -/

@[simp]
theorem workspace_afterWriting (path : Path) (outcome : Outcome) :
    (outcome.afterWriting path).workspace = outcome.workspace := rfl

@[simp]
theorem workspace_afterSkipping (path : Path) (cause : FileError)
    (outcome : Outcome) :
    (outcome.afterSkipping path cause).workspace = outcome.workspace := rfl

theorem exists_ok_of_map_eq_ok {ε α β : Type} {f : α → β}
    {result : Except ε α} {value : β} (h : result.map f = .ok value) :
    ∃ first, result = .ok first := by
  cases result with
  | error _ => cases h
  | ok first => exact ⟨first, rfl⟩

theorem map_eq_error_iff {ε α β : Type} {f : α → β} {result : Except ε α}
    {error : ε} : result.map f = .error error ↔ result = .error error := by
  cases result <;> simp [Except.map]

theorem writeOutputs_of_slot? {workspace : Workspace} {output : OutputFile}
    {location : Location} (h : workspace.slot? output.path = some location)
    (rest : List OutputFile) :
    workspace.writeOutputs (output :: rest) =
      ((workspace.put location output.contents).writeOutputs
        rest).afterWriting output.path := by
  rw [writeOutputs, write_of_slot? h]

theorem writeOutputs_of_refused {workspace : Workspace} {output : OutputFile}
    {cause : FileError}
    (h : workspace.write output.path output.contents = .error cause)
    (hrequired : output.required = true) (rest : List OutputFile) :
    workspace.writeOutputs (output :: rest) =
      ⟨workspace, [],
        .error (.outputNotOpened (workspace.root.join output.path) cause)⟩ := by
  rw [writeOutputs, h]
  simp only [hrequired, if_true]

theorem writeOutputs_of_skipped {workspace : Workspace} {output : OutputFile}
    {cause : FileError}
    (h : workspace.write output.path output.contents = .error cause)
    (hoptional : output.required = false) (rest : List OutputFile) :
    workspace.writeOutputs (output :: rest) =
      (workspace.writeOutputs rest).afterSkipping output.path cause := by
  rw [writeOutputs, h]
  simp only [hoptional, Bool.false_eq_true, if_false]

/-- Induction along the writing of outputs: the first output is written, or it is
required and ends the writing, or it is skipped. -/
@[elab_as_elim]
theorem writeOutputs_induction {motive : Workspace → List OutputFile → Prop}
    (done : ∀ workspace, motive workspace [])
    (written : ∀ workspace output rest location,
      workspace.slot? output.path = some location →
      motive (workspace.put location output.contents) rest →
      motive workspace (output :: rest))
    (refused : ∀ workspace output rest cause,
      workspace.write output.path output.contents = .error cause →
      output.required = true → motive workspace (output :: rest))
    (skipped : ∀ workspace output rest cause,
      workspace.write output.path output.contents = .error cause →
      output.required = false → motive workspace rest →
      motive workspace (output :: rest))
    (workspace : Workspace) (outputs : List OutputFile) :
    motive workspace outputs := by
  induction outputs generalizing workspace with
  | nil => exact done workspace
  | cons output rest ih =>
      cases hslot : workspace.slot? output.path with
      | some location => exact written _ _ _ location hslot (ih _)
      | none =>
          obtain ⟨cause, hcause⟩ :=
            exists_error_of_slot?_eq_none hslot output.contents
          cases hrequired : output.required with
          | true => exact refused _ _ _ cause hcause hrequired
          | false => exact skipped _ _ _ cause hcause hrequired (ih _)

theorem grows_writeOutputs (workspace : Workspace)
    (outputs : List OutputFile) :
    workspace.Grows (workspace.writeOutputs outputs).workspace := by
  induction workspace, outputs using writeOutputs_induction with
  | done workspace => exact .refl workspace
  | written workspace output rest location hslot ih =>
      rw [writeOutputs_of_slot? hslot]
      exact (grows_put hslot output.contents).trans ih
  | refused workspace output rest cause hcause hrequired =>
      rw [writeOutputs_of_refused hcause hrequired]
      exact .refl workspace
  | skipped workspace output rest cause hcause hoptional ih =>
      rwa [writeOutputs_of_skipped hcause hoptional]

theorem opens_of_slot? {workspace : Workspace} {output : OutputFile}
    {location : Location} (h : workspace.slot? output.path = some location) :
    workspace.opens output = true := by
  rw [opens, h, Option.isSome_some]

theorem opens_eq_false_of_error {workspace : Workspace} {output : OutputFile}
    {cause : FileError}
    (h : workspace.write output.path output.contents = .error cause) :
    workspace.opens output = false := by
  rw [opens, slot?_eq_none_of_error h, Option.isSome_none]

/-- What is reported once all outputs have been taken. -/
def reportOf (workspace : Workspace) (outputs : List OutputFile) : Report where
  rules := 0
  written := (outputs.filter workspace.opens).map (·.path)
  skipped := (outputs.filter (!workspace.opens ·)).map (·.path)

theorem Grows.reportOf {before after : Workspace} (h : before.Grows after) :
    after.reportOf = before.reportOf := by
  funext outputs
  rw [Workspace.reportOf, Workspace.reportOf, h.opens]

theorem reportOf_cons_of_opens {workspace : Workspace} {output : OutputFile}
    (h : workspace.opens output = true) (rest : List OutputFile) :
    workspace.reportOf (output :: rest) =
      { workspace.reportOf rest with
        written := output.path :: (workspace.reportOf rest).written } := by
  simp [reportOf, h]

theorem reportOf_cons_of_not_opens {workspace : Workspace}
    {output : OutputFile} (h : workspace.opens output = false)
    (rest : List OutputFile) :
    workspace.reportOf (output :: rest) =
      { workspace.reportOf rest with
        skipped := output.path :: (workspace.reportOf rest).skipped } := by
  simp [reportOf, h]

theorem result_writeOutputs_of_opens (workspace : Workspace)
    (outputs : List OutputFile) :
    (∀ output ∈ outputs, output.required → workspace.opens output) →
      (workspace.writeOutputs outputs).result =
        .ok (workspace.reportOf outputs) := by
  induction workspace, outputs using writeOutputs_induction with
  | done workspace => exact fun _ => rfl
  | written workspace output rest location hslot ih =>
      intro h
      have hrest := (List.forall_mem_cons.mp h).2
      have hgrows := grows_put hslot output.contents
      rw [← hgrows.opens] at hrest
      rw [writeOutputs_of_slot? hslot, Outcome.afterWriting, ih hrest,
        reportOf_cons_of_opens (opens_of_slot? hslot), hgrows.reportOf]
      rfl
  | refused workspace output rest cause hcause hrequired =>
      intro h
      have hopens := h output List.mem_cons_self hrequired
      rw [opens_eq_false_of_error hcause] at hopens
      cases hopens
  | skipped workspace output rest cause hcause hoptional ih =>
      intro h
      have hrest := (List.forall_mem_cons.mp h).2
      rw [writeOutputs_of_skipped hcause hoptional, Outcome.afterSkipping,
        ih hrest, reportOf_cons_of_not_opens (opens_eq_false_of_error hcause)]
      rfl

theorem opens_of_result_writeOutputs (workspace : Workspace)
    (outputs : List OutputFile) :
    ∀ report, (workspace.writeOutputs outputs).result = .ok report →
      ∀ output ∈ outputs, output.required → workspace.opens output := by
  induction workspace, outputs using writeOutputs_induction with
  | done workspace => simp
  | written workspace output rest location hslot ih =>
      intro report h
      rw [writeOutputs_of_slot? hslot] at h
      obtain ⟨other, hother⟩ := exists_ok_of_map_eq_ok h
      have hrest := ih other hother
      rw [(grows_put hslot output.contents).opens] at hrest
      exact List.forall_mem_cons.mpr ⟨fun _ => opens_of_slot? hslot, hrest⟩
  | refused workspace output rest cause hcause hrequired =>
      intro report h
      rw [writeOutputs_of_refused hcause hrequired] at h
      cases h
  | skipped workspace output rest cause hcause hoptional ih =>
      intro report h
      rw [writeOutputs_of_skipped hcause hoptional] at h
      obtain ⟨other, hother⟩ := exists_ok_of_map_eq_ok h
      refine List.forall_mem_cons.mpr ⟨?_, ih other hother⟩
      rw [hoptional]
      exact nofun

/-- Writing outputs succeeds exactly if every required output can be opened to begin
with.  The outputs written are then those that can be opened to begin with. -/
theorem result_writeOutputs_eq_ok_iff {workspace : Workspace}
    {outputs : List OutputFile} {report : Report} :
    (workspace.writeOutputs outputs).result = .ok report ↔
      (∀ output ∈ outputs, output.required → workspace.opens output) ∧
        report = workspace.reportOf outputs := by
  constructor
  · intro h
    have hopens := opens_of_result_writeOutputs workspace outputs report h
    rw [result_writeOutputs_of_opens workspace outputs hopens] at h
    exact ⟨hopens, (Except.ok.inj h).symm⟩
  · rintro ⟨hopens, rfl⟩
    exact result_writeOutputs_of_opens workspace outputs hopens

/-! ## Location by location -/

/-- A list of outputs either leaves a location as it is, or puts a file there whose bytes
depend only on the outputs, whatever has been written before. -/
theorem writeOutputs_cell (workspace : Workspace) (outputs : List OutputFile)
    (location : Location) :
    (∀ after, workspace.Grows after →
      (after.writeOutputs outputs).workspace.tree.lookup location =
        after.tree.lookup location) ∨
    ∃ content, ∀ after, workspace.Grows after →
      (after.writeOutputs outputs).workspace.tree.lookup location =
        some (.file content) := by
  induction workspace, outputs using writeOutputs_induction with
  | done workspace => exact .inl fun _ _ => rfl
  | written workspace output rest place hslot ih =>
      have hne := (lookup_of_slot? hslot).1
      have hstep : ∀ after, workspace.Grows after →
          (after.writeOutputs (output :: rest)).workspace =
            ((after.put place output.contents).writeOutputs rest).workspace := by
        intro after hgrows
        rw [← hgrows.slot?] at hslot
        rw [writeOutputs_of_slot? hslot, workspace_afterWriting]
      -- The last output with this place decides, so the rest is asked first.
      rcases ih with hkept | ⟨content, hcontent⟩
      · by_cases hplace : location = place
        · refine .inr ⟨Utf8.encode output.contents, ?_⟩
          intro after hgrows
          rw [hstep after hgrows, hkept _ (hgrows.put hne _),
            lookup_put after hne, if_pos hplace]
        · left
          intro after hgrows
          rw [hstep after hgrows, hkept _ (hgrows.put hne _),
            lookup_put after hne, if_neg hplace]
      · refine .inr ⟨content, ?_⟩
        intro after hgrows
        rw [hstep after hgrows]
        exact hcontent _ (hgrows.put hne _)
  | refused workspace output rest cause hcause hrequired =>
      left
      intro after hgrows
      have hslot := slot?_eq_none_of_error hcause
      rw [← hgrows.slot?] at hslot
      obtain ⟨cause', hcause'⟩ :=
        exists_error_of_slot?_eq_none hslot output.contents
      rw [writeOutputs_of_refused hcause' hrequired]
  | skipped workspace output rest cause hcause hoptional ih =>
      have hstep : ∀ after, workspace.Grows after →
          (after.writeOutputs (output :: rest)).workspace =
            (after.writeOutputs rest).workspace := by
        intro after hgrows
        have hslot := slot?_eq_none_of_error hcause
        rw [← hgrows.slot?] at hslot
        obtain ⟨cause', hcause'⟩ :=
          exists_error_of_slot?_eq_none hslot output.contents
        rw [writeOutputs_of_skipped hcause' hoptional, workspace_afterSkipping]
      rcases ih with hkept | ⟨content, hcontent⟩
      · left
        intro after hgrows
        rw [hstep after hgrows]
        exact hkept after hgrows
      · refine .inr ⟨content, ?_⟩
        intro after hgrows
        rw [hstep after hgrows]
        exact hcontent after hgrows

/-- A location that is changed is the place of one of the outputs. -/
theorem exists_output_of_lookup_ne (workspace : Workspace)
    (outputs : List OutputFile) (location : Location) :
    (workspace.writeOutputs outputs).workspace.tree.lookup location ≠
        workspace.tree.lookup location →
      ∃ output ∈ outputs, workspace.slot? output.path = some location := by
  induction workspace, outputs using writeOutputs_induction with
  | done workspace => exact fun h => absurd rfl h
  | written workspace output rest place hslot ih =>
      intro h
      by_cases hplace : location = place
      · exact ⟨output, List.mem_cons_self, by rw [hslot, hplace]⟩
      · have hlookup := lookup_put workspace (lookup_of_slot? hslot).1
          output.contents location
        rw [if_neg hplace] at hlookup
        rw [writeOutputs_of_slot? hslot, workspace_afterWriting,
          ← hlookup] at h
        obtain ⟨other, hother, hothers⟩ := ih h
        rw [(grows_put hslot output.contents).slot?] at hothers
        exact ⟨other, List.mem_cons_of_mem _ hother, hothers⟩
  | refused workspace output rest cause hcause hrequired =>
      intro h
      rw [writeOutputs_of_refused hcause hrequired] at h
      exact absurd rfl h
  | skipped workspace output rest cause hcause hoptional ih =>
      intro h
      rw [writeOutputs_of_skipped hcause hoptional,
        workspace_afterSkipping] at h
      obtain ⟨other, hother, hothers⟩ := ih h
      exact ⟨other, List.mem_cons_of_mem _ hother, hothers⟩

/-- A location that is changed is denoted afterwards by one of the outputs. -/
theorem exists_fileAt?_of_lookup_ne {workspace : Workspace}
    {outputs : List OutputFile} {location : Location}
    (h : (workspace.writeOutputs outputs).workspace.tree.lookup location ≠
      workspace.tree.lookup location) :
    ∃ output ∈ outputs, workspace.opens output ∧
      (workspace.writeOutputs outputs).workspace.fileAt? output.path =
        some location := by
  obtain ⟨output, houtput, hslot⟩ :=
    exists_output_of_lookup_ne workspace outputs location h
  have hgrows := grows_writeOutputs workspace outputs
  obtain ⟨content, hcontent⟩ := hgrows.tree.exists_file_of_ne h
  refine ⟨output, houtput, ?_, ?_⟩
  · exact opens_of_slot? hslot
  · rw [← hgrows.slot?] at hslot
    exact fileAt?_of_slot? hslot hcontent

/-! ## Writing what can be opened -/

/-- The workspace after each output that can be opened has been written, in order. -/
def writeOpenable (workspace : Workspace) (outputs : List OutputFile) :
    Workspace :=
  outputs.foldl
    (fun workspace output =>
      (workspace.write output.path output.contents).toOption.getD workspace)
    workspace

theorem writeOpenable_of_slot? {workspace : Workspace} {output : OutputFile}
    {location : Location} (h : workspace.slot? output.path = some location)
    (rest : List OutputFile) :
    workspace.writeOpenable (output :: rest) =
      (workspace.put location output.contents).writeOpenable rest := by
  rw [writeOpenable, List.foldl_cons, write_of_slot? h]
  rfl

theorem writeOpenable_of_error {workspace : Workspace} {output : OutputFile}
    {cause : FileError}
    (h : workspace.write output.path output.contents = .error cause)
    (rest : List OutputFile) :
    workspace.writeOpenable (output :: rest) =
      workspace.writeOpenable rest := by
  rw [writeOpenable, List.foldl_cons, h]
  rfl

theorem grows_writeOpenable (workspace : Workspace)
    (outputs : List OutputFile) :
    workspace.Grows (workspace.writeOpenable outputs) := by
  induction outputs generalizing workspace with
  | nil => exact .refl workspace
  | cons output rest ih =>
      cases hslot : workspace.slot? output.path with
      | some location =>
          rw [writeOpenable_of_slot? hslot]
          exact (grows_put hslot output.contents).trans (ih _)
      | none =>
          obtain ⟨cause, hcause⟩ :=
            exists_error_of_slot?_eq_none hslot output.contents
          rw [writeOpenable_of_error hcause]
          exact ih workspace

/-- If nothing among the first outputs ends the writing, then the others are written once
those that can be opened have been, and decide how the writing ends. -/
theorem writeOutputs_append_of_opens (workspace : Workspace)
    (before rest : List OutputFile) :
    (∀ output ∈ before, output.required → workspace.opens output) →
      (workspace.writeOutputs (before ++ rest)).workspace =
          ((workspace.writeOpenable before).writeOutputs rest).workspace ∧
        ∀ error, (workspace.writeOutputs (before ++ rest)).result =
            .error error ↔
          ((workspace.writeOpenable before).writeOutputs rest).result =
            .error error := by
  induction workspace, before using writeOutputs_induction with
  | done workspace => exact fun _ => ⟨rfl, fun _ => Iff.rfl⟩
  | written workspace output before location hslot ih =>
      intro hopens
      rw [← (grows_put hslot output.contents).opens] at hopens
      obtain ⟨hworkspace, hresult⟩ := ih (List.forall_mem_cons.mp hopens).2
      rw [List.cons_append, writeOutputs_of_slot? hslot,
        writeOpenable_of_slot? hslot]
      refine ⟨hworkspace, fun error => ?_⟩
      rw [← hresult]
      exact map_eq_error_iff
  | refused workspace output before cause hcause hrequired =>
      intro hopens
      have houtput := hopens output List.mem_cons_self hrequired
      rw [opens_eq_false_of_error hcause] at houtput
      cases houtput
  | skipped workspace output before cause hcause hoptional ih =>
      intro hopens
      obtain ⟨hworkspace, hresult⟩ := ih (List.forall_mem_cons.mp hopens).2
      rw [List.cons_append, writeOutputs_of_skipped hcause hoptional,
        writeOpenable_of_error hcause]
      refine ⟨hworkspace, fun error => ?_⟩
      rw [← hresult]
      exact map_eq_error_iff

/-! ## Reading what has been written -/

/-- Once a file stands at the location to which a path is written, its bytes are read
back by that path. -/
theorem read_of_slot? {workspace : Workspace} {path : Path}
    {location : Location} {content : Bytes}
    (h : workspace.slot? path = some location)
    (hlookup : workspace.tree.lookup location = some (.file content)) :
    workspace.read path = .ok content := by
  rw [read, Tree.read,
    Tree.find_of_findSlot hlookup (slot?_eq_some_iff.mp h)]
  rfl

/-- An output that can be opened stands at its place right after it has been written. -/
theorem lookup_put_self {workspace : Workspace} {path : Path}
    {location : Location} (h : workspace.slot? path = some location)
    (contents : Text) :
    (workspace.put location contents).tree.lookup location =
      some (.file (Utf8.encode contents)) := by
  rw [lookup_put workspace (lookup_of_slot? h).1, if_pos rfl]

/-- If nothing ends the writing, then each output that can be opened leads afterwards to
the file at its place. -/
theorem fileAt?_writeOutputs {workspace : Workspace}
    {outputs : List OutputFile}
    (hopens : ∀ output ∈ outputs, output.required → workspace.opens output)
    {output : OutputFile} (houtput : output ∈ outputs) {location : Location}
    (hslot : workspace.slot? output.path = some location) :
    (workspace.writeOutputs outputs).workspace.fileAt? output.path =
      some location := by
  obtain ⟨before, later, rfl⟩ := List.append_of_mem houtput
  have hrest := (writeOutputs_append_of_opens workspace before
    (output :: later)
    fun other hother => hopens other (List.mem_append_left _ hother)).1
  rw [← (grows_writeOpenable workspace before).slot?] at hslot
  rw [hrest, writeOutputs_of_slot? hslot, workspace_afterWriting]
  -- What has been put there stays a file, whatever is written later.
  have hgrows := grows_writeOutputs
    ((workspace.writeOpenable before).put location output.contents) later
  obtain ⟨content, hcontent⟩ :=
    hgrows.tree.lookup_file (lookup_put_self hslot output.contents)
  rw [← (grows_put hslot output.contents).slot?, ← hgrows.slot?] at hslot
  exact fileAt?_of_slot? hslot hcontent

/-- The last output with a place decides what stands there. -/
theorem lookup_writeOutputs_of_last {workspace : Workspace}
    {before : List OutputFile} {output : OutputFile}
    {later : List OutputFile} {location : Location}
    (hopens : ∀ other ∈ before, other.required → workspace.opens other)
    (hslot : workspace.slot? output.path = some location)
    (hlater : ∀ other ∈ later, workspace.slot? other.path ≠ some location) :
    (workspace.writeOutputs
        (before ++ output :: later)).workspace.tree.lookup location =
      some (.file (Utf8.encode output.contents)) := by
  have hgrows := grows_writeOpenable workspace before
  rw [← hgrows.slot?] at hslot
  rw [(writeOutputs_append_of_opens workspace before (output :: later)
      hopens).1, writeOutputs_of_slot? hslot, workspace_afterWriting,
    ← lookup_put_self hslot output.contents]
  apply Classical.byContradiction
  intro hne
  obtain ⟨other, hother, hothers⟩ := exists_output_of_lookup_ne _ _ _ hne
  rw [(grows_put hslot output.contents).slot?, hgrows.slot?] at hothers
  exact hlater other hother hothers

/-- If nothing ends the writing, then an output that can be opened is read back whole,
unless one of the outputs after it leads to the same file. -/
theorem read_writeOutputs {workspace : Workspace} {before : List OutputFile}
    {output : OutputFile} {later : List OutputFile}
    (hopens : ∀ other ∈ before ++ output :: later,
      other.required → workspace.opens other)
    (houtput : workspace.opens output)
    (hlater : ∀ other ∈ later, workspace.opens other →
      (workspace.writeOutputs
          (before ++ output :: later)).workspace.fileAt? other.path ≠
        (workspace.writeOutputs
          (before ++ output :: later)).workspace.fileAt? output.path) :
    (workspace.writeOutputs (before ++ output :: later)).workspace.read
        output.path =
      .ok (Utf8.encode output.contents) := by
  obtain ⟨location, hslot⟩ := Option.isSome_iff_exists.mp houtput
  have hgrows := grows_writeOutputs workspace (before ++ output :: later)
  have hmem : output ∈ before ++ output :: later :=
    List.mem_append_right _ List.mem_cons_self
  have hapart : ∀ other ∈ later,
      workspace.slot? other.path ≠ some location := by
    intro other hother hsame
    have hothers : other ∈ before ++ output :: later :=
      List.mem_append_right _ (List.mem_cons_of_mem _ hother)
    apply hlater other hother (opens_of_slot? hsame)
    rw [fileAt?_writeOutputs hopens hothers hsame,
      fileAt?_writeOutputs hopens hmem hslot]
  have hlookup := lookup_writeOutputs_of_last
    (fun other hother => hopens other (List.mem_append_left _ hother))
    hslot hapart
  rw [← hgrows.slot?] at hslot
  exact read_of_slot? hslot hlookup

end Workspace
end HeaderMake
