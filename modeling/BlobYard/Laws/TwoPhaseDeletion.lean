/-
Two-phase deletion.

A deletion is begun, the server removes the bytes, and the deletion is finished; it may stop
anywhere, be sent again, and meet other deletions and uploads on its way.  The plan that was
persisted first is the one that everybody works from.

* `sound_run`, `kept_of_steps` — plans stay what they are in all later states;
* `two_phase_law` — repeating either half, and what finishing removes and spares;
* `finish_removes_aborted` — a version that no plan names goes with the deletion of its path.
-/
import BlobYard.Laws.ObjectDeletion
import BlobYard.Repository.DeletionPlans

namespace BlobYard

open Outcome Repository Server

namespace TwoPhaseDeletion

/-! ### Requests and runs -/

/-- The requests on uploads and plans, the server's removal of the bytes with the end of the plan,
or any change of the tables that hold neither versions nor plans. -/
inductive Request where
  | upload (request : UploadRequest)
  | deletion (request : DeletionRequest)
  | execute (delete : StorageKey → Except StorageError Unit) (planned : PlannedDeletion)
  | environment (other : Repository)

/-- Executes a request; one that fails or stops leaves the repository as it was. -/
def exec (s : Repository) : Request → Repository
  | .upload request =>
    match request.run s with
    | .ok (_, s') => s'
    | .error _ => s
  | .deletion request =>
    match request.run s with
    | .ok s' => s'
    | .error _ => s
  | .execute delete planned =>
    match executeDeletion s delete planned with
    | .ok s' => s'
    | .error _ => s
  | .environment other =>
    { other with
      objectVersions := s.objectVersions, deletionOperations := s.deletionOperations
      deletionItems := s.deletionItems }

/-- Requests in any order, from an empty repository. -/
def system : System Repository Request where
  init := Repository.empty
  step s request s' := s' = exec s request

variable {s s' s'' : Repository}

theorem planStep_of_finish {operationId : String} {completedAtMs : ℕ} {event : NewAuditEvent}
    (h : s.finishDeletion operationId completedAtMs event = .ok s') : PlanStep s s' := by
  rcases finishDeletion_spec h with rfl | ⟨o, -, hfinished⟩
  · exact .same ⟨rfl, rfl⟩
  · exact .finished hfinished

theorem exec_planStep (s : Repository) (request : Request) : PlanStep s (exec s request) := by
  cases request with
  | upload request =>
    simp only [exec]
    split
    · rename_i hrun
      exact .same (request.versionChange hrun).2
    · exact .same ⟨rfl, rfl⟩
  | deletion request =>
    simp only [exec]
    split
    · rename_i hrun
      exact request.planStep hrun
    · exact .same ⟨rfl, rfl⟩
  | execute delete planned =>
    simp only [exec]
    split
    · rename_i hrun
      rcases executeDeletion_spec hrun with ⟨-, rfl⟩ | ⟨-, hfinish⟩
      · exact .same ⟨rfl, rfl⟩
      · exact planStep_of_finish hfinish
    · exact .same ⟨rfl, rfl⟩
  | environment other => exact .same ⟨rfl, rfl⟩

theorem sound_run (h : Run system (fun _ _ => True) s) : PlansSound s := by
  refine Run.inv (P := PlansSound) plansSound_init ?_ h
  rintro s request _ hs - rfl
  exact hs.step (exec_planStep s request)

theorem sound_steps (h : Steps system (fun _ _ => True) s s') (hs : PlansSound s) :
    PlansSound s' := by
  refine h.preserves (P := PlansSound) ?_ hs
  rintro t request _ ht - rfl
  exact ht.step (exec_planStep t request)

/-- An operation keeps its items, and its row until it is finished, in all later states. -/
theorem kept_of_steps (h : Steps system (fun _ _ => True) s s') {o : DeletionOperationRow}
    (ho : o ∈ s.deletionOperations) : PlanKept s s' o := by
  refine h.preserves (P := fun t => PlanKept s t o) ?_ ⟨rfl, Or.inl ho⟩
  rintro t request _ ht - rfl
  exact ht.trans fun _ ho' => (exec_planStep t request).kept ho'

/-! ### Beginning again -/

/-- The operation that a user deletion works from. -/
theorem operation_of_begin {value : NewObjectDeletion} {plan : DeletionPlan}
    (h : s.beginObjectDeletion value = .ok (plan, s')) :
    ∃ o ∈ s'.deletionOperations, ForTarget value.target o ∧ plan = s'.planOf o := by
  rcases beginObjectDeletion_cases h with ⟨o, ho, htarget, -, rfl, hplan⟩ |
    ⟨o, ho, hnewest, rfl, hplan⟩ | ⟨-, hplanned, hplan⟩
  · exact ⟨o, ho, htarget, hplan⟩
  · exact ⟨o, ho, hnewest.1, hplan⟩
  · exact ⟨_, hplanned.operation.mem_new, ⟨rfl, rfl, rfl, rfl⟩, hplan⟩

theorem planOf_kept {o : DeletionOperationRow} (h : s'.operationItems o.id = s.operationItems o.id) :
    s'.planOf o = s.planOf o := by
  rw [planOf, planOf, h]

/-- A pending operation of the target is the one that is found. -/
theorem pendingOperation_of_mem (hs : PlansSound s) {target : ObjectDeletionTarget}
    {o : DeletionOperationRow} (ho : o ∈ s.deletionOperations) (htarget : ForTarget target o)
    (hpending : o.complete = false) : s.pendingOperation target = some o := by
  cases hfound : s.pendingOperation target with
  | none =>
    have hcomplete := pendingOperation_eq_none.mp hfound o ho htarget
    rw [hpending] at hcomplete
    cases hcomplete
  | some o' =>
    obtain ⟨ho', ⟨hproject', hpath', hreason', hversion'⟩, hpending'⟩ :=
      pendingOperation_eq_some hfound
    obtain ⟨hproject, hpath, hreason, hversion⟩ := htarget
    rw [hs.targets o ho o' ho' hreason hreason' hpending hpending' (hproject'.trans hproject.symm)
      (hpath'.trans hpath.symm) (hversion'.trans hversion.symm)]

section Begun

variable {value value' : NewObjectDeletion} {plan : DeletionPlan}

/-- As long as its operation is pending, a repeated deletion returns the same plan. -/
theorem begin_of_pending (hs : PlansSound s'')
    (hbegin : s.beginObjectDeletion value = .ok (plan, s'))
    (hsteps : Steps system (fun _ _ => True) s' s'')
    (hpending : ∃ o ∈ s''.deletionOperations, o.id = plan.id ∧ o.complete = false)
    (htarget : value'.target = value.target) (hvalid : validateDeletion value' = .ok ()) :
    s''.beginObjectDeletion value' = .ok (plan, s'') := by
  obtain ⟨o, ho, hfor, rfl⟩ := operation_of_begin hbegin
  obtain ⟨hitems, hrow⟩ := kept_of_steps hsteps ho
  obtain ⟨x, hx, hid, hopen⟩ := hpending
  have hkept : o ∈ s''.deletionOperations ∧ o.complete = false := by
    rcases hrow with hmem | ⟨-, completedAtMs, hmem⟩
    · obtain rfl := Table.eq_of_key hx hmem hid
      exact ⟨hmem, hopen⟩
    · obtain rfl := Table.eq_of_key hx hmem hid
      cases hopen
  have hfound := pendingOperation_of_mem hs hkept.1 (htarget ▸ hfor) hkept.2
  rw [beginObjectDeletion_of_pending hvalid hfound, planOf_kept hitems]

/-- Once nothing is pending and nothing matches, it returns the newest completed operation. -/
theorem begin_of_completed (hbegin : s.beginObjectDeletion value = .ok (plan, s'))
    (hsteps : Steps system (fun _ _ => True) s' s'')
    (hcomplete : ∃ o ∈ s''.deletionOperations, o.id = plan.id ∧ o.complete = true)
    (hnone : s''.pendingOperation value.target = none)
    (hselected : s''.selectedVersions value.target = []) (htarget : value'.target = value.target)
    (hvalid : validateDeletion value' = .ok ()) :
    ∃ o ∈ s''.deletionOperations, s''.Newest value.target o ∧
      s''.beginObjectDeletion value' = .ok (s''.planOf o, s'') ∧
      (o.id = plan.id → s''.planOf o = { plan with complete := true }) := by
  obtain ⟨o, ho, hfor, rfl⟩ := operation_of_begin hbegin
  obtain ⟨hitems, hrow⟩ := kept_of_steps hsteps ho
  obtain ⟨x, hx, hid, hdone⟩ := hcomplete
  have hxfor : ForTarget value.target x ∧
      s''.planOf x = { s'.planOf o with complete := true } := by
    rcases hrow with hmem | ⟨-, completedAtMs, hmem⟩
    · obtain rfl := Table.eq_of_key hx hmem hid
      refine ⟨hfor, ?_⟩
      rw [planOf_kept hitems, planOf, hdone]
    · obtain rfl := Table.eq_of_key hx hmem hid
      refine ⟨hfor, ?_⟩
      rw [planOf, planOf, hitems]
  obtain ⟨newest, hfound⟩ := completedOperation_of_mem hx hxfor.1 hdone
  obtain ⟨hmem, hnewest⟩ := completedOperation_eq_some hfound
  refine ⟨newest, hmem, hnewest, ?_, fun hsame => ?_⟩
  · exact beginObjectDeletion_of_completed hvalid (htarget ▸ hnone) (htarget ▸ hselected)
      (htarget ▸ hfound)
  · obtain rfl := Table.eq_of_key hmem hx (hsame.trans hid.symm)
    exact hxfor.2

end Begun

/-! ### Finishing -/

section Finished

variable {operationId : String} {completedAtMs : ℕ} {event : NewAuditEvent}

/-- A deletion that is finished can be finished again at any later time, which does nothing. -/
theorem finish_of_finished (hfinish : s.finishDeletion operationId completedAtMs event = .ok s')
    (hsteps : Steps system (fun _ _ => True) s' s'') {againAtMs : ℕ} (againEvent : NewAuditEvent)
    (htime : againAtMs ≤ i64Max) : s''.finishDeletion operationId againAtMs againEvent = .ok s'' := by
  have htext : ValidText operationId := by
    simp only [finishDeletion, bind_eq_ok, validateText_eq_ok] at hfinish
    exact hfinish.choose_spec.1
  obtain ⟨o, ho, rfl, heffect⟩ := finishDeletion_effect hfinish
  have hdone : ∃ x ∈ s'.deletionOperations, x.id = o.id ∧ x.complete = true := by
    rcases heffect with ⟨hcomplete, rfl⟩ | ⟨-, hmem, -⟩
    · exact ⟨o, ho, rfl, hcomplete⟩
    · exact ⟨_, hmem, rfl, rfl⟩
  obtain ⟨x, hx, hid, hcomplete⟩ := hdone
  obtain ⟨-, hmem | ⟨hopen, -⟩⟩ := kept_of_steps hsteps hx
  · exact finishDeletion_of_complete htext htime hmem hid hcomplete
  · rw [hcomplete] at hopen
    cases hopen

/-- What finishing removes, and what it leaves as it was. -/
structure Effect (s s' : Repository) (o : DeletionOperationRow) : Prop where
  /-- No version that the plan names is there any more, to be listed or downloaded. -/
  planned : ∀ id ∈ s.plannedIds o.id,
    (∀ v ∈ s'.objectVersions, v.id ≠ id) ∧ ObjectDeletion.Gone s' id
  /-- Versions outside the plan, but for the aborted ones of a user deletion's path, and all that
  hangs off them are the same. -/
  spared : Spared s s' (s.RemovesId o)
  /-- No version appears. -/
  old : ∀ v ∈ s'.objectVersions, v ∈ s.objectVersions

theorem removes_of_finish (hfinish : s.finishDeletion operationId completedAtMs event = .ok s') :
    ∃ o ∈ s.deletionOperations, o.id = operationId ∧
      (o.complete = true ∧ s' = s ∨ o.complete = false ∧ Effect s s' o) := by
  obtain ⟨o, ho, hid, heffect⟩ := finishDeletion_effect hfinish
  refine ⟨o, ho, hid, heffect.imp_right ?_⟩
  rintro ⟨hpending, -, hspared, hversions⟩
  refine ⟨hpending, fun id hplanned => ?_, hspared, fun v hv => (hversions v hv).1⟩
  have hnone : ∀ v ∈ s'.objectVersions, v.id ≠ id := by
    rintro v hv rfl
    exact (hversions v hv).2 (Or.inl hplanned)
  refine ⟨hnone, ObjectDeletion.gone_iff.mpr ?_⟩
  rintro ⟨v, hv, hvid, -⟩
  exact hnone v hv hvid

end Finished

/-! ### The law over runs -/

structure Lawful (s : Repository) : Prop where
  /-- While its operation is pending, a deletion that is begun again works from the same plan. -/
  pending : ∀ value plan s', s.beginObjectDeletion value = .ok (plan, s') →
    ∀ s'', Steps system (fun _ _ => True) s' s'' →
      (∃ o ∈ s''.deletionOperations, o.id = plan.id ∧ o.complete = false) →
      ∀ value' : NewObjectDeletion, value'.target = value.target →
        validateDeletion value' = .ok () → s''.beginObjectDeletion value' = .ok (plan, s'')
  /-- After its completion, when no matching version is left, it finds the completed operation. -/
  completed : ∀ value plan s', s.beginObjectDeletion value = .ok (plan, s') →
    ∀ s'', Steps system (fun _ _ => True) s' s'' →
      (∃ o ∈ s''.deletionOperations, o.id = plan.id ∧ o.complete = true) →
      s''.pendingOperation value.target = none → s''.selectedVersions value.target = [] →
      ∀ value' : NewObjectDeletion, value'.target = value.target →
        validateDeletion value' = .ok () →
        ∃ o ∈ s''.deletionOperations, s''.Newest value.target o ∧
          s''.beginObjectDeletion value' = .ok (s''.planOf o, s'') ∧
          (o.id = plan.id → s''.planOf o = { plan with complete := true })
  /-- A plan never changes. -/
  kept : ∀ o ∈ s.deletionOperations, ∀ s', Steps system (fun _ _ => True) s s' → PlanKept s s' o
  /-- What is finished can be finished any number of times. -/
  again : ∀ operationId completedAtMs event s',
    s.finishDeletion operationId completedAtMs event = .ok s' →
    ∀ s'', Steps system (fun _ _ => True) s' s'' → ∀ againAtMs againEvent, againAtMs ≤ i64Max →
      s''.finishDeletion operationId againAtMs againEvent = .ok s''
  removes : ∀ operationId completedAtMs event s',
    s.finishDeletion operationId completedAtMs event = .ok s' →
    ∃ o ∈ s.deletionOperations, o.id = operationId ∧
      (o.complete = true ∧ s' = s ∨ o.complete = false ∧ Effect s s' o)

theorem two_phase_law (h : Run system (fun _ _ => True) s) : Lawful s where
  pending value plan s' hbegin s'' hsteps hpending value' htarget hvalid := by
    have hrun : (DeletionRequest.beginObjectDeletion value).run s = .ok s' :=
      map_eq_ok.mpr ⟨_, hbegin, rfl⟩
    have hsound : PlansSound s' := (sound_run h).step (DeletionRequest.planStep hrun)
    exact begin_of_pending (sound_steps hsteps hsound) hbegin hsteps hpending htarget hvalid
  completed value plan s' hbegin s'' hsteps hcomplete hnone hselected value' htarget hvalid :=
    begin_of_completed hbegin hsteps hcomplete hnone hselected htarget hvalid
  kept o ho s' hsteps := kept_of_steps hsteps ho
  again operationId completedAtMs event s' hfinish s'' hsteps againAtMs againEvent htime :=
    finish_of_finished hfinish hsteps againEvent htime
  removes operationId completedAtMs event s' hfinish := removes_of_finish hfinish

/-! ### A path with an aborted upload -/

/-- The reservation of one byte at `old.txt`. -/
def reserveOld (id : String) (digit : Char) (createdAtMs : ℕ) : Request :=
  .upload (.reserveUpload
    { id, projectId := "p", objectPath := "old.txt", filename := "old.txt"
      contentType := "text/plain", expectedSize := 1, expectedChecksum := repeatedDigit 'd'
      storageKey := "versions/p/" ++ id, capabilityHash := repeatedDigit digit
      expiresAtMs := createdAtMs + 60, createdAtMs, source := .cli, gitRepository := none
      gitCommit := none, gitBranch := none, strategy := .single, partSize := none
      partCount := none })

/-- One upload of the path is completed, another one aborted, and the deletion of the path is
begun. -/
def begun : List Request :=
  [.upload (.createWorkspace { id := "w", name := "Attic", slug := ⟨"attic", by decide⟩ }),
   .upload (.createProject
     { id := "p", workspaceId := "w", name := "Boxes", slug := ⟨"boxes", by decide⟩ }),
   reserveOld "u1" '1' 1,
   .upload (.recordUploadedBytes "u1" 1 (repeatedDigit 'd')),
   .upload (.completeUpload "u1"),
   reserveOld "u2" '2' 2,
   .upload (.abortUpload "u2"),
   .deletion (.beginObjectDeletion
     { id := "d", target := { projectId := "p", objectPath := "old.txt", version := none }
       actor := "owner", requestId := "r", createdAtMs := 3 })]

/-- Both versions are there, one of them planned, and the state is lawful. -/
theorem lawful_begun :
    ((begun.foldl exec Repository.empty).objectVersions.rows.map ObjectVersionRecord.id =
        ["u1", "u2"] ∧
      (begun.foldl exec Repository.empty).plannedIds "d" = ["u1"]) ∧
      Lawful (begun.foldl exec Repository.empty) :=
  ⟨by decide +kernel, two_phase_law (Run.ofList_true (fun _ _ => rfl) Run.init _)⟩

/-- The event of the end of the deletion. -/
def deletedEvent : NewAuditEvent where
  id := "e"
  workspaceId := "w"
  actor := "owner"
  action := "object.deleted"
  requestId := "r"
  targetType := "object"
  metadata := []
  createdAtMs := 4

/-- Finishing removes the rows of a version that the plan does not name. -/
theorem finish_removes_aborted :
    Run system (fun _ _ => True) (begun.foldl exec Repository.empty) ∧
      ∃ s', (begun.foldl exec Repository.empty).finishDeletion "d" 4 deletedEvent = .ok s' ∧
        ∃ v ∈ (begun.foldl exec Repository.empty).objectVersions,
          v.id ∉ (begun.foldl exec Repository.empty).plannedIds "d" ∧ v ∉ s'.objectVersions := by
  refine ⟨Run.ofList_true (fun _ _ => rfl) Run.init _, ?_⟩
  have hok : ((begun.foldl exec Repository.empty).finishDeletion "d" 4 deletedEvent).isOk = true := by
    decide +kernel
  have hnone : (exec (begun.foldl exec Repository.empty)
      (.deletion (.finishDeletion "d" 4 deletedEvent))).objectVersions.rows = [] := by
    decide +kernel
  have hthere : ∃ v ∈ (begun.foldl exec Repository.empty).objectVersions,
      v.id ∉ (begun.foldl exec Repository.empty).plannedIds "d" := by decide +kernel
  obtain ⟨v, hv, hid⟩ := hthere
  cases hrun : (begun.foldl exec Repository.empty).finishDeletion "d" 4 deletedEvent with
  | error e =>
    rw [hrun] at hok
    cases hok
  | ok s' =>
    have hsame : exec (begun.foldl exec Repository.empty)
        (.deletion (.finishDeletion "d" 4 deletedEvent)) = s' := by
      simp only [exec, DeletionRequest.run, hrun]
    rw [hsame] at hnone
    refine ⟨s', rfl, v, hv, hid, fun hmem => ?_⟩
    rw [Table.mem_def, hnone] at hmem
    cases hmem

end TwoPhaseDeletion

end BlobYard
