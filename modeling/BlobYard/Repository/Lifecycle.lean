/-
Two-phase deletion and retention.

A deletion first persists a plan (an operation with its items), then the server
removes the planned bytes, then `finishDeletion` removes the planned rows.  Three
flows write plans: user deletion under the object's path, retention under the fixed
path `.retention`, and yard cleanup under the manifest root of a deploy.

* `beginObjectDeletion_spec`, `beginRetention_spec` — beginning only adds plan rows;
* `Planned` — every item names a complete version;
* `beginObjectDeletion_plan` — the plan that a user deletion works from;
* `finishDeletion_cases` — finishing removes the planned versions, the aborted versions of
  a user target, and what hangs off them.
-/
import BlobYard.Repository.Transfers

namespace BlobYard

open Outcome

/-! ### Globs -/

/-- Skips any number of characters that satisfy `skip`, then continues with `rest`. -/
def globStar (rest : List Char → Bool) (skip : Char → Bool) : List Char → Bool
  | [] => rest []
  | c :: input => rest (c :: input) || (skip c && globStar rest skip input)

/-- `glob_at`: `**` crosses segments, `*` and `?` stay inside one. -/
def globAt : List Char → List Char → Bool
  | [] => fun input => input.isEmpty
  | '*' :: '*' :: pattern => globStar (globAt pattern) fun _ => true
  | '*' :: pattern => globStar (globAt pattern) fun c => c ≠ '/'
  | '?' :: pattern => fun
    | [] => false
    | c :: input => c ≠ '/' && globAt pattern input
  | character :: pattern => fun
    | [] => false
    | c :: input => c = character && globAt pattern input

def globMatches (glob value : String) : Bool := globAt glob.toList value.toList

/-- `validate_glob`. -/
def ValidGlob (value : String) (path : Bool) : Prop :=
  value ≠ "" ∧ value.utf8ByteSize ≤ 256 ∧
    (value.toList.head?.all fun c => !isWhitespace c) = true ∧
    (value.toList.getLast?.all fun c => !isWhitespace c) = true ∧
    '\\' ∉ value.toList ∧ (∀ c ∈ value.toList, isControl c = false) ∧
    (path = true → value.toList.head? ≠ some '/' ∧ ['.', '.'] ∉ segments value)

instance (value : String) (path : Bool) : Decidable (ValidGlob value path) :=
  inferInstanceAs (Decidable (_ ∧ _ ∧ _ ∧ _ ∧ _ ∧ _ ∧ _))

namespace Repository

/-! ### Plans -/

/-- `lifecycle_deletion::validate`. -/
def validateDeletion (value : NewObjectDeletion) : Except RepositoryError Unit := do
  validateTexts [value.id, value.target.projectId, value.target.objectPath, value.actor,
    value.requestId]
  ensure (value.target.version ≠ some 0) .invalidInput
  toI64 (value.target.version.getD 0)
  toI64 value.createdAtMs

/-- The versions a deletion target selects, in version order. -/
def selectedVersions (s : Repository) (target : ObjectDeletionTarget) :
    List ObjectVersionRecord :=
  orderBy ObjectVersionRecord.version <| s.objectVersions.select fun v =>
    v.projectId = target.projectId ∧ v.objectPath = target.objectPath ∧
      (target.version = none ∨ target.version = some v.version)

/-- The items of an operation, in version-id order. -/
def operationItems (s : Repository) (operationId : String) : List DeletionItem :=
  orderBy DeletionItem.versionId <|
    (s.deletionItems.select fun row => row.operationId = operationId).map DeletionItemRow.item

/-- `deletion_plan`. -/
def deletionPlan (s : Repository) (operationId : String) :
    Except RepositoryError DeletionPlan := do
  let operation ← requireRow (s.deletionOperations.find? operationId)
  return {
    id := operationId, items := s.operationItems operationId, complete := operation.complete,
    actor := operation.actor, requestId := operation.requestId }

/-- The operations of a user deletion target, pending or complete (`target_operation`). -/
def targetOperations (s : Repository) (target : ObjectDeletionTarget) (complete : Bool) :
    List DeletionOperationRow :=
  s.deletionOperations.select fun o =>
    o.projectId = target.projectId ∧ o.objectPath = target.objectPath ∧
      o.reason = .objectDelete ∧ o.complete = complete ∧ o.selectedVersion = target.version

def pendingOperation (s : Repository) (target : ObjectDeletionTarget) :
    Option DeletionOperationRow :=
  (s.targetOperations target false).head?

/-- The newest completed operation of a target. -/
def completedOperation (s : Repository) (target : ObjectDeletionTarget) :
    Option DeletionOperationRow :=
  (orderBy (fun o => toLex (OrderDual.toDual (o.completedAtMs.getD 0), OrderDual.toDual o.id))
    (s.targetOperations target true)).head?

/-- The item that plans the deletion of a version. -/
def deletionItemOf (version : ObjectVersionRecord) : DeletionItem where
  versionId := version.id
  storageKey := version.storageKey
  version := version.version

/-- Inserts one item for each of the given versions. -/
def insertItems (s : Repository) (operationId : String) (versions : List ObjectVersionRecord) :
    Except RepositoryError Repository := do
  let deletionItems ← versions.foldlM
    (fun t version => insertRow t { operationId, item := deletionItemOf version }) s.deletionItems
  return { s with deletionItems }

/-- Inserts a pending operation; its project must exist. -/
def insertOperation (s : Repository) (operation : DeletionOperationRow) :
    Except RepositoryError Repository := do
  ensure (∃ p ∈ s.projects, p.id = operation.projectId) .conflict
  let deletionOperations ← insertRow s.deletionOperations operation
  return { s with deletionOperations }

/-- `lifecycle_deletion::begin` with its validation. -/
def beginObjectDeletion (s : Repository) (value : NewObjectDeletion) :
    Except RepositoryError (DeletionPlan × Repository) := do
  validateDeletion value
  let versions := s.selectedVersions value.target
  match s.pendingOperation value.target with
  | some operation =>
    let plan ← s.deletionPlan operation.id
    return (plan, s)
  | none =>
    if versions = [] then
      let operation ← requireRow (s.completedOperation value.target)
      let plan ← s.deletionPlan operation.id
      return (plan, s)
    else
      ensure (∀ version ∈ versions, version.state ≠ .pending) .conflict
      let s ← s.insertOperation
        { id := value.id, projectId := value.target.projectId,
          objectPath := value.target.objectPath, selectedVersion := value.target.version,
          reason := .objectDelete, complete := false, actor := value.actor,
          requestId := value.requestId, createdAtMs := value.createdAtMs, completedAtMs := none }
      let s ← s.insertItems value.id (versions.filter fun v => v.state = .complete)
      let plan ← s.deletionPlan value.id
      return (plan, s)

/-! ### Finishing a plan -/

/-- The audit action of a finished plan. -/
def deletionAction : DeletionReason → String
  | .retention => "retention.enforced"
  | .yardCleanup => "yard.cleanup_completed"
  | .objectDelete => "object.deleted"

/-- `lifecycle_operation::validate_event`. -/
def validateDeletionEvent (s : Repository) (operation : DeletionOperationRow)
    (event : NewAuditEvent) : Except RepositoryError Unit := do
  let project ← requireRow (s.projects.find? operation.projectId)
  ensure (operation.actor = event.actor ∧ operation.requestId = event.requestId ∧
    project.workspaceId = event.workspaceId ∧ event.action = deletionAction operation.reason)
    .invalidInput

/-- `DELETE FROM upload_reservations`, cascading to parts and inbox links. -/
def deleteReservations (s : Repository) (p : UploadReservationRow → Prop) [DecidablePred p] :
    Repository :=
  { s with
    uploadReservations := s.uploadReservations.erase p
    uploadParts := s.uploadParts.erase fun part =>
      ∃ r ∈ s.uploadReservations, p r ∧ r.id = part.uploadId
    inboxUploads := s.inboxUploads.erase fun link =>
      ∃ r ∈ s.uploadReservations, p r ∧ r.id = link.uploadId }

/-- `DELETE FROM object_versions`: grants cascade, shares and deploy files lose the reference. -/
def deleteVersions (s : Repository) (p : ObjectVersionRecord → Prop) [DecidablePred p] :
    Repository :=
  { s with
    objectVersions := s.objectVersions.erase p
    downloadGrants := s.downloadGrants.erase fun g =>
      ∃ v ∈ s.objectVersions, p v ∧ v.id = g.versionId
    shares := s.shares.update
      (fun row => ∃ v ∈ s.objectVersions, p v ∧ some v.id = row.share.versionId)
      fun row => { row with share := { row.share with versionId := none } }
    yardDeployFiles := s.yardDeployFiles.update
      (fun file => ∃ v ∈ s.objectVersions, p v ∧ some v.id = file.versionId)
      fun file => { file with versionId := none } }

/-- One round of `delete_selected_metadata`. -/
def deleteVersionMetadata (s : Repository) (versionId : String) : Repository :=
  let s := { s with
    downloadGrants := s.downloadGrants.erase fun g => g.versionId = versionId }
  let s := s.deleteReservations fun r => r.versionId = versionId
  s.deleteVersions fun v => v.id = versionId

/-- The aborted versions of a user target. -/
def AbortedTarget (operation : DeletionOperationRow) (v : ObjectVersionRecord) : Prop :=
  v.projectId = operation.projectId ∧ v.objectPath = operation.objectPath ∧
    v.state = .aborted ∧
    (operation.selectedVersion = none ∨ operation.selectedVersion = some v.version)

instance (operation : DeletionOperationRow) : DecidablePred (AbortedTarget operation) :=
  fun _ => inferInstanceAs (Decidable (_ ∧ _ ∧ _ ∧ _))

/-- `delete_aborted_target`. -/
def deleteAbortedTarget (s : Repository) (operation : DeletionOperationRow) : Repository :=
  let s := s.deleteReservations fun r =>
    ∃ v ∈ s.objectVersions, AbortedTarget operation v ∧ v.id = r.versionId
  s.deleteVersions (AbortedTarget operation)

/-- `delete_selected_metadata`. -/
def deleteSelectedMetadata (s : Repository) (operation : DeletionOperationRow) : Repository :=
  let s := ((s.operationItems operation.id).map DeletionItem.versionId).foldl
    deleteVersionMetadata s
  if operation.reason = .objectDelete then s.deleteAbortedTarget operation else s

/-- Marks a pending operation complete. -/
def completeOperation (s : Repository) (operationId : String) (completedAtMs : ℕ) : Repository :=
  { s with
    deletionOperations := s.deletionOperations.update
      (fun o => o.id = operationId ∧ o.complete = false)
      fun o => { o with complete := true, completedAtMs := some completedAtMs } }

/-- `complete_run`. -/
def completeRun (s : Repository) (operation : DeletionOperationRow) (completedAtMs : ℕ) :
    Repository :=
  if operation.reason = .retention then
    { s with
      retentionRuns := s.retentionRuns.update (fun run => run.id = operation.id) fun run =>
        { run with
          deletedCount := s.deletionItems.count fun row => row.operationId = operation.id
          status := .complete
          completedAtMs := some completedAtMs
          errorSummary := none } }
  else s

/-- `lifecycle_deletion::finish` with its validation. -/
def finishDeletion (s : Repository) (operationId : String) (completedAtMs : ℕ)
    (event : NewAuditEvent) : Except RepositoryError Repository := do
  validateText operationId
  toI64 completedAtMs
  let operation ← requireRow (s.deletionOperations.find? operationId)
  if operation.complete then return s
  else
    s.validateDeletionEvent operation event
    let s := s.deleteSelectedMetadata operation
    let s := s.completeOperation operationId completedAtMs
    let s := s.completeRun operation completedAtMs
    s.insertAudit event

/-! ### Retention -/

/-- `validate_policy`. -/
def validatePolicy (policy : RetentionPolicyRecord) : Except RepositoryError Unit := do
  validateText policy.projectId
  ensure (policy.keepLatest ≠ 0 ∧ policy.createdAtMs ≤ policy.updatedAtMs) .invalidInput
  ensure (∀ glob ∈ policy.pathGlob, ValidGlob glob true) .invalidInput
  ensure (∀ glob ∈ policy.branchGlob, ValidGlob glob false) .invalidInput

/-- `assert_project_event`. -/
def assertProjectEvent (s : Repository) (projectId : String) (event : NewAuditEvent)
    (action : String) : Except RepositoryError Unit := do
  let project ← requireRow (s.projects.find? projectId)
  ensure (project.workspaceId = event.workspaceId ∧ event.action = action) .invalidInput

/-- The pending retention operation of a project. -/
def pendingRetention (s : Repository) (projectId : String) : Option DeletionOperationRow :=
  (s.deletionOperations.select fun o =>
    o.projectId = projectId ∧ o.reason = .retention ∧ o.complete = false).head?

def setRetention (s : Repository) (policy : RetentionPolicyRecord) (event : NewAuditEvent) :
    Except RepositoryError Repository := do
  validatePolicy policy
  s.assertProjectEvent policy.projectId event "retention.policy_set"
  ensure (s.pendingRetention policy.projectId = none) .conflict
  toI64 policy.createdAtMs
  toI64 policy.updatedAtMs
  let retentionPolicies ←
    match s.retentionPolicies.find? policy.projectId with
    | some known => do
      ensure (known.policy.createdAtMs ≤ policy.updatedAtMs) .conflict
      pure (s.retentionPolicies.update (fun row => row.policy.projectId = policy.projectId)
        fun row =>
          { policy :=
              { row.policy with
                keepLatest := policy.keepLatest
                pathGlob := policy.pathGlob
                branchGlob := policy.branchGlob
                updatedAtMs := policy.updatedAtMs }
            enabled := true })
    | none => insertRow s.retentionPolicies { policy, enabled := true }
  insertAudit { s with retentionPolicies } event

def clearRetention (s : Repository) (projectId : String) (updatedAtMs : ℕ)
    (event : NewAuditEvent) : Except RepositoryError (Bool × Repository) := do
  validateText projectId
  s.assertProjectEvent projectId event "retention.policy_cleared"
  ensure (s.pendingRetention projectId = none) .conflict
  toI64 updatedAtMs
  match (s.retentionPolicies.find? projectId).filter RetentionPolicyRow.enabled with
  | some known =>
    ensure (known.policy.createdAtMs ≤ updatedAtMs) .conflict
    let s ← insertAudit
      { s with
        retentionPolicies := s.retentionPolicies.update
          (fun row => row.policy.projectId = projectId)
          fun row => { policy := { row.policy with updatedAtMs }, enabled := false } }
      event
    return (true, s)
  | none => return (false, s)

/-- The enabled policy of a project. -/
def retentionPolicy (s : Repository) (projectId : String) :
    Except RepositoryError RetentionPolicyRecord := do
  validateText projectId
  let row ← requireRow ((s.retentionPolicies.find? projectId).filter RetentionPolicyRow.enabled)
  return row.policy

/-- `protected_path`. -/
def protectedPath (path : String) : Prop :=
  hasPrefix path ".blobyard-preview/" ∨ hasPrefix path ".blobyard-yard/"

instance (path : String) : Decidable (protectedPath path) :=
  inferInstanceAs (Decidable (_ ∨ _))

/-- `policy_matches`. -/
def policyMatches (policy : RetentionPolicyRecord) (v : ObjectVersionRecord) : Prop :=
  (∀ glob ∈ policy.pathGlob, globMatches glob v.objectPath = true) ∧
    ∀ glob ∈ policy.branchGlob, (v.gitBranch.any (globMatches glob)) = true

instance (policy : RetentionPolicyRecord) (v : ObjectVersionRecord) :
    Decidable (policyMatches policy v) :=
  inferInstanceAs (Decidable (_ ∧ _))

/-- The complete versions a policy governs, newest first (`matching_versions`). -/
def matchingVersions (s : Repository) (policy : RetentionPolicyRecord) :
    List ObjectVersionRecord :=
  (orderBy (fun v => toLex (OrderDual.toDual v.createdAtMs, OrderDual.toDual v.id))
    (s.objectVersions.select fun v =>
      v.projectId = policy.projectId ∧ v.state = .complete)).filter fun v =>
        decide (¬protectedPath v.objectPath ∧ policyMatches policy v)

/-- The path a retention operation is recorded under. -/
def retentionPath : String := ".retention"

/-- `lifecycle_retention_plan::begin`: resumes a pending run, or plans the deletion of every
governed version but the newest `keep_latest`. -/
def beginRetention (s : Repository) (projectId runId actor requestId : String)
    (startedAtMs : ℕ) : Except RepositoryError (DeletionPlan × Repository) := do
  validateTexts [projectId, runId, actor, requestId]
  match s.pendingRetention projectId with
  | some existing =>
    let s := { s with
      retentionRuns := s.retentionRuns.update
        (fun run => run.id = existing.id ∧ run.status ≠ .complete) fun run =>
          { run with status := .running, completedAtMs := none, errorSummary := none } }
    let plan ← s.deletionPlan existing.id
    return (plan, s)
  | none =>
    let policy ← s.retentionPolicy projectId
    let matching := s.matchingVersions policy
    toI64 startedAtMs
    let retentionRuns ← insertRow s.retentionRuns
      { id := runId, projectId, candidateCount := matching.length, deletedCount := 0,
        status := .running, startedAtMs, completedAtMs := none, errorSummary := none }
    let s ← insertOperation { s with retentionRuns }
      { id := runId, projectId, objectPath := retentionPath, selectedVersion := none,
        reason := .retention, complete := false, actor, requestId, createdAtMs := startedAtMs,
        completedAtMs := none }
    let s ← s.insertItems runId (matching.drop policy.keepLatest)
    let plan ← s.deletionPlan runId
    return (plan, s)

def failRetention (s : Repository) (runId : String) (completedAtMs : ℕ) :
    Except RepositoryError Repository := do
  validateText runId
  toI64 completedAtMs
  ensure (s.retentionRuns.count (fun run => run.id = runId ∧ run.status ≠ .complete) = 1) .notFound
  return { s with
    retentionRuns := s.retentionRuns.update
      (fun run => run.id = runId ∧ run.status ≠ .complete) fun run =>
        { run with
          status := .failed
          completedAtMs := some completedAtMs
          errorSummary := some "Storage deletion did not complete." } }

/-! ### What beginning a plan does -/

/-- `s'` is `s` with the pending operation `o` and one item for each of `versions`. -/
structure Planned (s s' : Repository) (o : DeletionOperationRow)
    (versions : List ObjectVersionRecord) : Prop where
  operation : s.deletionOperations.Inserted s'.deletionOperations o
  pending : o.complete = false
  items : ∀ row, row ∈ s'.deletionItems ↔
    row ∈ s.deletionItems ∨ ∃ v ∈ versions, row = ⟨o.id, deletionItemOf v⟩
  complete : ∀ v ∈ versions, v ∈ s.objectVersions ∧ v.state = .complete

theorem insertOperation_spec {s s' : Repository} {o : DeletionOperationRow}
    (h : s.insertOperation o = .ok s') :
    ∃ operations, s' = { s with deletionOperations := operations } ∧
      s.deletionOperations.Inserted operations o := by
  simp only [insertOperation, bind_eq_ok, pure_eq_ok, insertRow_eq_ok] at h
  obtain ⟨-, -, operations, hins, rfl⟩ := h
  exact ⟨operations, rfl, Table.inserted_of_insert hins⟩

theorem insertItems_spec {s s' : Repository} {operationId : String}
    {versions : List ObjectVersionRecord} (h : s.insertItems operationId versions = .ok s') :
    ∃ items, s' = { s with deletionItems := items } ∧
      ∀ row, row ∈ items ↔
        row ∈ s.deletionItems ∨ ∃ v ∈ versions, row = ⟨operationId, deletionItemOf v⟩ := by
  simp only [insertItems, bind_eq_ok, pure_eq_ok] at h
  obtain ⟨items, hfold, rfl⟩ := h
  refine ⟨items, rfl, ?_⟩
  generalize s.deletionItems = start at hfold
  induction versions generalizing start with
  | nil =>
    rw [List.foldlM_nil, pure_eq_ok] at hfold
    simp [hfold]
  | cons v versions ih =>
    rw [List.foldlM_cons, bind_eq_ok] at hfold
    obtain ⟨next, hnext, hrest⟩ := hfold
    have hmem := (Table.inserted_of_insert (insertRow_eq_ok.mp hnext)).mem
    intro row
    rw [ih next hrest row, hmem row, List.exists_mem_cons_iff, or_assoc]

theorem mem_selectedVersions {s : Repository} {target : ObjectDeletionTarget}
    {v : ObjectVersionRecord} :
    v ∈ s.selectedVersions target ↔ v ∈ s.objectVersions ∧ v.projectId = target.projectId ∧
      v.objectPath = target.objectPath ∧
      (target.version = none ∨ target.version = some v.version) := by
  simp [selectedVersions]

/-- Beginning a user deletion changes nothing, or plans the complete versions of its path. -/
theorem beginObjectDeletion_spec {s s' : Repository} {value : NewObjectDeletion}
    {plan : DeletionPlan} (h : s.beginObjectDeletion value = .ok (plan, s')) :
    s' = s ∨ ∃ operations items o,
      s' = { s with deletionOperations := operations, deletionItems := items } ∧
      o.reason = .objectDelete ∧ o.projectId = value.target.projectId ∧
      o.objectPath = value.target.objectPath ∧
      Planned s s' o ((s.selectedVersions value.target).filter fun v => v.state = .complete) := by
  simp only [beginObjectDeletion, bind_eq_ok] at h
  obtain ⟨-, -, h⟩ := h
  split at h
  · simp only [bind_eq_ok, pure_eq_ok, Prod.mk.injEq] at h
    obtain ⟨-, -, -, rfl⟩ := h
    exact Or.inl rfl
  · split at h
    · simp only [bind_eq_ok, pure_eq_ok, Prod.mk.injEq] at h
      obtain ⟨-, -, -, -, -, rfl⟩ := h
      exact Or.inl rfl
    · simp only [bind_eq_ok, pure_eq_ok, Prod.mk.injEq] at h
      obtain ⟨-, -, s₁, hs₁, s₂, hs₂, -, -, -, rfl⟩ := h
      obtain ⟨operations, rfl, hoperations⟩ := insertOperation_spec hs₁
      obtain ⟨items, rfl, hitems⟩ := insertItems_spec hs₂
      refine Or.inr ⟨operations, items, _, rfl, rfl, rfl, rfl, hoperations, rfl, hitems, ?_⟩
      intro v hv
      obtain ⟨hv, hstate⟩ := List.mem_filter.mp hv
      exact ⟨(mem_selectedVersions.mp hv).1, by simpa using hstate⟩

/-- The version ids an operation names. -/
def plannedIds (s : Repository) (operationId : String) : List String :=
  (s.operationItems operationId).map DeletionItem.versionId

theorem mem_plannedIds {s : Repository} {operationId id : String} :
    id ∈ s.plannedIds operationId ↔
      ∃ row ∈ s.deletionItems, row.operationId = operationId ∧ row.item.versionId = id := by
  simp only [plannedIds, operationItems, List.mem_map, mem_orderBy, Table.mem_select]
  constructor
  · rintro ⟨_, ⟨row, ⟨hrow, hop⟩, rfl⟩, rfl⟩
    exact ⟨row, hrow, hop, rfl⟩
  · rintro ⟨row, hrow, hop, rfl⟩
    exact ⟨row.item, ⟨row, ⟨hrow, hop⟩, rfl⟩, rfl⟩

theorem deletionPlan_eq_ok {s : Repository} {operationId : String} {plan : DeletionPlan} :
    s.deletionPlan operationId = .ok plan ↔
      ∃ o ∈ s.deletionOperations, o.id = operationId ∧
        plan = { id := operationId, items := s.operationItems operationId, complete := o.complete
                 actor := o.actor, requestId := o.requestId } := by
  simp only [deletionPlan, bind_eq_ok, requireRow_eq_ok, Table.find?_eq_some, pure_eq_ok]
  constructor
  · rintro ⟨o, ⟨ho, hid⟩, rfl⟩
    exact ⟨o, ho, hid, rfl⟩
  · rintro ⟨o, ho, hid, rfl⟩
    exact ⟨o, ⟨ho, hid⟩, rfl⟩

theorem mem_of_pendingOperation {s : Repository} {target : ObjectDeletionTarget}
    {o : DeletionOperationRow} (h : s.pendingOperation target = some o) :
    o ∈ s.deletionOperations ∧ o.reason = .objectDelete ∧ o.complete = false := by
  obtain ⟨ho, -, -, hreason, hcomplete, -⟩ := Table.mem_select.mp (List.mem_of_head? h)
  exact ⟨ho, hreason, hcomplete⟩

/-- The plan of a user deletion: that of the pending operation of the target, whatever has been
uploaded since; or, where nothing is selected, a completed one; or a new one that names every
complete version of the target. -/
theorem beginObjectDeletion_plan {s s' : Repository} {value : NewObjectDeletion}
    {plan : DeletionPlan} (h : s.beginObjectDeletion value = .ok (plan, s')) :
    ∃ o ∈ s'.deletionOperations, o.id = plan.id ∧ o.complete = plan.complete ∧
      (s.pendingOperation value.target = some o ∧ s' = s ∨
        s.pendingOperation value.target = none ∧ s.selectedVersions value.target = [] ∧
          s' = s ∧ plan.complete = true ∨
        s.pendingOperation value.target = none ∧ o.reason = .objectDelete ∧
          plan.complete = false ∧ (∀ o' ∈ s.deletionOperations, o'.id ≠ plan.id) ∧
          ∀ v ∈ s.selectedVersions value.target, v.state = .complete →
            v.id ∈ s'.plannedIds plan.id) := by
  simp only [beginObjectDeletion, bind_eq_ok] at h
  obtain ⟨-, -, h⟩ := h
  split at h
  · rename_i o hpending
    simp only [bind_eq_ok, pure_eq_ok, Prod.mk.injEq, deletionPlan_eq_ok] at h
    obtain ⟨_, ⟨o', ho', hid, rfl⟩, rfl, rfl⟩ := h
    obtain rfl := Table.eq_of_key ho' (mem_of_pendingOperation hpending).1 hid
    exact ⟨o', ho', rfl, rfl, Or.inl ⟨hpending, rfl⟩⟩
  · rename_i hpending
    split at h
    · rename_i hnone
      simp only [bind_eq_ok, pure_eq_ok, Prod.mk.injEq, deletionPlan_eq_ok, requireRow_eq_ok] at h
      obtain ⟨o, hcompleted, _, ⟨o', ho', hid, rfl⟩, rfl, rfl⟩ := h
      have hmem := List.mem_of_head? hcompleted
      rw [mem_orderBy] at hmem
      obtain ⟨ho, -, -, -, hcomplete, -⟩ := Table.mem_select.mp hmem
      obtain rfl := Table.eq_of_key ho' ho hid
      exact ⟨o', ho, rfl, rfl, Or.inr (Or.inl ⟨hpending, hnone, rfl, hcomplete⟩)⟩
    · simp only [bind_eq_ok, pure_eq_ok, Prod.mk.injEq] at h
      obtain ⟨-, -, s₁, hs₁, s₂, hs₂, _, hplan, rfl, rfl⟩ := h
      obtain ⟨operations, rfl, hoperations⟩ := insertOperation_spec hs₁
      obtain ⟨items, rfl, hitems⟩ := insertItems_spec hs₂
      obtain ⟨o, ho, hid, rfl⟩ := deletionPlan_eq_ok.mp hplan
      obtain rfl := Table.eq_of_key ho hoperations.mem_new hid
      refine ⟨_, ho, rfl, rfl, Or.inr (Or.inr ⟨hpending, rfl, rfl, hoperations.fresh, ?_⟩)⟩
      intro v hv hcomplete
      refine mem_plannedIds.mpr ⟨⟨value.id, deletionItemOf v⟩, (hitems _).mpr (Or.inr ?_), rfl, rfl⟩
      exact ⟨v, List.mem_filter.mpr ⟨hv, by simpa using hcomplete⟩, rfl⟩

theorem matchingVersions_complete {s : Repository} {policy : RetentionPolicyRecord}
    {v : ObjectVersionRecord} (hv : v ∈ s.matchingVersions policy) :
    v ∈ s.objectVersions ∧ v.projectId = policy.projectId ∧ v.state = .complete := by
  have h := (List.mem_filter.mp hv).1
  simpa using h

/-- Beginning retention resumes a run, or plans complete versions under `.retention`. -/
theorem beginRetention_spec {s s' : Repository} {projectId runId actor requestId : String}
    {startedAtMs : ℕ} {plan : DeletionPlan}
    (h : s.beginRetention projectId runId actor requestId startedAtMs = .ok (plan, s')) :
    (∃ runs, s' = { s with retentionRuns := runs }) ∨
      ∃ runs operations items o versions,
        s' = { s with
          retentionRuns := runs, deletionOperations := operations, deletionItems := items } ∧
        o.reason = .retention ∧ o.projectId = projectId ∧ o.objectPath = retentionPath ∧
        Planned s s' o versions := by
  simp only [beginRetention, bind_eq_ok] at h
  obtain ⟨-, -, h⟩ := h
  split at h
  · simp only [bind_eq_ok, pure_eq_ok, Prod.mk.injEq] at h
    obtain ⟨-, -, -, rfl⟩ := h
    exact Or.inl ⟨_, rfl⟩
  · simp only [bind_eq_ok, pure_eq_ok, Prod.mk.injEq] at h
    obtain ⟨policy, -, -, -, runs, -, s₁, hs₁, s₂, hs₂, -, -, -, rfl⟩ := h
    obtain ⟨operations, rfl, hoperations⟩ := insertOperation_spec hs₁
    obtain ⟨items, rfl, hitems⟩ := insertItems_spec hs₂
    refine Or.inr ⟨runs, operations, items, _, _, rfl, rfl, rfl, rfl, hoperations, rfl, hitems, ?_⟩
    intro v hv
    obtain ⟨hv, -, hstate⟩ := matchingVersions_complete (List.mem_of_mem_drop hv)
    exact ⟨hv, hstate⟩

/-- Setting a policy touches the policies and the audit trail. -/
theorem setRetention_frame {s s' : Repository} {policy : RetentionPolicyRecord}
    {event : NewAuditEvent} (h : s.setRetention policy event = .ok s') :
    ∃ retentionPolicies auditEvents, s' = { s with retentionPolicies, auditEvents } := by
  simp only [setRetention, bind_eq_ok] at h
  obtain ⟨-, -, -, -, -, -, -, -, -, -, h⟩ := h
  -- the policy is rewritten or inserted; both branches end in the audit event
  split at h <;> simp only [bind_eq_ok] at h
  · obtain ⟨-, -, policies, -, haudit⟩ := h
    obtain ⟨auditEvents, rfl⟩ := insertAudit_spec haudit
    exact ⟨policies, auditEvents, rfl⟩
  · obtain ⟨policies, -, haudit⟩ := h
    obtain ⟨auditEvents, rfl⟩ := insertAudit_spec haudit
    exact ⟨policies, auditEvents, rfl⟩

/-- So does clearing one. -/
theorem clearRetention_frame {s s' : Repository} {projectId : String} {updatedAtMs : ℕ}
    {event : NewAuditEvent} {cleared : Bool}
    (h : s.clearRetention projectId updatedAtMs event = .ok (cleared, s')) :
    ∃ retentionPolicies auditEvents, s' = { s with retentionPolicies, auditEvents } := by
  simp only [clearRetention, bind_eq_ok] at h
  obtain ⟨-, -, -, -, -, -, -, -, h⟩ := h
  split at h
  · simp only [bind_eq_ok, pure_eq_ok, Prod.mk.injEq] at h
    obtain ⟨-, -, s₁, haudit, -, rfl⟩ := h
    obtain ⟨auditEvents, rfl⟩ := insertAudit_spec haudit
    exact ⟨_, auditEvents, rfl⟩
  · simp only [pure_eq_ok, Prod.mk.injEq] at h
    obtain ⟨-, rfl⟩ := h
    exact ⟨s.retentionPolicies, s.auditEvents, rfl⟩

theorem failRetention_frame {s s' : Repository} {runId : String} {completedAtMs : ℕ}
    (h : s.failRetention runId completedAtMs = .ok s') :
    ∃ retentionRuns, s' = { s with retentionRuns } := by
  simp only [failRetention, bind_eq_ok, pure_eq_ok] at h
  obtain ⟨-, -, -, -, -, -, rfl⟩ := h
  exact ⟨_, rfl⟩

/-! ### What finishing a plan does -/

/-- `s'` is `s` up to the tables that a deletion of object versions touches. -/
def DeletesObjects (s s' : Repository) : Prop :=
  ∃ versions reservations parts links grants shares files,
    s' = { s with
      objectVersions := versions, uploadReservations := reservations, uploadParts := parts,
      inboxUploads := links, downloadGrants := grants, shares := shares,
      yardDeployFiles := files }

theorem DeletesObjects.trans {s s' s'' : Repository} (h : DeletesObjects s s')
    (h' : DeletesObjects s' s'') : DeletesObjects s s'' := by
  obtain ⟨_, _, _, _, _, _, _, rfl⟩ := h
  obtain ⟨_, _, _, _, _, _, _, rfl⟩ := h'
  exact ⟨_, _, _, _, _, _, _, rfl⟩

theorem deleteVersionMetadata_spec (s : Repository) (versionId : String) :
    DeletesObjects s (s.deleteVersionMetadata versionId) ∧
      (∀ v, v ∈ (s.deleteVersionMetadata versionId).objectVersions ↔
        v ∈ s.objectVersions ∧ v.id ≠ versionId) ∧
      ∀ r, r ∈ (s.deleteVersionMetadata versionId).uploadReservations ↔
        r ∈ s.uploadReservations ∧ r.versionId ≠ versionId := by
  refine ⟨⟨_, _, _, _, _, _, _, rfl⟩, fun v => ?_, fun r => ?_⟩
  · exact Table.mem_erase
  · exact Table.mem_erase

theorem foldl_deleteVersionMetadata_spec (s : Repository) (ids : List String) :
    DeletesObjects s (ids.foldl deleteVersionMetadata s) ∧
      (∀ v, v ∈ (ids.foldl deleteVersionMetadata s).objectVersions ↔
        v ∈ s.objectVersions ∧ v.id ∉ ids) ∧
      ∀ r, r ∈ (ids.foldl deleteVersionMetadata s).uploadReservations ↔
        r ∈ s.uploadReservations ∧ r.versionId ∉ ids := by
  induction ids generalizing s with
  | nil => exact ⟨⟨_, _, _, _, _, _, _, rfl⟩, by simp, by simp⟩
  | cons id ids ih =>
    obtain ⟨hframe, hversions, hreservations⟩ := deleteVersionMetadata_spec s id
    obtain ⟨hframe', hversions', hreservations'⟩ := ih (s.deleteVersionMetadata id)
    refine ⟨hframe.trans hframe', fun v => ?_, fun r => ?_⟩
    · rw [List.foldl_cons, hversions', hversions, List.mem_cons, not_or, and_assoc]
    · rw [List.foldl_cons, hreservations', hreservations, List.mem_cons, not_or, and_assoc]

theorem deleteAbortedTarget_spec (s : Repository) (o : DeletionOperationRow) :
    DeletesObjects s (s.deleteAbortedTarget o) ∧
      (∀ v, v ∈ (s.deleteAbortedTarget o).objectVersions ↔
        v ∈ s.objectVersions ∧ ¬AbortedTarget o v) ∧
      ∀ r ∈ (s.deleteAbortedTarget o).uploadReservations, r ∈ s.uploadReservations := by
  refine ⟨⟨_, _, _, _, _, _, _, rfl⟩, fun v => ?_, fun r hr => ?_⟩
  · exact Table.mem_erase
  · exact (Table.mem_erase.mp hr).1

/-- A version that finishing `o` removes. -/
def Removes (s : Repository) (o : DeletionOperationRow) (v : ObjectVersionRecord) : Prop :=
  v.id ∈ s.plannedIds o.id ∨ (o.reason = .objectDelete ∧ AbortedTarget o v)

theorem deleteSelectedMetadata_spec (s : Repository) (o : DeletionOperationRow) :
    DeletesObjects s (s.deleteSelectedMetadata o) ∧
      (∀ v, v ∈ (s.deleteSelectedMetadata o).objectVersions ↔
        v ∈ s.objectVersions ∧ ¬s.Removes o v) ∧
      ∀ r ∈ (s.deleteSelectedMetadata o).uploadReservations,
        r ∈ s.uploadReservations ∧ r.versionId ∉ s.plannedIds o.id := by
  obtain ⟨hframe, hversions, hreservations⟩ :=
    foldl_deleteVersionMetadata_spec s (s.plannedIds o.id)
  unfold deleteSelectedMetadata Removes
  by_cases hreason : o.reason = .objectDelete
  · obtain ⟨hframe', hversions', hreservations'⟩ :=
      deleteAbortedTarget_spec ((s.plannedIds o.id).foldl deleteVersionMetadata s) o
    simp only [if_pos hreason]
    refine ⟨hframe.trans hframe', fun v => ?_, fun r hr => ?_⟩
    · refine (hversions' v).trans ?_
      rw [hversions v, and_assoc, not_or, not_and]
      simp [hreason]
    · exact (hreservations r).mp (hreservations' r hr)
  · simp only [if_neg hreason]
    refine ⟨hframe, fun v => ?_, fun r hr => (hreservations r).mp hr⟩
    refine (hversions v).trans ?_
    simp [hreason]

/-- The identifier of a version that finishing `o` removes. -/
def RemovesId (s : Repository) (o : DeletionOperationRow) (id : String) : Prop :=
  id ∈ s.plannedIds o.id ∨
    (o.reason = .objectDelete ∧ ∃ v ∈ s.objectVersions, AbortedTarget o v ∧ v.id = id)

theorem deleteSelectedMetadata_reservations (s : Repository) (o : DeletionOperationRow)
    (r : UploadReservationRow) :
    r ∈ (s.deleteSelectedMetadata o).uploadReservations ↔
      r ∈ s.uploadReservations ∧ ¬s.RemovesId o r.versionId := by
  obtain ⟨-, hversions, hreservations⟩ := foldl_deleteVersionMetadata_spec s (s.plannedIds o.id)
  unfold deleteSelectedMetadata RemovesId
  by_cases hreason : o.reason = .objectDelete
  · simp only [hreason, true_and, not_or]
    refine (Table.mem_erase (t := ((s.plannedIds o.id).foldl deleteVersionMetadata
      s).uploadReservations)).trans ?_
    rw [hreservations r, and_assoc]
    refine and_congr_right fun _ => and_congr_right fun hplanned => not_congr ?_
    constructor
    · rintro ⟨v, hv, haborted, hid⟩
      exact ⟨v, ((hversions v).mp hv).1, haborted, hid⟩
    · rintro ⟨v, hv, haborted, hid⟩
      exact ⟨v, (hversions v).mpr ⟨hv, hid ▸ hplanned⟩, haborted, hid⟩
  · simp only [hreason, false_and, or_false]
    exact hreservations r

theorem completeOperation_spec {s : Repository} {o : DeletionOperationRow}
    (ho : o ∈ s.deletionOperations) (hpending : o.complete = false) (completedAtMs : ℕ) :
    ∃ operations,
      s.completeOperation o.id completedAtMs = { s with deletionOperations := operations } ∧
      s.deletionOperations.Replaced operations o
        { o with complete := true, completedAtMs := some completedAtMs } :=
  ⟨_, rfl, Table.replaced_update ho
    (Table.guard_iff_eq (q := fun x => x.complete = false) ho hpending)⟩

theorem completeRun_spec (s : Repository) (o : DeletionOperationRow) (completedAtMs : ℕ) :
    ∃ runs, s.completeRun o completedAtMs = { s with retentionRuns := runs } := by
  unfold completeRun
  by_cases hreason : o.reason = .retention
  · exact ⟨_, if_pos hreason⟩
  · exact ⟨s.retentionRuns, if_neg hreason⟩

/-- `s'` is `s` after the pending operation `o` was finished. -/
structure Finished (s s' : Repository) (o : DeletionOperationRow) (completedAtMs : ℕ) : Prop where
  pending : o.complete = false
  operation : s.deletionOperations.Replaced s'.deletionOperations o
    { o with complete := true, completedAtMs := some completedAtMs }
  items : s'.deletionItems = s.deletionItems
  versions : ∀ v, v ∈ s'.objectVersions ↔ v ∈ s.objectVersions ∧ ¬s.Removes o v
  reservations : ∀ r ∈ s'.uploadReservations,
    r ∈ s.uploadReservations ∧ r.versionId ∉ s.plannedIds o.id

/-- Finishing an operation that is already complete changes nothing; finishing a pending one
removes the versions it names (and, for a user deletion, the aborted versions of its target)
and marks it complete. -/
theorem finishDeletion_cases {s s' : Repository} {operationId : String} {completedAtMs : ℕ}
    {event : NewAuditEvent} (h : s.finishDeletion operationId completedAtMs event = .ok s') :
    (s' = s ∧ ∃ o ∈ s.deletionOperations, o.id = operationId ∧ o.complete = true) ∨
      ∃ o, o.id = operationId ∧ Finished s s' o completedAtMs := by
  simp only [finishDeletion, bind_eq_ok, requireRow_eq_ok, Table.find?_eq_some] at h
  obtain ⟨-, -, -, -, o, ⟨ho, rfl⟩, h⟩ := h
  cases hcomplete : o.complete with
  | true =>
    rw [if_pos hcomplete, pure_eq_ok] at h
    exact Or.inl ⟨h.symm, o, ho, rfl, hcomplete⟩
  | false =>
    rw [if_neg (by simp [hcomplete]), bind_eq_ok] at h
    obtain ⟨-, -, h⟩ := h
    obtain ⟨hframe, hversions, hreservations⟩ := deleteSelectedMetadata_spec s o
    generalize s.deleteSelectedMetadata o = s₁ at h hframe hversions hreservations
    obtain ⟨_, _, _, _, _, _, _, rfl⟩ := hframe
    obtain ⟨operations, hs₂, hoperation⟩ := completeOperation_spec ho hcomplete completedAtMs
    obtain ⟨auditEvents, rfl⟩ := insertAudit_spec h
    obtain ⟨runs, hruns⟩ := completeRun_spec _ o completedAtMs
    rw [hruns]
    exact Or.inr ⟨o, rfl, hcomplete, (congrArg deletionOperations hs₂) ▸ hoperation, rfl,
      hversions, hreservations⟩

/-- The versions and reservations after finishing a pending operation. -/
theorem finishDeletion_rows {s s' : Repository} {operationId : String} {completedAtMs : ℕ}
    {event : NewAuditEvent} (h : s.finishDeletion operationId completedAtMs event = .ok s') :
    s' = s ∨ ∃ o, (∀ v, v ∈ s'.objectVersions ↔ v ∈ s.objectVersions ∧ ¬s.Removes o v) ∧
      ∀ r, r ∈ s'.uploadReservations ↔
        r ∈ s.uploadReservations ∧ ¬s.RemovesId o r.versionId := by
  simp only [finishDeletion, bind_eq_ok, requireRow_eq_ok] at h
  obtain ⟨-, -, -, -, o, -, h⟩ := h
  split at h
  · exact Or.inl (pure_eq_ok.mp h).symm
  · simp only [bind_eq_ok] at h
    obtain ⟨-, -, h⟩ := h
    obtain ⟨auditEvents, rfl⟩ := insertAudit_spec h
    obtain ⟨runs, hruns⟩ := completeRun_spec
      ((s.deleteSelectedMetadata o).completeOperation operationId completedAtMs) o completedAtMs
    rw [hruns]
    exact Or.inr ⟨o, (deleteSelectedMetadata_spec s o).2.1, deleteSelectedMetadata_reservations s o⟩

theorem finishDeletion_spec {s s' : Repository} {operationId : String} {completedAtMs : ℕ}
    {event : NewAuditEvent} (h : s.finishDeletion operationId completedAtMs event = .ok s') :
    s' = s ∨ ∃ o, o.id = operationId ∧ Finished s s' o completedAtMs :=
  (finishDeletion_cases h).imp_left And.left

end Repository

end BlobYard
