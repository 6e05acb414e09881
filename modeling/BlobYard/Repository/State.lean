/-
The metadata repository: one table for each table of the schema.

A repository operation is a function from the repository to
`Except RepositoryError (α × Repository)`; an error stands for a rolled-back
transaction, so it carries no repository.  Every table enforces its primary key by
construction; the other constraints of the schema (`UNIQUE`, `CHECK`, `REFERENCES`)
are checked where a statement could violate them, with the `Conflict` that the
adapter's `map_error` makes of a constraint violation.
-/
import BlobYard.Lib.Table
import BlobYard.Contract.CiRecords
import BlobYard.Contract.YardRecords

namespace BlobYard

open Outcome

/-- The tables of the metadata schema. -/
structure Repository where
  workspaces : Table WorkspaceRecord.id
  projects : Table ProjectRecord.id
  bootstrapAuthority : Option BootstrapAuthority
  apiTokens : Table LocalApiTokenRecord.id
  cliSessions : Table LocalCliSessionRecord.id
  ciTrusts : Table LocalCiTrustRecord.id
  machineSessions : Table fun row : MachineSessionRow => row.session.id
  objectVersions : Table ObjectVersionRecord.id
  uploadReservations : Table UploadReservationRow.id
  uploadParts : Table fun part : UploadPartRow => (part.uploadId, part.partNumber)
  downloadGrants : Table NewDownloadGrant.capabilityHash
  deletionOperations : Table DeletionOperationRow.id
  deletionItems : Table fun row : DeletionItemRow => (row.operationId, row.item.versionId)
  retentionPolicies : Table fun row : RetentionPolicyRow => row.policy.projectId
  retentionRuns : Table RetentionRunRecord.id
  auditEvents : Table AuditEventRecord.sequence
  shares : Table fun row : ShareRow => row.share.id
  inboxes : Table fun row : InboxRow => row.inbox.id
  inboxUploads : Table InboxUploadRow.uploadId
  webYards : Table WebYardRecord.id
  yardDeploys : Table YardDeployRow.id
  yardDeployFiles : Table fun file : YardDeployFileRow => (file.deployId, file.normalizedPath)
  yardEnvironments : Table YardEnvironmentRecord.id
  yardAccessPolicies : Table YardAccessPolicyRecord.yardId
  yardAccessGrants : Table YardAccessGrantRecord.id
  yardManagementRoles :
    Table fun assignment : YardManagementRoleAssignment => (assignment.yardId, assignment.userId)
  yardApplicationPolicies : Table YardApplicationPolicyRecord.yardId
  localUsers : Table LocalUserRecord.id
  localUserLoginKeys : Table LocalUserLoginKeyRecord.id
  workspaceGroups : Table WorkspaceGroupRecord.id
  workspaceGroupMembers :
    Table fun member : WorkspaceGroupMemberRecord => (member.groupId, member.userId)
  yardSubjects : Table YardSubjectRecord.id
  yardGuestInvitations : Table YardGuestInvitationRow.id
  yardGuestLoginKeys : Table YardGuestLoginKeyRecord.id
  yardContinuations : Table fun row : YardContinuationRecord => row.continuation.id
  yardSessions : Table YardSessionRecord.id

namespace Repository

/-- A freshly migrated repository. -/
def empty : Repository where
  workspaces := ∅
  projects := ∅
  bootstrapAuthority := none
  apiTokens := ∅
  cliSessions := ∅
  ciTrusts := ∅
  machineSessions := ∅
  objectVersions := ∅
  uploadReservations := ∅
  uploadParts := ∅
  downloadGrants := ∅
  deletionOperations := ∅
  deletionItems := ∅
  retentionPolicies := ∅
  retentionRuns := ∅
  auditEvents := ∅
  shares := ∅
  inboxes := ∅
  inboxUploads := ∅
  webYards := ∅
  yardDeploys := ∅
  yardDeployFiles := ∅
  yardEnvironments := ∅
  yardAccessPolicies := ∅
  yardAccessGrants := ∅
  yardManagementRoles := ∅
  yardApplicationPolicies := ∅
  localUsers := ∅
  localUserLoginKeys := ∅
  workspaceGroups := ∅
  workspaceGroupMembers := ∅
  yardSubjects := ∅
  yardGuestInvitations := ∅
  yardGuestLoginKeys := ∅
  yardContinuations := ∅
  yardSessions := ∅

end Repository

/-- An `INSERT`: a taken primary key is a constraint violation. -/
def insertRow {ρ κ : Type} [DecidableEq κ] {key : ρ → κ} (t : Table key) (r : ρ) :
    Except RepositoryError (Table key) :=
  ofOption .conflict (t.insert? r)

/-- The row a query must return. -/
def requireRow {ρ : Type} (row : Option ρ) : Except RepositoryError ρ :=
  ofOption .notFound row

/-- `changed_once`: an update that must have changed exactly one row. -/
def changedOnce (changed : ℕ) : Except RepositoryError Unit :=
  ensure (changed = 1) .conflict

@[simp] theorem insertRow_eq_ok {ρ κ : Type} [DecidableEq κ] {key : ρ → κ} {t t' : Table key}
    {r : ρ} : insertRow t r = .ok t' ↔ t.insert? r = some t' := by
  simp [insertRow]

@[simp] theorem requireRow_eq_ok {ρ : Type} {row : Option ρ} {r : ρ} :
    requireRow row = .ok r ↔ row = some r := by
  simp [requireRow]

@[simp] theorem changedOnce_eq_ok {changed : ℕ} {u : Unit} :
    changedOnce changed = .ok u ↔ changed = 1 := by
  simp [changedOnce]

/-! ### Workspaces and projects -/

/-- `validate_record`. -/
def validateRecord (id name : String) : Except RepositoryError Unit := do
  validateText id
  validateText name

namespace Repository

def createWorkspace (s : Repository) (workspace : WorkspaceRecord) :
    Except RepositoryError Repository := do
  validateRecord workspace.id workspace.name
  ensure (∀ w ∈ s.workspaces, w.slug ≠ workspace.slug) .conflict
  let workspaces ← insertRow s.workspaces workspace
  return { s with workspaces }

def createProject (s : Repository) (project : ProjectRecord) :
    Except RepositoryError Repository := do
  validateRecord project.id project.name
  validateText project.workspaceId
  ensure (∃ w ∈ s.workspaces, w.id = project.workspaceId) .conflict
  ensure (∀ p ∈ s.projects, ¬(p.workspaceId = project.workspaceId ∧ p.slug = project.slug))
    .conflict
  let projects ← insertRow s.projects project
  return { s with projects }

/-! ### Audit events -/

/-- `lifecycle_audit::validate`. -/
def validateAuditEvent (event : NewAuditEvent) : Except RepositoryError Unit := do
  validateTexts [event.id, event.workspaceId, event.actor, event.action, event.requestId,
    event.targetType]
  validateTexts (event.metadata.map Prod.fst)
  ensure (event.metadata.map Prod.fst).Nodup .invalidInput
  forM event.metadata fun entry =>
    match entry.2 with
    | .string text => validateText text
    | _ => .ok ()

/-- The next value of the autoincremented `sequence` column; rows are never deleted. -/
def nextAuditSequence (s : Repository) : ℕ :=
  s.auditEvents.rows.foldl (fun n row => max n row.sequence) 0 + 1

/-- `lifecycle_audit::insert`. -/
def insertAudit (s : Repository) (event : NewAuditEvent) :
    Except RepositoryError Repository := do
  validateAuditEvent event
  toI64 event.createdAtMs
  ensure (∀ row ∈ s.auditEvents, row.event.id ≠ event.id) .conflict
  ensure (∃ w ∈ s.workspaces, w.id = event.workspaceId) .conflict
  let auditEvents ← insertRow s.auditEvents { sequence := s.nextAuditSequence, event }
  return { s with auditEvents }

/-- An audit event changes nothing but the audit table. -/
theorem insertAudit_spec {s s' : Repository} {event : NewAuditEvent}
    (h : s.insertAudit event = .ok s') : ∃ auditEvents, s' = { s with auditEvents } := by
  simp only [insertAudit, bind_eq_ok, pure_eq_ok] at h
  obtain ⟨-, -, -, -, -, -, -, -, auditEvents, -, rfl⟩ := h
  exact ⟨auditEvents, rfl⟩

/-- The audit table `t'` is `t` with the one event appended. -/
def Audited (t t' : Table AuditEventRecord.sequence) (event : NewAuditEvent) : Prop :=
  ∃ sequence, t'.rows = t.rows ++ [AuditEventRecord.mk sequence event]

theorem insertAudit_audited {s s' : Repository} {event : NewAuditEvent}
    (h : s.insertAudit event = .ok s') : Audited s.auditEvents s'.auditEvents event := by
  simp only [insertAudit, bind_eq_ok, pure_eq_ok, insertRow_eq_ok] at h
  obtain ⟨-, -, -, -, -, -, -, -, auditEvents, hinsert, rfl⟩ := h
  exact ⟨_, (Table.insert?_eq_some.mp hinsert).2⟩

end Repository

end BlobYard
