/-
The requests that move uploads and the requests that plan and finish deletions.

A request is a repository operation with its arguments.  The laws about object
versions need little of what a request does, and this file says that once:

* `UploadRequest.versionChange` — an upload request leaves the versions alone, or
  reserves one, or moves one pending version to its terminal state;
* `DeletionRequest.planChange` — a deletion request leaves plans and versions alone, or
  adds one plan, or finishes one.
-/
import BlobYard.Repository.Inboxes
import BlobYard.Repository.YardCleanup

namespace BlobYard

open Outcome

/-- The requests that create, move or close uploads and inboxes. -/
inductive UploadRequest where
  | createWorkspace (workspace : WorkspaceRecord)
  | createProject (project : ProjectRecord)
  | createInbox (inbox : NewInbox) (event : NewAuditEvent)
  | revokeInbox (inboxId workspaceId : String) (revokedAtMs : ℕ) (event : NewAuditEvent)
  | reserveUpload (value : NewUploadReservation)
  | renewUpload (id : String) (expiresAtMs : ℕ)
  | recordUploadedBytes (id : String) (size : ℕ) (checksum : String)
  | completeUpload (id : String)
  | abortUpload (id : String)
  | reserveInboxUpload (upload : NewInboxUpload) (value : NewUploadReservation)
  | completeInboxUpload (capabilityHash uploadId : String) (nowMs : ℕ) (event : NewAuditEvent)
  | abortInboxUpload (capabilityHash uploadId : String) (nowMs : ℕ)

/-- What a request does to the repository, with the version it completed, if any. -/
def UploadRequest.run (s : Repository) :
    UploadRequest → Except RepositoryError (Option ObjectVersionRecord × Repository)
  | .createWorkspace workspace => Prod.mk none <$> s.createWorkspace workspace
  | .createProject project => Prod.mk none <$> s.createProject project
  | .createInbox inbox event => (fun r => (none, r.2)) <$> s.createInbox inbox event
  | .revokeInbox inboxId workspaceId revokedAtMs event =>
    (fun r => (none, r.2)) <$> s.revokeInbox inboxId workspaceId revokedAtMs event
  | .reserveUpload value => (fun r => (none, r.2)) <$> s.reserveUpload value
  | .renewUpload id expiresAtMs => Prod.mk none <$> s.renewUpload id expiresAtMs
  | .recordUploadedBytes id size checksum =>
    Prod.mk none <$> s.recordUploadedBytes id size checksum
  | .completeUpload id => (fun r => (some r.1, r.2)) <$> s.completeUpload id
  | .abortUpload id => (fun r => (none, r.2)) <$> s.abortUpload id
  | .reserveInboxUpload upload value =>
    (fun r => (none, r.2)) <$> s.reserveInboxUpload upload value
  | .completeInboxUpload capabilityHash uploadId nowMs event =>
    (fun r => (some r.1, r.2)) <$> s.completeInboxUpload capabilityHash uploadId nowMs event
  | .abortInboxUpload capabilityHash uploadId nowMs =>
    (fun r => (none, r.2)) <$> s.abortInboxUpload capabilityHash uploadId nowMs

/-- The requests that set retention, plan deletions and finish them. -/
inductive DeletionRequest where
  | setRetention (policy : RetentionPolicyRecord) (event : NewAuditEvent)
  | clearRetention (projectId : String) (updatedAtMs : ℕ) (event : NewAuditEvent)
  | beginObjectDeletion (value : NewObjectDeletion)
  | beginRetention (projectId runId actor requestId : String) (startedAtMs : ℕ)
  | failRetention (runId : String) (completedAtMs : ℕ)
  | planYardCleanup (deployId : String) (createdAtMs : ℕ)
  | finishDeletion (operationId : String) (completedAtMs : ℕ) (event : NewAuditEvent)

def DeletionRequest.run (s : Repository) : DeletionRequest → Except RepositoryError Repository
  | .setRetention policy event => s.setRetention policy event
  | .clearRetention projectId updatedAtMs event =>
    Prod.snd <$> s.clearRetention projectId updatedAtMs event
  | .beginObjectDeletion value => Prod.snd <$> s.beginObjectDeletion value
  | .beginRetention projectId runId actor requestId startedAtMs =>
    Prod.snd <$> s.beginRetention projectId runId actor requestId startedAtMs
  | .failRetention runId completedAtMs => s.failRetention runId completedAtMs
  | .planYardCleanup deployId createdAtMs => s.planYardCleanup deployId createdAtMs
  | .finishDeletion operationId completedAtMs event =>
    s.finishDeletion operationId completedAtMs event

/-! ### What an upload request does to the versions -/

/-- The tables a plan is recorded in are the same. -/
def SamePlans (s s' : Repository) : Prop :=
  s'.deletionOperations = s.deletionOperations ∧ s'.deletionItems = s.deletionItems

/-- The four things that an upload request can do to the object versions. -/
inductive VersionChange (s s' : Repository) : Option ObjectVersionRecord → Prop
  | quiet : s'.objectVersions = s.objectVersions → VersionChange s s' none
  | reserved {value : NewUploadReservation} {version : ℕ} :
    s.nextVersion value.projectId value.objectPath = .ok version →
    s.objectVersions.Inserted s'.objectVersions (Repository.reservedVersion value version) →
    VersionChange s s' none
  | completed {version : ObjectVersionRecord} {row : UploadReservationRow} :
    version.state = .pending →
    s.objectVersions.Replaced s'.objectVersions version (Repository.completedVersion version row) →
    VersionChange s s' (some (Repository.completedVersion version row))
  | aborted {version : ObjectVersionRecord} : version.state = .pending →
    s.objectVersions.Replaced s'.objectVersions version { version with state := .aborted } →
    VersionChange s s' none

theorem UploadRequest.versionChange {s s' : Repository} {request : UploadRequest}
    {completed : Option ObjectVersionRecord} (h : request.run s = .ok (completed, s')) :
    VersionChange s s' completed ∧ SamePlans s s' := by
  cases request with
  | createWorkspace workspace =>
    simp only [run, Repository.createWorkspace, map_eq_ok, bind_eq_ok, pure_eq_ok,
      Prod.mk.injEq] at h
    obtain ⟨_, ⟨-, -, -, -, _, -, rfl⟩, rfl, rfl⟩ := h
    exact ⟨.quiet rfl, rfl, rfl⟩
  | createProject project =>
    simp only [run, Repository.createProject, map_eq_ok, bind_eq_ok, pure_eq_ok,
      Prod.mk.injEq] at h
    obtain ⟨_, ⟨-, -, -, -, -, -, -, -, _, -, rfl⟩, rfl, rfl⟩ := h
    exact ⟨.quiet rfl, rfl, rfl⟩
  | createInbox inbox event =>
    simp only [run, map_eq_ok, Prod.mk.injEq] at h
    obtain ⟨_, hrun, rfl, rfl⟩ := h
    obtain ⟨_, _, _, hs', -⟩ := Repository.createInbox_spec hrun
    rw [hs']
    exact ⟨.quiet rfl, rfl, rfl⟩
  | revokeInbox inboxId workspaceId revokedAtMs event =>
    simp only [run, map_eq_ok, Prod.mk.injEq] at h
    obtain ⟨_, hrun, rfl, rfl⟩ := h
    rcases Repository.revokeInbox_spec hrun with hs' | ⟨_, _, _, hs', -⟩
    · rw [hs']
      exact ⟨.quiet rfl, rfl, rfl⟩
    · rw [hs']
      exact ⟨.quiet rfl, rfl, rfl⟩
  | reserveUpload value =>
    simp only [run, map_eq_ok, Prod.mk.injEq] at h
    obtain ⟨⟨_, _⟩, hrun, rfl, rfl⟩ := h
    obtain ⟨_, _, _, hnext, rfl, hversions, -, -⟩ := Repository.reserveUpload_spec hrun
    exact ⟨.reserved hnext hversions, rfl, rfl⟩
  | renewUpload id expiresAtMs =>
    simp only [run, map_eq_ok, Prod.mk.injEq] at h
    obtain ⟨_, hrun, rfl, rfl⟩ := h
    obtain ⟨_, _, rfl, -⟩ := Repository.renewUpload_spec hrun
    exact ⟨.quiet rfl, rfl, rfl⟩
  | recordUploadedBytes id size checksum =>
    simp only [run, map_eq_ok, Prod.mk.injEq] at h
    obtain ⟨_, hrun, rfl, rfl⟩ := h
    obtain ⟨_, _, _, rfl, -⟩ := Repository.recordUploadedBytes_spec hrun
    exact ⟨.quiet rfl, rfl, rfl⟩
  | completeUpload id =>
    simp only [run, map_eq_ok, Prod.mk.injEq] at h
    obtain ⟨⟨_, _⟩, hrun, rfl, rfl⟩ := h
    obtain ⟨_, _, _, _, rfl, -, -, -, hpending, rfl, -, hversions⟩ :=
      Repository.completeUpload_spec hrun
    exact ⟨.completed hpending hversions, rfl, rfl⟩
  | abortUpload id =>
    simp only [run, map_eq_ok, Prod.mk.injEq] at h
    obtain ⟨⟨_, _⟩, hrun, rfl, rfl⟩ := h
    obtain ⟨_, _, _, _, _, rfl, -, -, -, hpending, -, hversions⟩ := Repository.abortUpload_spec hrun
    exact ⟨.aborted hpending hversions, rfl, rfl⟩
  | reserveInboxUpload upload value =>
    simp only [run, map_eq_ok, Prod.mk.injEq] at h
    obtain ⟨⟨_, _⟩, hrun, rfl, rfl⟩ := h
    obtain ⟨_, _, _, _, _, _, rfl, hnext, -, -, -, hversions, -⟩ :=
      Repository.reserveInboxUpload_spec hrun
    exact ⟨.reserved hnext hversions, rfl, rfl⟩
  | completeInboxUpload capabilityHash uploadId nowMs event =>
    simp only [run, map_eq_ok, Prod.mk.injEq] at h
    obtain ⟨⟨_, _⟩, hrun, rfl, rfl⟩ := h
    obtain ⟨_, _, _, _, _, _, _, _, _, rfl, -, -, -, hpending, rfl, -, -, -, -, -, -, hversions, -⟩ :=
      Repository.completeInboxUpload_spec hrun
    exact ⟨.completed hpending hversions, rfl, rfl⟩
  | abortInboxUpload capabilityHash uploadId nowMs =>
    simp only [run, map_eq_ok, Prod.mk.injEq] at h
    obtain ⟨⟨_, _⟩, hrun, rfl, rfl⟩ := h
    obtain ⟨_, _, _, _, _, _, _, _, _, rfl, -, -, -, hpending, -, -, -, -, -, -, hversions, -⟩ :=
      Repository.abortInboxUpload_spec hrun
    exact ⟨.aborted hpending hversions, rfl, rfl⟩

/-! ### What a deletion request does to the plans -/

/-- A request other than the finishing of a plan leaves the versions alone. -/
theorem DeletionRequest.planChange {s s' : Repository} {request : DeletionRequest}
    (h : request.run s = .ok s') :
    (s'.objectVersions = s.objectVersions ∧
      (SamePlans s s' ∨ ∃ o versions, Repository.Planned s s' o versions)) ∨
    ∃ operationId completedAtMs event o,
      request = .finishDeletion operationId completedAtMs event ∧ o.id = operationId ∧
      Repository.Finished s s' o completedAtMs := by
  cases request with
  | setRetention policy event =>
    obtain ⟨_, _, rfl⟩ := Repository.setRetention_frame h
    exact Or.inl ⟨rfl, Or.inl ⟨rfl, rfl⟩⟩
  | clearRetention projectId updatedAtMs event =>
    obtain ⟨⟨_, _⟩, hrun, rfl⟩ := map_eq_ok.mp h
    obtain ⟨_, _, rfl⟩ := Repository.clearRetention_frame hrun
    exact Or.inl ⟨rfl, Or.inl ⟨rfl, rfl⟩⟩
  | beginObjectDeletion value =>
    simp only [run, map_eq_ok] at h
    obtain ⟨⟨_, _⟩, hrun, rfl⟩ := h
    rcases Repository.beginObjectDeletion_spec hrun with rfl | ⟨_, _, o, rfl, -, -, -, hplan⟩
    · exact Or.inl ⟨rfl, Or.inl ⟨rfl, rfl⟩⟩
    · exact Or.inl ⟨rfl, Or.inr ⟨o, _, hplan⟩⟩
  | beginRetention projectId runId actor requestId startedAtMs =>
    simp only [run, map_eq_ok] at h
    obtain ⟨⟨_, _⟩, hrun, rfl⟩ := h
    rcases Repository.beginRetention_spec hrun with
      ⟨_, rfl⟩ | ⟨_, _, _, o, versions, rfl, -, -, -, hplan⟩
    · exact Or.inl ⟨rfl, Or.inl ⟨rfl, rfl⟩⟩
    · exact Or.inl ⟨rfl, Or.inr ⟨o, versions, hplan⟩⟩
  | failRetention runId completedAtMs =>
    obtain ⟨_, rfl⟩ := Repository.failRetention_frame h
    exact Or.inl ⟨rfl, Or.inl ⟨rfl, rfl⟩⟩
  | planYardCleanup deployId createdAtMs =>
    rcases Repository.planYardCleanup_spec h with rfl | ⟨_, _, o, versions, rfl, -, hplan⟩
    · exact Or.inl ⟨rfl, Or.inl ⟨rfl, rfl⟩⟩
    · exact Or.inl ⟨rfl, Or.inr ⟨o, versions, hplan⟩⟩
  | finishDeletion operationId completedAtMs event =>
    rcases Repository.finishDeletion_spec h with rfl | ⟨o, hid, hfinished⟩
    · exact Or.inl ⟨rfl, Or.inl ⟨rfl, rfl⟩⟩
    · exact Or.inr ⟨operationId, completedAtMs, event, o, rfl, hid, hfinished⟩

end BlobYard
