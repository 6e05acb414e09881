/-
Shares: public capabilities for one object version.

A share counts the download grants it has given out.  Looking the share up, inserting the grant,
counting it and the audit event are one transaction, so that a grant and its count stand or fall
together.

* `createShare_spec`, `revokeShare_spec` — opening and closing a share;
* `issueShareDownload_spec` — a grant is inserted and counted.
-/
import BlobYard.Repository.Lifecycle

namespace BlobYard

open Outcome

/-- One active public share and its immutable object metadata. -/
structure ShareTarget where
  share : ShareRecord
  object : StoredObjectRecord
  deriving DecidableEq

/-- The checks of the table `shares`. -/
def ShareChecks (share : ShareRecord) : Prop :=
  share.createdAtMs < share.expiresAtMs ∧
    (share.status = .revoked ∧ (∃ revokedAtMs ∈ share.revokedAtMs, share.createdAtMs ≤ revokedAtMs) ∨
      share.status ≠ .revoked ∧ share.revokedAtMs = none) ∧
    (∀ maximum ∈ share.maximumDownloads, share.consumedCount ≤ maximum) ∧
    (share.status = .exhausted → ∀ maximum ∈ share.maximumDownloads,
      share.consumedCount = maximum)

instance : DecidablePred ShareChecks := fun _ => inferInstanceAs (Decidable (_ ∧ _ ∧ _ ∧ _))

namespace Repository

/-! ### Validation and queries -/

/-- `validate_new_share`. -/
def validateNewShare (share : NewShare) : Except RepositoryError Unit := do
  validateTexts [share.id, share.workspaceId, share.versionId]
  validateHash share.capabilityHash
  toI64 share.expiresAtMs
  forM share.maximumDownloads.toList toI64
  toI64 share.createdAtMs
  ensure (share.createdAtMs < share.expiresAtMs ∧ share.maximumDownloads ≠ some 0) .invalidInput

/-- `sharing::validate_grant`. -/
def validateShareGrant (grant : NewDownloadGrant) (nowMs : ℕ) : Except RepositoryError Unit := do
  validateText grant.versionId
  validateHash grant.capabilityHash
  ensure (nowMs < grant.expiresAtMs) .invalidInput

/-- `sharing::validate_event`. -/
def validateShareEvent (event : NewAuditEvent) (action shareId workspaceId : String)
    (createdAtMs : ℕ) : Except RepositoryError Unit :=
  ensure (event.action = action ∧ event.targetType = "share" ∧
    event.workspaceId = workspaceId ∧ event.createdAtMs = createdAtMs ∧
    event.metadata = [("shareId", .string shareId)]) .invalidInput

/-- `share_by_id`. -/
def shareById (s : Repository) (shareId : String) : Except RepositoryError ShareRecord :=
  ShareRow.share <$> requireRow (s.shares.find? shareId)

/-- `target_by_capability`: a live share with the complete version behind it; a share that is
exhausted can still be looked at. -/
def shareTargetByCapability (s : Repository) (capabilityHash : String) (nowMs : ℕ)
    (requireDownload : Bool) : Except RepositoryError ShareTarget := do
  let row ← requireRow (s.shares.select fun row =>
    row.capabilityHash = capabilityHash ∧ nowMs < row.share.expiresAtMs ∧
      (row.share.status = .active ∨
        requireDownload = false ∧ row.share.status = .exhausted)).head?
  let versionId ← requireRow row.share.versionId
  let version ← requireRow ((s.objectVersions.find? versionId).filter fun v => v.state = .complete)
  let reservation ← requireRow
    (s.uploadReservations.select fun r => r.versionId = version.id).head?
  return {
    share := row.share
    object :=
      { version, filename := reservation.filename, contentType := reservation.contentType } }

/-- An `UPDATE` of shares: how many rows it changed, and the repository afterwards. -/
def updateShares (s : Repository) (p : ShareRow → Prop) [DecidablePred p]
    (change : ShareRecord → ShareRecord)
    (hid : ∀ share, (change share).id = share.id := by intro _; rfl) :
    Except RepositoryError (ℕ × Repository) := do
  ensure (∀ row ∈ s.shares, p row → ShareChecks (change row.share)) .conflict
  return (s.shares.count p,
    { s with
      shares := s.shares.update p (fun row => { row with share := change row.share })
        fun row => hid row.share })

/-! ### The operations -/

/-- A new share. -/
def newShareRow (share : NewShare) : ShareRow where
  share :=
    { id := share.id, workspaceId := share.workspaceId, versionId := some share.versionId
      expiresAtMs := share.expiresAtMs, status := .active, consumedCount := 0
      maximumDownloads := share.maximumDownloads, createdAtMs := share.createdAtMs
      revokedAtMs := none }
  capabilityHash := share.capabilityHash

def createShare (s : Repository) (share : NewShare) (event : NewAuditEvent) :
    Except RepositoryError (ShareRecord × Repository) := do
  validateNewShare share
  validateShareEvent event "share.created" share.id share.workspaceId share.createdAtMs
  ensure (∃ v ∈ s.objectVersions, v.id = share.versionId ∧ v.state = .complete ∧
    ∃ p ∈ s.projects, p.id = v.projectId ∧ p.workspaceId = share.workspaceId) .notFound
  ensure (∀ row ∈ s.shares, row.capabilityHash ≠ share.capabilityHash) .conflict
  let shares ← insertRow s.shares (newShareRow share)
  let s ← insertAudit { s with shares } event
  let share ← s.shareById share.id
  return (share, s)

/-- A share after one more download. -/
def countDownload (share : ShareRecord) : ShareRecord :=
  { share with
    consumedCount := share.consumedCount + 1
    status := if share.maximumDownloads = some (share.consumedCount + 1) then .exhausted
      else .active }

def issueShareDownload (s : Repository) (capabilityHash : String) (nowMs : ℕ)
    (grant : NewDownloadGrant) (event : NewAuditEvent) :
    Except RepositoryError (ShareTarget × Repository) := do
  validateHash capabilityHash
  toI64 nowMs
  validateShareGrant grant nowMs
  let target ← s.shareTargetByCapability capabilityHash nowMs true
  toI64 grant.expiresAtMs
  ensure (grant.versionId = target.object.version.id ∧
    grant.expiresAtMs ≤ target.share.expiresAtMs) .invalidInput
  validateShareEvent event "share.download_issued" target.share.id target.share.workspaceId nowMs
  let downloadGrants ← insertRow s.downloadGrants grant
  let (changed, s) ← updateShares { s with downloadGrants }
    (fun row => row.share.id = target.share.id ∧ row.share.status = .active ∧
      row.share.consumedCount < i64Max) countDownload
  ensure (changed = 1) .invalidInput
  let s ← s.insertAudit event
  let share ← s.shareById target.share.id
  return ({ target with share }, s)

def revokeShare (s : Repository) (shareId workspaceId : String) (revokedAtMs : ℕ)
    (event : NewAuditEvent) : Except RepositoryError (Bool × Repository) := do
  validateText shareId
  validateText workspaceId
  let share ← s.shareById shareId
  ensure (share.workspaceId = workspaceId) .notFound
  if share.status = .revoked then return (false, s)
  else
    validateShareEvent event "share.revoked" share.id share.workspaceId revokedAtMs
    toI64 revokedAtMs
    let (changed, s) ← s.updateShares
      (fun row => row.share.id = shareId ∧ row.share.workspaceId = workspaceId ∧
        row.share.status ≠ .revoked)
      fun share => { share with status := .revoked, revokedAtMs := some revokedAtMs }
    changedOnce changed
    let s ← s.insertAudit event
    return (true, s)

/-! ### What the operations do -/

variable {s s' : Repository}

theorem shareById_eq_ok {shareId : String} {share : ShareRecord} :
    s.shareById shareId = .ok share ↔ ∃ row ∈ s.shares, row.share.id = shareId ∧ row.share = share := by
  simp only [shareById, map_eq_ok, requireRow_eq_ok, Table.find?_eq_some, and_assoc]

/-- The share, the version and the reservation behind a capability. -/
theorem shareTargetByCapability_spec {capabilityHash : String} {nowMs : ℕ} {requireDownload : Bool}
    {target : ShareTarget}
    (h : s.shareTargetByCapability capabilityHash nowMs requireDownload = .ok target) :
    (∃ row ∈ s.shares, row.share = target.share ∧ row.capabilityHash = capabilityHash ∧
      nowMs < row.share.expiresAtMs ∧
      (row.share.status = .active ∨ requireDownload = false ∧ row.share.status = .exhausted) ∧
      row.share.versionId = some target.object.version.id) ∧
    target.object.version ∈ s.objectVersions ∧ target.object.version.state = .complete := by
  simp only [shareTargetByCapability, bind_eq_ok, pure_eq_ok, requireRow_eq_ok,
    Option.filter_eq_some_iff, Table.find?_eq_some, decide_eq_true_eq] at h
  obtain ⟨row, hrow, versionId, hversionId, version, ⟨⟨hversion, rfl⟩, hstate⟩, _, -, rfl⟩ := h
  obtain ⟨hmem, hcapability, hexpires, hstatus⟩ := Table.mem_select.mp (List.mem_of_head? hrow)
  exact ⟨⟨row, hmem, rfl, hcapability, hexpires, hstatus, hversionId⟩, hversion, hstate⟩

/-- An update that changed the one row with this identifier. -/
theorem updateShares_spec {p : ShareRow → Prop} [DecidablePred p]
    {change : ShareRecord → ShareRecord} {hid : ∀ share, (change share).id = share.id} {changed : ℕ}
    {shareId : String} (h : s.updateShares p change hid = .ok (changed, s')) (hone : changed = 1)
    (hp : ∀ row, p row → row.share.id = shareId) :
    ∃ row ∈ s.shares, p row ∧ ∃ shares, s' = { s with shares } ∧
      s.shares.Replaced shares row { row with share := change row.share } := by
  simp only [updateShares, bind_eq_ok, pure_eq_ok, Prod.mk.injEq] at h
  obtain ⟨-, -, rfl, rfl⟩ := h
  obtain ⟨row, hrow, hpr⟩ := Table.exists_of_count_eq_one hone
  refine ⟨row, hrow, hpr, _, rfl,
    Table.replaced_update hrow (fun x hx => ?_) fun row => hid row.share⟩
  constructor
  · intro hpx
    exact Table.eq_of_key hx hrow ((hp x hpx).trans (hp row hpr).symm)
  · rintro rfl
    exact hpr

theorem createShare_spec {share : NewShare} {event : NewAuditEvent} {result : ShareRecord}
    (h : s.createShare share event = .ok (result, s')) :
    share.maximumDownloads ≠ some 0 ∧ ∃ shares auditEvents, s' = { s with shares, auditEvents } ∧
      s.shares.Inserted shares (newShareRow share) := by
  simp only [createShare, bind_eq_ok, pure_eq_ok, insertRow_eq_ok, Prod.mk.injEq,
    validateNewShare, ensure_eq_ok] at h
  obtain ⟨-, ⟨-, -, -, -, -, -, -, -, -, -, -, hmaximum⟩, -, -, -, -, -, -, shares, hinsert, s₁,
    haudit, -, -, -, rfl⟩ := h
  obtain ⟨auditEvents, rfl⟩ := insertAudit_spec haudit
  exact ⟨hmaximum, shares, auditEvents, rfl, Table.inserted_of_insert hinsert⟩

/-- An issued grant: the share was live, its version complete, and the grant inserted and
counted. -/
structure Issued (s s' : Repository) (row : ShareRow) (version : ObjectVersionRecord)
    (grant : NewDownloadGrant) (event : NewAuditEvent) (nowMs : ℕ) : Prop where
  active : row.share.status = .active
  unexpired : nowMs < row.share.expiresAtMs
  within : grant.expiresAtMs ≤ row.share.expiresAtMs
  present : version ∈ s.objectVersions ∧ version.state = .complete
  denotes : row.share.versionId = some version.id ∧ grant.versionId = version.id
  grants : s.downloadGrants.Inserted s'.downloadGrants grant
  counted : s.shares.Replaced s'.shares row { row with share := countDownload row.share }
  audited : Audited s.auditEvents s'.auditEvents event

theorem issueShareDownload_spec {capabilityHash : String} {nowMs : ℕ} {grant : NewDownloadGrant}
    {event : NewAuditEvent} {target : ShareTarget}
    (h : s.issueShareDownload capabilityHash nowMs grant event = .ok (target, s')) :
    ∃ row, row.capabilityHash = capabilityHash ∧ row.share.id = target.share.id ∧
      Issued s s' row target.object.version grant event nowMs ∧
      ∃ downloadGrants shares auditEvents,
        s' = { s with downloadGrants, shares, auditEvents } := by
  simp only [issueShareDownload, bind_eq_ok, pure_eq_ok, insertRow_eq_ok, ensure_eq_ok,
    Prod.mk.injEq] at h
  obtain ⟨-, -, -, -, -, -, found, hfound, -, -, -, ⟨hversionId, hwithin⟩, -, -, grants, hgrant,
    ⟨changed, s₁⟩, hupdate, -, hchanged, s₂, haudit, share, hshare, rfl, rfl⟩ := h
  obtain ⟨⟨row, hrow, hsame, hcapability, hexpires, hstatus, hdenotes⟩, hversion, hstate⟩ :=
    shareTargetByCapability_spec hfound
  have hactive : row.share.status = .active := by simpa using hstatus
  obtain ⟨counted, hcounted, ⟨hid, -, -⟩, shares, rfl, hreplaced⟩ :=
    updateShares_spec hupdate hchanged fun _ hp => hp.1
  obtain rfl := Table.eq_of_key hcounted hrow (hid.trans (congrArg ShareRecord.id hsame).symm)
  have haudited := insertAudit_audited haudit
  obtain ⟨auditEvents, rfl⟩ := insertAudit_spec haudit
  obtain ⟨row', -, hid', rfl⟩ := shareById_eq_ok.mp hshare
  refine ⟨counted, hcapability, hid.trans hid'.symm, ?_, grants, shares, auditEvents, rfl⟩
  exact
    { active := hactive
      unexpired := hexpires
      within := hsame ▸ hwithin
      present := ⟨hversion, hstate⟩
      denotes := ⟨hdenotes, hversionId⟩
      grants := Table.inserted_of_insert hgrant
      counted := hreplaced
      audited := haudited }

theorem revokeShare_spec {shareId workspaceId : String} {revokedAtMs : ℕ} {event : NewAuditEvent}
    {revoked : Bool} (h : s.revokeShare shareId workspaceId revokedAtMs event = .ok (revoked, s')) :
    s' = s ∨ ∃ row shares auditEvents, s' = { s with shares, auditEvents } ∧
      row.share.status ≠ .revoked ∧ s.shares.Replaced shares row
        { row with
          share := { row.share with status := .revoked, revokedAtMs := some revokedAtMs } } := by
  simp only [revokeShare, bind_eq_ok] at h
  obtain ⟨-, -, -, -, share, -, -, -, h⟩ := h
  split at h
  · simp only [pure_eq_ok, Prod.mk.injEq] at h
    exact Or.inl h.2.symm
  · simp only [bind_eq_ok, pure_eq_ok, Prod.mk.injEq, changedOnce_eq_ok] at h
    obtain ⟨-, -, -, -, ⟨changed, s₁⟩, hupdate, -, hchanged, s₂, haudit, -, rfl⟩ := h
    obtain ⟨row, -, ⟨-, -, hstatus⟩, shares, rfl, hreplaced⟩ :=
      updateShares_spec hupdate hchanged fun _ hp => hp.1
    obtain ⟨auditEvents, rfl⟩ := insertAudit_spec haudit
    exact Or.inr ⟨row, shares, auditEvents, rfl, hstatus, hreplaced⟩

end Repository

end BlobYard
