/-
Inboxes: public upload scopes with capacity counters.

An inbox keeps four counters next to the reservations that they summarise: open
uploads count as reserved, completed ones as current.  The inbox operations move a
counter and the link row of an upload in one transaction.

* `createInbox_spec`, `revokeInbox_spec` — opening and closing an inbox;
* `reserveInboxUpload_spec` — a reservation takes capacity;
* `completeInboxUpload_spec`, `abortInboxUpload_spec` — it is released exactly once.
-/
import BlobYard.Repository.Lifecycle

namespace BlobYard

open Outcome

namespace Repository

/-! ### Validation and queries -/

/-- `validate_name`. -/
def validateInboxName (value : String) : Except RepositoryError Unit := do
  validateText value
  ensure (value.utf8ByteSize ≤ 128) .invalidInput

/-- `validate_new_inbox`. -/
def validateNewInbox (inbox : NewInbox) : Except RepositoryError Unit := do
  validateTexts [inbox.id, inbox.workspaceId, inbox.projectId]
  validateInboxName inbox.name
  validateHash inbox.capabilityHash
  toI64 inbox.createdAtMs
  toI64 inbox.expiresAtMs
  ensure (inbox.createdAtMs < inbox.expiresAtMs ∧ inbox.maximumFiles ≠ 0 ∧
    inbox.maximumBytes ≠ 0) .invalidInput
  toI64 inbox.maximumFiles
  toI64 inbox.maximumBytes

/-- `inboxes::validate_event`. -/
def validateInboxEvent (event : NewAuditEvent) (action inboxId workspaceId : String)
    (createdAtMs : ℕ) : Except RepositoryError Unit :=
  ensure (event.action = action ∧ event.targetType = "inbox" ∧
    event.workspaceId = workspaceId ∧ event.createdAtMs = createdAtMs ∧
    event.metadata = [("inboxId", .string inboxId)]) .invalidInput

/-- `inbox_uploads::validate_event`. -/
def validateInboxUploadEvent (event : NewAuditEvent) (inboxId : String)
    (byteSize createdAtMs : ℕ) : Except RepositoryError Unit :=
  ensure (event.action = "inbox.uploaded" ∧ event.targetType = "object_version" ∧
    event.actor = inboxId ∧ event.createdAtMs = createdAtMs ∧
    event.metadata = [("byteSize", .number byteSize), ("source", .string "inbox")]) .invalidInput

/-- The active, unexpired inbox behind a capability. -/
def activeInbox (s : Repository) (capabilityHash : String) (nowMs : ℕ) :
    Except RepositoryError InboxRow :=
  requireRow (s.inboxes.select fun row =>
    row.capabilityHash = capabilityHash ∧ row.inbox.status = .active ∧
      nowMs < row.inbox.expiresAtMs).head?

def inboxByCapability (s : Repository) (capabilityHash : String) (nowMs : ℕ) :
    Except RepositoryError InboxRecord := do
  validateHash capabilityHash
  toI64 nowMs
  let row ← s.activeInbox capabilityHash nowMs
  return row.inbox

/-- `inbox_queries::upload`: a reservation linked to a live inbox with this capability. -/
def inboxUpload (s : Repository) (capabilityHash uploadId : String) (nowMs : ℕ) :
    Except RepositoryError UploadReservationRecord := do
  ensure (∃ link ∈ s.inboxUploads, link.uploadId = uploadId ∧ ∃ row ∈ s.inboxes,
    row.inbox.id = link.inboxId ∧ row.capabilityHash = capabilityHash ∧
      row.inbox.status = .active ∧ nowMs < row.inbox.expiresAtMs) .notFound
  s.reservationById uploadId

def inboxUploadById (s : Repository) (capabilityHash uploadId : String) (nowMs : ℕ) :
    Except RepositoryError UploadReservationRecord := do
  validateHash capabilityHash
  validateText uploadId
  toI64 nowMs
  s.inboxUpload capabilityHash uploadId nowMs

/-- `validate_scope`. -/
def validateScope (inbox : InboxRecord) (value : NewUploadReservation) (nowMs : ℕ) :
    Except RepositoryError Unit :=
  ensure (inbox.status = .active ∧ inbox.projectId = value.projectId ∧ value.source = .inbox ∧
    value.createdAtMs = nowMs ∧ value.expiresAtMs ≤ inbox.expiresAtMs) .invalidInput

/-! ### Capacity -/

/-- An update of the counters of one inbox, guarded by a condition on its row. -/
def updateCapacity (s : Repository) (inboxId : String) (guard : InboxRecord → Prop)
    [DecidablePred guard] (change : InboxRecord → InboxRecord)
    (hid : ∀ inbox, (change inbox).id = inbox.id := by intro _; rfl) :
    Except RepositoryError Repository := do
  changedOnce (s.inboxes.count fun row => row.inbox.id = inboxId ∧ guard row.inbox)
  return { s with
    inboxes := s.inboxes.update (fun row => row.inbox.id = inboxId ∧ guard row.inbox)
      (fun row => { row with inbox := change row.inbox }) fun row => hid row.inbox }

def reserveCapacity (s : Repository) (inboxId : String) (size : ℕ) :
    Except RepositoryError Repository := do
  toI64 size
  s.updateCapacity inboxId
    (fun inbox => inbox.status = .active ∧
      inbox.currentFiles + inbox.reservedFiles < inbox.maximumFiles ∧
      inbox.currentBytes + inbox.reservedBytes + size ≤ inbox.maximumBytes)
    fun inbox =>
      { inbox with
        reservedFiles := inbox.reservedFiles + 1
        reservedBytes := inbox.reservedBytes + size }

def completeCapacity (s : Repository) (inboxId : String) (size : ℕ) :
    Except RepositoryError Repository := do
  toI64 size
  s.updateCapacity inboxId
    (fun inbox => 1 ≤ inbox.reservedFiles ∧ size ≤ inbox.reservedBytes)
    fun inbox =>
      { inbox with
        reservedFiles := inbox.reservedFiles - 1
        reservedBytes := inbox.reservedBytes - size
        currentFiles := inbox.currentFiles + 1
        currentBytes := inbox.currentBytes + size }

def releaseCapacity (s : Repository) (inboxId : String) (size : ℕ) :
    Except RepositoryError Repository := do
  toI64 size
  s.updateCapacity inboxId
    (fun inbox => 1 ≤ inbox.reservedFiles ∧ size ≤ inbox.reservedBytes)
    fun inbox =>
      { inbox with
        reservedFiles := inbox.reservedFiles - 1
        reservedBytes := inbox.reservedBytes - size }

/-- `transition_link`: the reserved link of an upload moves to a terminal status. -/
def transitionLink (s : Repository) (uploadId : String) (status : InboxUploadStatus) :
    Except RepositoryError Repository := do
  changedOnce (s.inboxUploads.count fun link => link.uploadId = uploadId ∧ link.status = .reserved)
  return { s with
    inboxUploads := s.inboxUploads.update
      (fun link => link.uploadId = uploadId ∧ link.status = .reserved)
      fun link => { link with status } }

/-- `reserved_inbox_id`: the inbox of a link that still holds its reservation. -/
def reservedInboxId (s : Repository) (uploadId : String) : Except RepositoryError String := do
  let link ← requireRow ((s.inboxUploads.find? uploadId).filter fun link => link.status = .reserved)
  return link.inboxId

/-- `inbox_reservation`. -/
def inboxReservation (s : Repository) (capabilityHash uploadId : String) (nowMs : ℕ) :
    Except RepositoryError UploadReservationRecord := do
  let reservation ← s.inboxUpload capabilityHash uploadId nowMs
  ensure (reservation.version.source = .inbox) .notFound
  return reservation

/-! ### The operations -/

def createInbox (s : Repository) (inbox : NewInbox) (event : NewAuditEvent) :
    Except RepositoryError (InboxRecord × Repository) := do
  validateNewInbox inbox
  validateInboxEvent event "inbox.created" inbox.id inbox.workspaceId inbox.createdAtMs
  ensure (∃ p ∈ s.projects, p.id = inbox.projectId ∧ p.workspaceId = inbox.workspaceId) .notFound
  ensure (∀ row ∈ s.inboxes, row.capabilityHash ≠ inbox.capabilityHash) .conflict
  let inboxes ← insertRow s.inboxes
    { inbox :=
        { id := inbox.id, workspaceId := inbox.workspaceId, projectId := inbox.projectId,
          name := inbox.name, expiresAtMs := inbox.expiresAtMs, status := .active,
          currentFiles := 0, currentBytes := 0, reservedFiles := 0, reservedBytes := 0,
          maximumFiles := inbox.maximumFiles, maximumBytes := inbox.maximumBytes,
          createdAtMs := inbox.createdAtMs, revokedAtMs := none }
      capabilityHash := inbox.capabilityHash }
  let s ← insertAudit { s with inboxes } event
  let row ← requireRow (s.inboxes.find? inbox.id)
  return (row.inbox, s)

def revokeInbox (s : Repository) (inboxId workspaceId : String) (revokedAtMs : ℕ)
    (event : NewAuditEvent) : Except RepositoryError (Bool × Repository) := do
  validateText inboxId
  validateText workspaceId
  let row ← requireRow (s.inboxes.find? inboxId)
  ensure (row.inbox.workspaceId = workspaceId) .notFound
  if row.inbox.status = .revoked then return (false, s)
  else
    validateInboxEvent event "inbox.revoked" row.inbox.id row.inbox.workspaceId revokedAtMs
    toI64 revokedAtMs
    ensure (row.inbox.createdAtMs ≤ revokedAtMs) .invalidInput
    let s ← s.updateCapacity inboxId
      (fun inbox => inbox.workspaceId = workspaceId ∧ inbox.status = .active)
      fun inbox => { inbox with status := .revoked, revokedAtMs := some revokedAtMs }
    let s ← s.insertAudit event
    return (true, s)

def reserveInboxUpload (s : Repository) (upload : NewInboxUpload)
    (value : NewUploadReservation) :
    Except RepositoryError (UploadReservationRecord × Repository) := do
  validateReservation value
  validateHash upload.capabilityHash
  validateHash upload.fingerprintHash
  toI64 upload.nowMs
  let row ← s.activeInbox upload.capabilityHash upload.nowMs
  validateScope row.inbox value upload.nowMs
  let s ← s.reserveCapacity row.inbox.id value.expectedSize
  s.ensureProject value.projectId
  let version ← s.nextVersion value.projectId value.objectPath
  let s ← s.insertVersion value version
  let s ← s.insertReservation value
  let inboxUploads ← insertRow s.inboxUploads
    { uploadId := value.id, inboxId := row.inbox.id, fingerprintHash := upload.fingerprintHash,
      reservedSize := value.expectedSize, status := .reserved, createdAtMs := value.createdAtMs }
  let s := { s with inboxUploads }
  let result ← s.reservationById value.id
  return (result, s)

def completeInboxUpload (s : Repository) (capabilityHash uploadId : String) (nowMs : ℕ)
    (event : NewAuditEvent) : Except RepositoryError (ObjectVersionRecord × Repository) := do
  validateHash capabilityHash
  validateText uploadId
  toI64 nowMs
  let reservation ← s.inboxReservation capabilityHash uploadId nowMs
  requireState reservation.state .uploaded
  let inboxId ← s.reservedInboxId uploadId
  validateInboxUploadEvent event inboxId reservation.expectedSize nowMs
  let s ← s.updateReservationState uploadId .uploaded .complete false
  let s ← s.completeVersion reservation.version.id reservation.expectedSize
    reservation.expectedChecksum
  let s ← s.completeCapacity inboxId reservation.expectedSize
  let s ← s.transitionLink uploadId .complete
  let s ← s.insertAudit event
  let version ← s.objectVersionById reservation.version.id
  return (version, s)

def abortInboxUpload (s : Repository) (capabilityHash uploadId : String) (nowMs : ℕ) :
    Except RepositoryError (UploadReservationRecord × Repository) := do
  validateHash capabilityHash
  validateText uploadId
  toI64 nowMs
  let reservation ← s.inboxReservation capabilityHash uploadId nowMs
  ensure (reservation.state = .requested ∨ reservation.state = .uploaded) .conflict
  let inboxId ← s.reservedInboxId uploadId
  let s ← s.updateReservationState uploadId reservation.state .aborted true
  let s := s.deleteParts uploadId
  let s ← s.abortVersion reservation.version.id
  let s ← s.releaseCapacity inboxId reservation.expectedSize
  let s ← s.transitionLink uploadId .aborted
  return (reservation, s)

/-! ### What the operations do -/

theorem activeInbox_spec {s : Repository} {capabilityHash : String} {nowMs : ℕ} {row : InboxRow}
    (h : s.activeInbox capabilityHash nowMs = .ok row) :
    row ∈ s.inboxes ∧ row.capabilityHash = capabilityHash ∧ row.inbox.status = .active ∧
      nowMs < row.inbox.expiresAtMs := by
  have hmem := List.mem_of_head? (requireRow_eq_ok.mp h)
  simpa using hmem

theorem updateCapacity_spec {s s' : Repository} {guard : InboxRecord → Prop}
    [DecidablePred guard] {change : InboxRecord → InboxRecord}
    {hid : ∀ inbox, (change inbox).id = inbox.id} {row : InboxRow}
    (h : s.updateCapacity row.inbox.id guard change hid = .ok s') (hrow : row ∈ s.inboxes) :
    ∃ inboxes, s' = { s with inboxes } ∧ guard row.inbox ∧
      s.inboxes.Replaced inboxes row { row with inbox := change row.inbox } := by
  simp only [updateCapacity, bind_eq_ok, pure_eq_ok, changedOnce_eq_ok] at h
  obtain ⟨-, hcount, rfl⟩ := h
  obtain ⟨r, hr, hk, hguard⟩ := Table.exists_of_count_eq_one hcount
  obtain rfl : r = row := Table.eq_of_key hr hrow hk
  exact ⟨_, rfl, hguard, Table.replaced_update hr
    (Table.guard_iff_eq (q := fun x : InboxRow => guard x.inbox) hr hguard)
    fun x => hid x.inbox⟩

theorem transitionLink_spec {s s' : Repository} {link : InboxUploadRow}
    {status : InboxUploadStatus} (h : s.transitionLink link.uploadId status = .ok s')
    (hlink : link ∈ s.inboxUploads) :
    ∃ links, s' = { s with inboxUploads := links } ∧ link.status = .reserved ∧
      s.inboxUploads.Replaced links link { link with status } := by
  simp only [transitionLink, bind_eq_ok, pure_eq_ok, changedOnce_eq_ok] at h
  obtain ⟨-, hcount, rfl⟩ := h
  obtain ⟨l, hl, hk, hstatus⟩ := Table.exists_of_count_eq_one hcount
  obtain rfl : l = link := Table.eq_of_key hl hlink hk
  exact ⟨_, rfl, hstatus, Table.replaced_update hl
    (Table.guard_iff_eq (q := fun x => x.status = .reserved) hl hstatus)⟩

theorem reservedInboxId_spec {s : Repository} {uploadId inboxId : String}
    (h : s.reservedInboxId uploadId = .ok inboxId) :
    ∃ link ∈ s.inboxUploads, link.uploadId = uploadId ∧ link.status = .reserved ∧
      link.inboxId = inboxId := by
  simp only [reservedInboxId, bind_eq_ok, pure_eq_ok, requireRow_eq_ok, Option.filter_eq_some_iff,
    Table.find?_eq_some] at h
  obtain ⟨link, ⟨⟨hlink, hid⟩, hstatus⟩, rfl⟩ := h
  exact ⟨link, hlink, hid, by simpa using hstatus, rfl⟩

/-- Creating an inbox inserts one row with empty counters. -/
theorem createInbox_spec {s s' : Repository} {inbox : NewInbox} {event : NewAuditEvent}
    {result : InboxRecord} (h : s.createInbox inbox event = .ok (result, s')) :
    ∃ row inboxes auditEvents, s' = { s with inboxes, auditEvents } ∧
      row.inbox.id = inbox.id ∧ row.inbox.maximumFiles = inbox.maximumFiles ∧
      row.inbox.maximumBytes = inbox.maximumBytes ∧
      row.inbox.currentFiles = 0 ∧ row.inbox.currentBytes = 0 ∧
      row.inbox.reservedFiles = 0 ∧ row.inbox.reservedBytes = 0 ∧
      s.inboxes.Inserted inboxes row := by
  simp only [createInbox, bind_eq_ok, pure_eq_ok, insertRow_eq_ok, Prod.mk.injEq] at h
  obtain ⟨-, -, -, -, -, -, -, -, inboxes, hins, s₁, hs₁, -, -, -, rfl⟩ := h
  obtain ⟨auditEvents, rfl⟩ := insertAudit_spec hs₁
  exact ⟨_, inboxes, auditEvents, rfl, rfl, rfl, rfl, rfl, rfl, rfl, rfl,
    Table.inserted_of_insert hins⟩

/-- Revoking an inbox leaves its counters alone. -/
theorem revokeInbox_spec {s s' : Repository} {inboxId workspaceId : String} {revokedAtMs : ℕ}
    {event : NewAuditEvent} {result : Bool}
    (h : s.revokeInbox inboxId workspaceId revokedAtMs event = .ok (result, s')) :
    s' = s ∨ ∃ row inboxes auditEvents, s' = { s with inboxes, auditEvents } ∧
      s.inboxes.Replaced inboxes row
        { row with
          inbox := { row.inbox with status := .revoked, revokedAtMs := some revokedAtMs } } := by
  simp only [revokeInbox, bind_eq_ok, requireRow_eq_ok, Table.find?_eq_some] at h
  obtain ⟨-, -, -, -, row, ⟨hrow, rfl⟩, -, -, h⟩ := h
  split at h
  · simp only [pure_eq_ok, Prod.mk.injEq] at h
    exact Or.inl h.2.symm
  · simp only [bind_eq_ok, pure_eq_ok, Prod.mk.injEq] at h
    obtain ⟨-, -, -, -, -, -, s₁, hs₁, s₂, hs₂, -, rfl⟩ := h
    obtain ⟨inboxes, rfl, -, hinboxes⟩ := updateCapacity_spec hs₁ hrow
    obtain ⟨auditEvents, rfl⟩ := insertAudit_spec hs₂
    exact Or.inr ⟨row, inboxes, auditEvents, rfl, hinboxes⟩

/-- A reservation in an inbox is an upload reservation that also takes capacity. -/
theorem reserveInboxUpload_spec {s s' : Repository} {upload : NewInboxUpload}
    {value : NewUploadReservation} {result : UploadReservationRecord}
    (h : s.reserveInboxUpload upload value = .ok (result, s')) :
    ∃ row version inboxes versions reservations links,
      s' = { s with
        inboxes := inboxes, objectVersions := versions, uploadReservations := reservations,
        inboxUploads := links } ∧
      s.nextVersion value.projectId value.objectPath = .ok version ∧
      row.inbox.currentFiles + row.inbox.reservedFiles < row.inbox.maximumFiles ∧
      row.inbox.currentBytes + row.inbox.reservedBytes + value.expectedSize ≤
        row.inbox.maximumBytes ∧
      s.inboxes.Replaced inboxes row
        { row with
          inbox :=
            { row.inbox with
              reservedFiles := row.inbox.reservedFiles + 1
              reservedBytes := row.inbox.reservedBytes + value.expectedSize } } ∧
      s.objectVersions.Inserted versions (reservedVersion value version) ∧
      (∀ r ∈ s.uploadReservations, r.versionId ≠ value.id) ∧
      s.uploadReservations.Inserted reservations (requestedReservation value) ∧
      s.inboxUploads.Inserted links
        { uploadId := value.id, inboxId := row.inbox.id,
          fingerprintHash := upload.fingerprintHash, reservedSize := value.expectedSize,
          status := .reserved, createdAtMs := value.createdAtMs } := by
  simp only [reserveInboxUpload, reserveCapacity, bind_eq_ok, pure_eq_ok, insertRow_eq_ok,
    Prod.mk.injEq] at h
  obtain ⟨-, -, -, -, -, -, -, -, row, hactive, -, -, s₁, ⟨-, -, hs₁⟩, -, -, version, hnext, s₂, hs₂,
    s₃, hs₃, links, hlinks, -, -, -, rfl⟩ := h
  obtain ⟨inboxes, rfl, ⟨-, hfiles, hbytes⟩, hinboxes⟩ :=
    updateCapacity_spec hs₁ (activeInbox_spec hactive).1
  obtain ⟨versions, rfl, hversions⟩ := insertVersion_spec hs₂
  obtain ⟨reservations, rfl, hfresh, hreservations⟩ := insertReservation_spec hs₃
  exact ⟨row, version, inboxes, versions, reservations, links, rfl, hnext, hfiles, hbytes,
    hinboxes, hversions, hfresh, hreservations, Table.inserted_of_insert hlinks⟩

/-- The reservation is linked to the inbox behind the capability. -/
theorem reserveInboxUpload_result {s s' : Repository} {upload : NewInboxUpload}
    {value : NewUploadReservation} {result : UploadReservationRecord}
    (h : s.reserveInboxUpload upload value = .ok (result, s')) :
    s'.reservationById value.id = .ok result ∧
      ∃ row, s.activeInbox upload.capabilityHash upload.nowMs = .ok row ∧
        ∃ link ∈ s'.inboxUploads, link.uploadId = value.id ∧ link.inboxId = row.inbox.id := by
  simp only [reserveInboxUpload, bind_eq_ok, pure_eq_ok, insertRow_eq_ok, Prod.mk.injEq] at h
  obtain ⟨-, -, -, -, -, -, -, -, row, hactive, -, -, s₁, -, -, -, version, -, s₂, -, s₃, -, links,
    hlinks, record, hrecord, rfl, rfl⟩ := h
  exact ⟨hrecord, row, hactive, _, (Table.inserted_of_insert hlinks).mem_new, rfl, rfl⟩

/-- A reservation in an inbox whose identifier is taken conflicts, once it is past the checks. -/
theorem reserveInboxUpload_conflict {s : Repository} {upload : NewInboxUpload}
    {value : NewUploadReservation} {inbox : InboxRow} {version : ℕ} {row : UploadReservationRow}
    (hvalid : validateReservation value = .ok ()) (hcapability : ValidChecksum upload.capabilityHash)
    (hfingerprint : ValidChecksum upload.fingerprintHash) (hnow : upload.nowMs ≤ i64Max)
    (hinbox : s.activeInbox upload.capabilityHash upload.nowMs = .ok inbox)
    (hscope : validateScope inbox.inbox value upload.nowMs = .ok ())
    (hproject : s.ensureProject value.projectId = .ok ())
    (hnext : s.nextVersion value.projectId value.objectPath = .ok version)
    (hrow : row ∈ s.uploadReservations) (hid : row.id = value.id) :
    s.reserveInboxUpload upload value = .error .conflict := by
  have hsize : toI64 value.expectedSize = .ok () :=
    toI64_eq_ok.mpr (validateReservation_bounds hvalid).2.2
  unfold reserveInboxUpload
  rw [hvalid, validateHash_eq_ok (u := ()) |>.mpr hcapability,
    validateHash_eq_ok (u := ()) |>.mpr hfingerprint, toI64_eq_ok (u := ()) |>.mpr hnow, hinbox]
  show (validateScope inbox.inbox value upload.nowMs >>= fun _ => _) = _
  rw [hscope]
  show (s.reserveCapacity inbox.inbox.id value.expectedSize >>= fun s => _) = _
  cases hcapacity : s.reserveCapacity inbox.inbox.id value.expectedSize with
  | error e =>
    simp only [reserveCapacity, updateCapacity, hsize, bind_eq_error, changedOnce,
      ensure_eq_error] at hcapacity
    rcases hcapacity with h | ⟨_, -, ⟨-, rfl⟩ | ⟨_, -, h⟩⟩
    · cases h
    · rfl
    · cases h
  | ok s₁ =>
    simp only [reserveCapacity, bind_eq_ok] at hcapacity
    obtain ⟨-, -, hupdate⟩ := hcapacity
    obtain ⟨inboxes, rfl, -⟩ := updateCapacity_spec hupdate (activeInbox_spec hinbox).1
    show ((s.ensureProject value.projectId) >>= fun _ => _) = _
    rw [hproject]
    show ((s.nextVersion value.projectId value.objectPath) >>= fun version => _) = _
    rw [hnext]
    exact insertRows_conflict (s := { s with inboxes := inboxes }) hrow hid _

theorem inboxReservation_spec {s : Repository} {capabilityHash uploadId : String} {nowMs : ℕ}
    {r : UploadReservationRecord} (h : s.inboxReservation capabilityHash uploadId nowMs = .ok r) :
    (∃ row ∈ s.uploadReservations, ∃ version ∈ s.objectVersions,
      row.id = uploadId ∧ version.id = row.versionId ∧ r = reservationRecord row version) ∧
    ∃ link ∈ s.inboxUploads, link.uploadId = uploadId ∧
      ∃ row ∈ s.inboxes, row.inbox.id = link.inboxId := by
  simp only [inboxReservation, inboxUpload, bind_eq_ok, pure_eq_ok, ensure_eq_ok,
    reservationById_eq_ok, exists_const] at h
  obtain ⟨_, ⟨⟨link, hlink, hid, row, hrow, hinbox, -⟩, hr⟩, -, rfl⟩ := h
  exact ⟨hr, link, hlink, hid, row, hrow, hinbox⟩

/-- Completing an inbox upload turns its reservation into current use. -/
theorem completeInboxUpload_spec {s s' : Repository} {capabilityHash uploadId : String}
    {nowMs : ℕ} {event : NewAuditEvent} {result : ObjectVersionRecord}
    (h : s.completeInboxUpload capabilityHash uploadId nowMs event = .ok (result, s')) :
    ∃ row version link inbox reservations versions inboxes links auditEvents,
      s' = { s with
        uploadReservations := reservations, objectVersions := versions, inboxes := inboxes,
        inboxUploads := links, auditEvents := auditEvents } ∧
      row.id = uploadId ∧ row.state = .uploaded ∧ version.id = row.versionId ∧
      version.state = .pending ∧ result = completedVersion version row ∧
      link.uploadId = uploadId ∧ link.status = .reserved ∧ link.inboxId = inbox.inbox.id ∧
      1 ≤ inbox.inbox.reservedFiles ∧ row.expectedSize ≤ inbox.inbox.reservedBytes ∧
      s.uploadReservations.Replaced reservations row { row with state := .complete } ∧
      s.objectVersions.Replaced versions version (completedVersion version row) ∧
      s.inboxes.Replaced inboxes inbox
        { inbox with
          inbox :=
            { inbox.inbox with
              reservedFiles := inbox.inbox.reservedFiles - 1
              reservedBytes := inbox.inbox.reservedBytes - row.expectedSize
              currentFiles := inbox.inbox.currentFiles + 1
              currentBytes := inbox.inbox.currentBytes + row.expectedSize } } ∧
      s.inboxUploads.Replaced links link { link with status := .complete } := by
  simp only [completeInboxUpload, completeCapacity, bind_eq_ok, pure_eq_ok, Prod.mk.injEq] at h
  obtain ⟨-, -, -, -, -, -, r, hr, -, -, inboxId, hinboxId, -, -, s₁, hs₁, s₂, hs₂, s₃, ⟨-, -, hs₃⟩,
    s₄, hs₄, s₅, hs₅, v, hresult, rfl, rfl⟩ := h
  obtain ⟨⟨row, hrow, version, hversion, rfl, hv, rfl⟩, _, hlink', hid', inbox, hinbox, hib⟩ :=
    inboxReservation_spec hr
  obtain ⟨link, hlink, hid, -, rfl⟩ := reservedInboxId_spec hinboxId
  obtain rfl := Table.eq_of_key hlink' hlink (hid'.trans hid.symm)
  obtain ⟨reservations, rfl, hstate, hreservations⟩ := updateReservationState_spec hs₁ hrow
  obtain ⟨versions, rfl, hpending, hversions⟩ := completeVersion_spec hs₂ hversion
  rw [← hib] at hs₃
  obtain ⟨inboxes, rfl, ⟨hfiles, hbytes⟩, hinboxes⟩ := updateCapacity_spec hs₃ hinbox
  rw [← hid] at hs₄
  obtain ⟨links, rfl, hreserved, hlinks⟩ := transitionLink_spec hs₄ hlink
  obtain ⟨auditEvents, rfl⟩ := insertAudit_spec hs₅
  exact ⟨row, version, _, inbox, reservations, versions, inboxes, links, auditEvents, rfl, rfl,
    hstate, hv, hpending, objectVersionById_replaced hversions hresult, hid, hreserved, hib.symm,
    hfiles, hbytes, hreservations, hversions, hinboxes, hlinks⟩

/-- Aborting an inbox upload gives its reservation back. -/
theorem abortInboxUpload_spec {s s' : Repository} {capabilityHash uploadId : String}
    {nowMs : ℕ} {result : UploadReservationRecord}
    (h : s.abortInboxUpload capabilityHash uploadId nowMs = .ok (result, s')) :
    ∃ row version link inbox reservations versions inboxes links parts,
      s' = { s with
        uploadReservations := reservations, objectVersions := versions, inboxes := inboxes,
        inboxUploads := links, uploadParts := parts } ∧
      row.id = uploadId ∧ (row.state = .requested ∨ row.state = .uploaded) ∧
      version.id = row.versionId ∧ version.state = .pending ∧ link.uploadId = uploadId ∧
      link.status = .reserved ∧ link.inboxId = inbox.inbox.id ∧
      1 ≤ inbox.inbox.reservedFiles ∧ row.expectedSize ≤ inbox.inbox.reservedBytes ∧
      s.uploadReservations.Replaced reservations row
        { row with state := .aborted, receivedSize := none, receivedChecksum := none } ∧
      s.objectVersions.Replaced versions version { version with state := .aborted } ∧
      s.inboxes.Replaced inboxes inbox
        { inbox with
          inbox :=
            { inbox.inbox with
              reservedFiles := inbox.inbox.reservedFiles - 1
              reservedBytes := inbox.inbox.reservedBytes - row.expectedSize } } ∧
      s.inboxUploads.Replaced links link { link with status := .aborted } := by
  simp only [abortInboxUpload, releaseCapacity, bind_eq_ok, pure_eq_ok, ensure_eq_ok,
    Prod.mk.injEq] at h
  obtain ⟨-, -, -, -, -, -, r, hr, -, hopen, inboxId, hinboxId, s₁, hs₁, s₂, hs₂, s₃, ⟨-, -, hs₃⟩,
    s₄, hs₄, -, rfl⟩ := h
  obtain ⟨⟨row, hrow, version, hversion, rfl, hv, rfl⟩, _, hlink', hid', inbox, hinbox, hib⟩ :=
    inboxReservation_spec hr
  obtain ⟨link, hlink, hid, -, rfl⟩ := reservedInboxId_spec hinboxId
  obtain rfl := Table.eq_of_key hlink' hlink (hid'.trans hid.symm)
  obtain ⟨reservations, rfl, -, hreservations⟩ := updateReservationState_spec hs₁ hrow
  obtain ⟨versions, rfl, hpending, hversions⟩ := abortVersion_spec hs₂ hversion
  rw [← hib] at hs₃
  obtain ⟨inboxes, rfl, ⟨hfiles, hbytes⟩, hinboxes⟩ := updateCapacity_spec hs₃ hinbox
  rw [← hid] at hs₄
  obtain ⟨links, rfl, hreserved, hlinks⟩ := transitionLink_spec hs₄ hlink
  exact ⟨row, version, _, inbox, reservations, versions, inboxes, links, _, rfl, rfl, hopen, hv,
    hpending, hid, hreserved, hib.symm, hfiles, hbytes, hreservations, hversions, hinboxes,
    hlinks⟩

end Repository

end BlobYard
