/-
Upload reservations, their versions and download grants.

The transfer operations of the metadata repository.  A reservation and the object
version it reserves are two rows that move together: `reserveUpload` inserts both,
`completeUpload` and `abortUpload` move both to their terminal states.

* `nextVersion_gt` — a new version's number exceeds every number in use for its path;
* `reserveUpload_spec`, `completeUpload_spec`, `abortUpload_spec` — what each operation
  that touches object versions does to the tables;
* `recordUploadedBytes_spec`, `renewUpload_spec`, `attachMultipart_spec` — the operations
  that touch the reservation alone;
* `issueUploadParts_frame`, `recordUploadedPart_frame` — those that touch the parts alone.
-/
import BlobYard.Contract.Numbers
import BlobYard.Lib.Order
import BlobYard.Repository.State

namespace BlobYard

open Outcome

/-! ### Validation -/

/-- `validate_strategy`: a multipart plan has exactly the parts its sizes need. -/
def ValidStrategy (value : NewUploadReservation) : Prop :=
  match value.strategy, value.partSize, value.partCount with
  | .single, none, none => True
  | .multipart, some size, some count =>
    0 < size ∧ 0 < count ∧ count ≤ 10000 ∧ (value.expectedSize + size - 1) / size = count
  | _, _, _ => False

instance (value : NewUploadReservation) : Decidable (ValidStrategy value) := by
  unfold ValidStrategy
  split <;> infer_instance

/-- `validate_provenance`. -/
def validateProvenance (repository commit branch : Option String) :
    Except RepositoryError Unit :=
  validateTexts ([repository, commit, branch].filterMap id)

/-- `validate_reservation`. -/
def validateReservation (value : NewUploadReservation) : Except RepositoryError Unit := do
  validateTexts [value.id, value.projectId, value.objectPath, value.filename, value.contentType]
  validateHash value.expectedChecksum
  validateHash value.capabilityHash
  ensure (ValidRelativePath value.storageKey 512) .invalidInput
  validateProvenance value.gitRepository value.gitCommit value.gitBranch
  ensure (ValidStrategy value) .invalidInput
  toI64 value.createdAtMs
  toI64 value.expiresAtMs
  ensure (value.createdAtMs < value.expiresAtMs) .invalidInput
  toI64 value.expectedSize
  toI64 (value.partSize.getD 0)

theorem validateReservation_bounds {value : NewUploadReservation} {u : Unit}
    (h : validateReservation value = .ok u) :
    ValidText value.id ∧ value.expiresAtMs ≤ i64Max ∧ value.expectedSize ≤ i64Max := by
  simp only [validateReservation, bind_eq_ok, validateTexts_eq_ok, toI64_eq_ok,
    exists_const] at h
  obtain ⟨htexts, _, -, _, -, _, -, _, -, _, -, -, hexpires, _, -, hsize, -⟩ := h
  exact ⟨htexts value.id (by simp), hexpires, hsize⟩

/-- `validate_upload_integrity`. -/
def validateUploadIntegrity (id checksum : String) : Except RepositoryError Unit := do
  validateText id
  validateHash checksum

/-- `validate_provider_upload_id`. -/
def validateProviderUploadId (value : String) : Except RepositoryError Unit :=
  ensure (value ≠ "" ∧ value.utf8ByteSize ≤ 4096 ∧ ∀ c ∈ value.toList, isControl c = false)
    .invalidInput

/-! ### Rows and queries -/

/-- The columns of a reservation joined with its version. -/
def reservationRecord (row : UploadReservationRow) (version : ObjectVersionRecord) :
    UploadReservationRecord where
  id := row.id
  version := version
  filename := row.filename
  contentType := row.contentType
  expectedSize := row.expectedSize
  expectedChecksum := row.expectedChecksum
  expiresAtMs := row.expiresAtMs
  state := row.state
  strategy := row.strategy
  partSize := row.partSize
  partCount := row.partCount
  providerUploadId := row.providerUploadId

/-- `path` starts with `start`, character by character (`substr(..) = ?`). -/
def hasPrefix (path start : String) : Prop := start.toList <+: path.toList

instance (path start : String) : Decidable (hasPrefix path start) :=
  inferInstanceAs (Decidable (_ <+: _))

namespace Repository

/-- `upload_reservations r JOIN object_versions v ON v.id = r.version_id`. -/
def joinVersion (s : Repository) (row : UploadReservationRow) : Option UploadReservationRecord :=
  (s.objectVersions.find? row.versionId).map (reservationRecord row)

/-- `transfer_reservations::by_id`. -/
def reservationById (s : Repository) (id : String) :
    Except RepositoryError UploadReservationRecord :=
  requireRow ((s.uploadReservations.find? id).bind s.joinVersion)

theorem reservationById_eq_ok {s : Repository} {id : String} {r : UploadReservationRecord} :
    s.reservationById id = .ok r ↔
      ∃ row ∈ s.uploadReservations, ∃ version ∈ s.objectVersions,
        row.id = id ∧ version.id = row.versionId ∧ r = reservationRecord row version := by
  simp only [reservationById, requireRow_eq_ok, Option.bind_eq_some_iff, joinVersion,
    Option.map_eq_some_iff, Table.find?_eq_some]
  constructor
  · rintro ⟨row, ⟨hrow, hid⟩, version, ⟨hversion, hv⟩, rfl⟩
    exact ⟨row, hrow, version, hversion, hid, hv, rfl⟩
  · rintro ⟨row, hrow, version, hversion, hid, hv, rfl⟩
    exact ⟨row, ⟨hrow, hid⟩, version, ⟨hversion, hv⟩, rfl⟩

theorem reservationById_of_mem {s : Repository} {row : UploadReservationRow}
    {version : ObjectVersionRecord} (hrow : row ∈ s.uploadReservations)
    (hversion : version ∈ s.objectVersions) (hvid : version.id = row.versionId) :
    s.reservationById row.id = .ok (reservationRecord row version) :=
  reservationById_eq_ok.mpr ⟨row, hrow, version, hversion, rfl, hvid, rfl⟩

/-- `object_version_by_id`. -/
def objectVersionById (s : Repository) (id : String) :
    Except RepositoryError ObjectVersionRecord :=
  requireRow (s.objectVersions.find? id)

def uploadById (s : Repository) (id : String) :
    Except RepositoryError UploadReservationRecord := do
  validateText id
  s.reservationById id

/-- A live upload capability: the reservation is still requested and unexpired. -/
def uploadByCapability (s : Repository) (capabilityHash : String) (nowMs : ℕ) :
    Except RepositoryError UploadReservationRecord := do
  validateHash capabilityHash
  toI64 nowMs
  requireRow <| ((s.uploadReservations.select fun r =>
    r.capabilityHash = capabilityHash ∧ r.state = .requested ∧ nowMs < r.expiresAtMs).head?).bind
      s.joinVersion

/-- `ensure_project`. -/
def ensureProject (s : Repository) (id : String) : Except RepositoryError Unit :=
  ensure (∃ p ∈ s.projects, p.id = id) .notFound

/-- The version numbers in use for a path: those of its rows, and those of the items
of the deletion operations recorded under the same path. -/
def usedVersions (s : Repository) (projectId objectPath : String) : List ℕ :=
  (s.objectVersions.select fun v =>
      v.projectId = projectId ∧ v.objectPath = objectPath).map ObjectVersionRecord.version ++
    (s.deletionItems.select fun row => ∃ o ∈ s.deletionOperations,
      o.id = row.operationId ∧ o.projectId = projectId ∧ o.objectPath = objectPath).map
        fun row => row.item.version

/-- `next_version`. -/
def nextVersion (s : Repository) (projectId objectPath : String) : Except RepositoryError ℕ := do
  let version := maximum (s.usedVersions projectId objectPath) + 1
  ensure (version ≤ i64Max) .unavailable
  return version

/-- The version row of a reservation (`insert_version`). -/
def reservedVersion (value : NewUploadReservation) (version : ℕ) : ObjectVersionRecord where
  id := value.id
  projectId := value.projectId
  objectPath := value.objectPath
  version := version
  storageKey := value.storageKey
  state := .pending
  size := none
  checksum := none
  createdAtMs := value.createdAtMs
  source := value.source
  gitRepository := value.gitRepository
  gitCommit := value.gitCommit
  gitBranch := value.gitBranch

/-- The reservation row of a reservation (`insert_reservation`). -/
def requestedReservation (value : NewUploadReservation) : UploadReservationRow where
  id := value.id
  versionId := value.id
  filename := value.filename
  contentType := value.contentType
  expectedSize := value.expectedSize
  expectedChecksum := value.expectedChecksum
  capabilityHash := value.capabilityHash
  expiresAtMs := value.expiresAtMs
  state := .requested
  receivedSize := none
  receivedChecksum := none
  strategy := value.strategy
  partSize := value.partSize
  partCount := value.partCount
  providerUploadId := none

def insertVersion (s : Repository) (value : NewUploadReservation) (version : ℕ) :
    Except RepositoryError Repository := do
  ensure (∀ v ∈ s.objectVersions, v.storageKey ≠ value.storageKey) .conflict
  ensure (∀ v ∈ s.objectVersions, ¬(v.projectId = value.projectId ∧
    v.objectPath = value.objectPath ∧ v.version = version)) .conflict
  let objectVersions ← insertRow s.objectVersions (reservedVersion value version)
  return { s with objectVersions }

def insertReservation (s : Repository) (value : NewUploadReservation) :
    Except RepositoryError Repository := do
  ensure (∀ r ∈ s.uploadReservations, r.versionId ≠ value.id) .conflict
  ensure (∀ r ∈ s.uploadReservations, r.capabilityHash ≠ value.capabilityHash) .conflict
  let uploadReservations ← insertRow s.uploadReservations (requestedReservation value)
  return { s with uploadReservations }

/-! ### The operations -/

def reserveUpload (s : Repository) (value : NewUploadReservation) :
    Except RepositoryError (UploadReservationRecord × Repository) := do
  validateReservation value
  s.ensureProject value.projectId
  let version ← s.nextVersion value.projectId value.objectPath
  let s ← s.insertVersion value version
  let s ← s.insertReservation value
  let result ← s.reservationById value.id
  return (result, s)

/-- `renew_requested`. -/
def renewUpload (s : Repository) (id : String) (expiresAtMs : ℕ) :
    Except RepositoryError Repository := do
  validateText id
  toI64 expiresAtMs
  changedOnce (s.uploadReservations.count fun r => r.id = id ∧ r.state = .requested)
  return { s with
    uploadReservations := s.uploadReservations.update
      (fun r => r.id = id ∧ r.state = .requested) fun r => { r with expiresAtMs } }

def recordUploadedBytes (s : Repository) (id : String) (size : ℕ) (checksum : String) :
    Except RepositoryError Repository := do
  validateUploadIntegrity id checksum
  toI64 size
  let current ← s.reservationById id
  ensure (current.expectedSize = size ∧ current.expectedChecksum = checksum) .invalidInput
  ensure (current.state = .requested) .conflict
  changedOnce (s.uploadReservations.count fun r => r.id = id ∧ r.state = .requested)
  return { s with
    uploadReservations := s.uploadReservations.update (fun r => r.id = id ∧ r.state = .requested)
      fun r =>
        { r with state := .uploaded, receivedSize := some size, receivedChecksum := some checksum } }

/-- `require_state`. -/
def requireState (actual expected : ReservationState) : Except RepositoryError Unit :=
  ensure (actual = expected) .conflict

/-- `update_reservation_state`: a guarded transition of one reservation. -/
def updateReservationState (s : Repository) (id : String) (fromState toState : ReservationState)
    (clearReceived : Bool) : Except RepositoryError Repository := do
  changedOnce (s.uploadReservations.count fun r => r.id = id ∧ r.state = fromState)
  return { s with
    uploadReservations := s.uploadReservations.update (fun r => r.id = id ∧ r.state = fromState)
      fun r =>
        { r with
          state := toState
          receivedSize := if clearReceived then none else r.receivedSize
          receivedChecksum := if clearReceived then none else r.receivedChecksum } }

/-- The pending version `id` becomes complete with its size and checksum. -/
def completeVersion (s : Repository) (id : String) (size : ℕ) (checksum : String) :
    Except RepositoryError Repository := do
  changedOnce (s.objectVersions.count fun v => v.id = id ∧ v.state = .pending)
  return { s with
    objectVersions := s.objectVersions.update (fun v => v.id = id ∧ v.state = .pending)
      fun v => { v with state := .complete, size := some size, checksum := some checksum } }

/-- The pending version `id` becomes aborted. -/
def abortVersion (s : Repository) (id : String) : Except RepositoryError Repository := do
  changedOnce (s.objectVersions.count fun v => v.id = id ∧ v.state = .pending)
  return { s with
    objectVersions := s.objectVersions.update (fun v => v.id = id ∧ v.state = .pending)
      fun v => { v with state := .aborted } }

/-- `delete_parts`. -/
def deleteParts (s : Repository) (uploadId : String) : Repository :=
  { s with uploadParts := s.uploadParts.erase fun p => p.uploadId = uploadId }

def completeUpload (s : Repository) (id : String) :
    Except RepositoryError (ObjectVersionRecord × Repository) := do
  validateText id
  let reservation ← s.reservationById id
  requireState reservation.state .uploaded
  let s ← s.updateReservationState id .uploaded .complete false
  -- the statement selects `expected_size` from the reservation it just read
  let s ← s.completeVersion reservation.version.id reservation.expectedSize
    reservation.expectedChecksum
  let version ← s.objectVersionById reservation.version.id
  return (version, s)

def abortUpload (s : Repository) (id : String) :
    Except RepositoryError (UploadReservationRecord × Repository) := do
  validateText id
  let reservation ← s.reservationById id
  ensure (reservation.state = .requested ∨ reservation.state = .uploaded) .conflict
  let s ← s.updateReservationState id reservation.state .aborted true
  let s := s.deleteParts id
  let s ← s.abortVersion reservation.version.id
  return (reservation, s)

/-! ### Multipart plans -/

/-- `require_multipart`: the part size and count of a requested multipart reservation. -/
def requireMultipart (upload : UploadReservationRecord) : Except RepositoryError (ℕ × ℕ) :=
  match upload.state, upload.strategy, upload.partSize, upload.partCount with
  | .requested, .multipart, some size, some count => .ok (size, count)
  | _, _, _, _ => .error .conflict

def attachMultipart (s : Repository) (id providerUploadId : String) :
    Except RepositoryError (UploadReservationRecord × Repository) := do
  validateText id
  validateProviderUploadId providerUploadId
  let current ← s.reservationById id
  let _ ← requireMultipart current
  match current.providerUploadId with
  | some existing =>
    ensure (existing = providerUploadId) .conflict
    return (current, s)
  | none =>
    let s := { s with
      uploadReservations := s.uploadReservations.update
        (fun r => r.id = id ∧ r.state = .requested ∧ r.providerUploadId = none)
        fun r => { r with providerUploadId := some providerUploadId } }
    let result ← s.reservationById id
    return (result, s)

/-- `expected_part_size`. -/
def expectedPartSize (upload : UploadReservationRecord) (number size : ℕ) : ℕ :=
  min (saturatingSub upload.expectedSize (saturatingMul (number - 1) size)) size

/-- `validate_batch`. -/
def validateBatch (parts : List NewUploadPartGrant) : Except RepositoryError Unit :=
  ensure (parts ≠ [] ∧ parts.length ≤ 100 ∧
    (∀ part ∈ parts, some part.uploadId = parts.head?.map NewUploadPartGrant.uploadId) ∧
    (parts.map NewUploadPartGrant.partNumber).Nodup) .invalidInput

/-- `validate_part`. -/
def validatePart (part : NewUploadPartGrant) (upload : UploadReservationRecord)
    (size count : ℕ) : Except RepositoryError Unit := do
  validateHash part.capabilityHash
  toI64 part.expectedSize
  toI64 part.expiresAtMs
  ensure (part.partNumber ≠ 0 ∧ part.partNumber ≤ count ∧
    part.expectedSize = expectedPartSize upload part.partNumber size) .invalidInput

/-- `upsert_part`: a known part only receives a new capability and expiry. -/
def upsertPart (s : Repository) (part : NewUploadPartGrant) :
    Except RepositoryError Repository := do
  ensure (∀ p ∈ s.uploadParts, p.capabilityHash = part.capabilityHash →
    p.uploadId = part.uploadId ∧ p.partNumber = part.partNumber) .conflict
  ensure (0 < part.expectedSize) .conflict
  match s.uploadParts.find? (part.uploadId, part.partNumber) with
  | some _ =>
    return { s with
      uploadParts := s.uploadParts.update
        (fun p => p.uploadId = part.uploadId ∧ p.partNumber = part.partNumber)
        fun p => { p with capabilityHash := part.capabilityHash, expiresAtMs := part.expiresAtMs } }
  | none =>
    let uploadParts ← insertRow s.uploadParts
      { uploadId := part.uploadId, partNumber := part.partNumber,
        expectedSize := part.expectedSize, capabilityHash := part.capabilityHash,
        expiresAtMs := part.expiresAtMs, receivedSize := none, receivedChecksum := none,
        providerTag := none }
    return { s with uploadParts }

/-- The parts of an upload in part order (`list_on`). -/
def partsOf (s : Repository) (uploadId : String) : List UploadPartRow :=
  orderBy UploadPartRow.partNumber (s.uploadParts.select fun p => p.uploadId = uploadId)

def issueUploadParts (s : Repository) (parts : List NewUploadPartGrant) :
    Except RepositoryError (List UploadPartRow × Repository) := do
  validateBatch parts
  let upload ← s.reservationById ((parts.head?.map NewUploadPartGrant.uploadId).getD "")
  let plan ← requireMultipart upload
  let s ← parts.foldlM (fun s part => do
    validatePart part upload plan.1 plan.2
    s.upsertPart part) s
  return ((s.partsOf upload.id).filter fun record =>
    decide (∃ part ∈ parts, part.partNumber = record.partNumber), s)

/-- A live part capability of a requested multipart upload. -/
def uploadPartByCapability (s : Repository) (capabilityHash : String) (nowMs : ℕ) :
    Except RepositoryError (UploadReservationRecord × UploadPartRow) := do
  validateHash capabilityHash
  toI64 nowMs
  let part ← requireRow <| (s.uploadParts.select fun p =>
    p.capabilityHash = capabilityHash ∧ nowMs < p.expiresAtMs ∧
      ∃ r ∈ s.uploadReservations, r.id = p.uploadId ∧ r.state = .requested ∧
        r.strategy = .multipart).head?
  let upload ← s.reservationById part.uploadId
  return (upload, part)

def recordUploadedPart (s : Repository) (uploadId : String) (partNumber size : ℕ)
    (checksum : String) (providerTag : Option String) : Except RepositoryError Repository := do
  validateUploadIntegrity uploadId checksum
  validateTexts providerTag.toList
  ensure (partNumber ≠ 0) .invalidInput
  let part ← requireRow <| (s.uploadParts.select fun p =>
    p.uploadId = uploadId ∧ p.partNumber = partNumber ∧
      ∃ r ∈ s.uploadReservations, r.id = p.uploadId ∧ r.state = .requested ∧
        r.strategy = .multipart).head?
  toI64 size
  ensure (part.expectedSize = size) .invalidInput
  return { s with
    uploadParts := s.uploadParts.update
      (fun p => p.uploadId = uploadId ∧ p.partNumber = partNumber)
      fun p =>
        { p with
          receivedSize := some part.expectedSize
          receivedChecksum := some checksum
          providerTag := providerTag } }

def listUploadParts (s : Repository) (uploadId : String) :
    Except RepositoryError (List UploadPartRow) := do
  validateText uploadId
  let _ ← s.reservationById uploadId
  return s.partsOf uploadId

/-! ### Listing and downloads -/

/-- The complete versions of a project, joined with their reservations: all of them, or
only the newest complete version of each path. -/
def listStoredObjects (s : Repository) (projectId : String) (start : Option String)
    (includeVersions : Bool) : Except RepositoryError (List StoredObjectRecord) := do
  validateText projectId
  validateTexts start.toList
  let versions := s.objectVersions.select fun v =>
    v.projectId = projectId ∧ v.state = .complete ∧
      (∀ p ∈ start, hasPrefix v.objectPath p) ∧
      (includeVersions = true ∨ ∀ latest ∈ s.objectVersions,
        latest.projectId = v.projectId → latest.objectPath = v.objectPath →
          latest.state = .complete → latest.version ≤ v.version)
  let rows := versions.flatMap fun v =>
    (s.uploadReservations.select fun r => r.versionId = v.id).map fun r =>
      ({ version := v, filename := r.filename, contentType := r.contentType } : StoredObjectRecord)
  return orderBy (fun o => toLex (o.version.objectPath, o.version.version)) rows

def issueDownload (s : Repository) (grant : NewDownloadGrant) :
    Except RepositoryError Repository := do
  validateText grant.versionId
  validateHash grant.capabilityHash
  toI64 grant.expiresAtMs
  ensure (∃ v ∈ s.objectVersions, v.id = grant.versionId ∧ v.state = .complete) .notFound
  let downloadGrants ← insertRow s.downloadGrants grant
  return { s with downloadGrants }

/-- `download_by_capability`: the complete version behind a live grant. -/
def downloadByCapability (s : Repository) (capabilityHash : String) (nowMs : ℕ) :
    Except RepositoryError StoredObjectRecord := do
  validateHash capabilityHash
  toI64 nowMs
  let grant ← requireRow ((s.downloadGrants.find? capabilityHash).filter fun g =>
    nowMs < g.expiresAtMs)
  let version ← requireRow ((s.objectVersions.find? grant.versionId).filter fun v =>
    v.state = .complete)
  let reservation ← requireRow
    (s.uploadReservations.select fun r => r.versionId = version.id).head?
  return { version, filename := reservation.filename, contentType := reservation.contentType }

/-! ### What the operations do -/

theorem usedVersions_live {s : Repository} {v : ObjectVersionRecord} (hv : v ∈ s.objectVersions) :
    v.version ∈ s.usedVersions v.projectId v.objectPath := by
  refine List.mem_append_left _ (List.mem_map.mpr ⟨v, ?_, rfl⟩)
  exact Table.mem_select.mpr ⟨hv, rfl, rfl⟩

/-- A new version's number exceeds every number in use for its path. -/
theorem nextVersion_gt {s : Repository} {projectId objectPath : String} {version n : ℕ}
    (h : s.nextVersion projectId objectPath = .ok version)
    (hn : n ∈ s.usedVersions projectId objectPath) : n < version := by
  simp only [nextVersion, bind_eq_ok, pure_eq_ok] at h
  obtain ⟨-, -, rfl⟩ := h
  exact Nat.lt_succ_of_le (le_maximum hn)

theorem insertVersion_spec {s s' : Repository} {value : NewUploadReservation} {version : ℕ}
    (h : s.insertVersion value version = .ok s') :
    ∃ versions, s' = { s with objectVersions := versions } ∧
      s.objectVersions.Inserted versions (reservedVersion value version) := by
  simp only [insertVersion, bind_eq_ok, pure_eq_ok, insertRow_eq_ok] at h
  obtain ⟨-, -, -, -, versions, hins, rfl⟩ := h
  exact ⟨versions, rfl, Table.inserted_of_insert hins⟩

theorem insertReservation_spec {s s' : Repository} {value : NewUploadReservation}
    (h : s.insertReservation value = .ok s') :
    ∃ reservations, s' = { s with uploadReservations := reservations } ∧
      (∀ r ∈ s.uploadReservations, r.versionId ≠ value.id) ∧
      s.uploadReservations.Inserted reservations (requestedReservation value) := by
  simp only [insertReservation, bind_eq_ok, pure_eq_ok, insertRow_eq_ok, ensure_eq_ok] at h
  obtain ⟨-, hversion, -, -, reservations, hins, rfl⟩ := h
  exact ⟨reservations, rfl, hversion, Table.inserted_of_insert hins⟩

/-- `reserveUpload` inserts one pending version and its requested reservation. -/
theorem reserveUpload_spec {s s' : Repository} {value : NewUploadReservation}
    {result : UploadReservationRecord} (h : s.reserveUpload value = .ok (result, s')) :
    ∃ version versions reservations,
      s.nextVersion value.projectId value.objectPath = .ok version ∧
      s' = { s with objectVersions := versions, uploadReservations := reservations } ∧
      s.objectVersions.Inserted versions (reservedVersion value version) ∧
      (∀ r ∈ s.uploadReservations, r.versionId ≠ value.id) ∧
      s.uploadReservations.Inserted reservations (requestedReservation value) := by
  simp only [reserveUpload, bind_eq_ok, pure_eq_ok, Prod.mk.injEq] at h
  obtain ⟨-, -, -, -, version, hnext, s₁, hs₁, s₂, hs₂, -, -, -, rfl⟩ := h
  obtain ⟨versions, rfl, hversions⟩ := insertVersion_spec hs₁
  obtain ⟨reservations, rfl, hfresh, hreservations⟩ := insertReservation_spec hs₂
  exact ⟨version, versions, reservations, hnext, rfl, hversions, hfresh, hreservations⟩

theorem reserveUpload_result {s s' : Repository} {value : NewUploadReservation}
    {result : UploadReservationRecord} (h : s.reserveUpload value = .ok (result, s')) :
    s'.reservationById value.id = .ok result := by
  simp only [reserveUpload, bind_eq_ok, pure_eq_ok, Prod.mk.injEq] at h
  obtain ⟨-, -, -, -, version, -, s₁, -, s₂, -, record, hrecord, rfl, rfl⟩ := h
  exact hrecord

theorem insertVersion_error {s : Repository} {value : NewUploadReservation} {version : ℕ}
    {e : RepositoryError} (h : s.insertVersion value version = .error e) : e = .conflict := by
  simp only [insertVersion, bind_eq_error, ensure_eq_error, ensure_eq_ok, insertRow,
    ofOption_eq_error] at h
  rcases h with ⟨-, rfl⟩ | ⟨_, -, ⟨-, rfl⟩ | ⟨_, -, ⟨-, rfl⟩ | ⟨_, -, h⟩⟩⟩
  · rfl
  · rfl
  · rfl
  · cases h

/-- An upload cannot be reserved under an identifier that is taken. -/
theorem insertRows_conflict {s : Repository} {value : NewUploadReservation} {version : ℕ}
    {row : UploadReservationRow} (hrow : row ∈ s.uploadReservations) (hid : row.id = value.id)
    {α : Type} (k : Repository → Except RepositoryError α) :
    (do
      let s ← s.insertVersion value version
      let s ← s.insertReservation value
      k s) = .error .conflict := by
  cases hversion : s.insertVersion value version with
  | error e =>
    obtain rfl := insertVersion_error hversion
    rfl
  | ok s₁ =>
    obtain ⟨versions, rfl, -⟩ := insertVersion_spec hversion
    -- whichever check of the second insertion fails first, it is a conflict
    have hreservation : insertReservation { s with objectVersions := versions } value =
        .error .conflict := by
      cases hinsert : insertReservation { s with objectVersions := versions } value with
      | ok s₂ =>
        obtain ⟨_, -, -, hinserted⟩ := insertReservation_spec hinsert
        exact absurd hid (hinserted.fresh row hrow)
      | error e =>
        simp only [insertReservation, bind_eq_error, ensure_eq_error, ensure_eq_ok, insertRow,
          ofOption_eq_error] at hinsert
        rcases hinsert with ⟨-, rfl⟩ | ⟨_, -, ⟨-, rfl⟩ | ⟨_, -, ⟨-, rfl⟩ | ⟨_, -, h⟩⟩⟩
        · rfl
        · rfl
        · rfl
        · cases h
    show (insertReservation { s with objectVersions := versions } value >>= k) = .error .conflict
    rw [hreservation]
    rfl

/-- A reservation whose identifier is taken conflicts, once it is past the checks. -/
theorem reserveUpload_conflict {s : Repository} {value : NewUploadReservation} {version : ℕ}
    {row : UploadReservationRow} (hvalid : validateReservation value = .ok ())
    (hproject : s.ensureProject value.projectId = .ok ())
    (hnext : s.nextVersion value.projectId value.objectPath = .ok version)
    (hrow : row ∈ s.uploadReservations) (hid : row.id = value.id) :
    s.reserveUpload value = .error .conflict := by
  unfold reserveUpload
  rw [hvalid, hproject, hnext]
  exact insertRows_conflict hrow hid _

theorem updateReservationState_spec {s s' : Repository} {fromState toState : ReservationState}
    {clearReceived : Bool} {row : UploadReservationRow}
    (h : s.updateReservationState row.id fromState toState clearReceived = .ok s')
    (hrow : row ∈ s.uploadReservations) :
    ∃ reservations, s' = { s with uploadReservations := reservations } ∧
      row.state = fromState ∧
      s.uploadReservations.Replaced reservations row
        { row with
          state := toState
          receivedSize := if clearReceived then none else row.receivedSize
          receivedChecksum := if clearReceived then none else row.receivedChecksum } := by
  simp only [updateReservationState, bind_eq_ok, pure_eq_ok, changedOnce_eq_ok] at h
  obtain ⟨-, hcount, rfl⟩ := h
  obtain ⟨r, hr, hid, hstate⟩ := Table.exists_of_count_eq_one hcount
  obtain rfl : r = row := Table.eq_of_key hr hrow hid
  exact ⟨_, rfl, hstate, Table.replaced_update hr
    (Table.guard_iff_eq (q := fun x => x.state = fromState) hr hstate)⟩

theorem completeVersion_spec {s s' : Repository} {version : ObjectVersionRecord} {size : ℕ}
    {checksum : String} (h : s.completeVersion version.id size checksum = .ok s')
    (hversion : version ∈ s.objectVersions) :
    ∃ versions, s' = { s with objectVersions := versions } ∧ version.state = .pending ∧
      s.objectVersions.Replaced versions version
        { version with state := .complete, size := some size, checksum := some checksum } := by
  simp only [completeVersion, bind_eq_ok, pure_eq_ok, changedOnce_eq_ok] at h
  obtain ⟨-, hcount, rfl⟩ := h
  obtain ⟨v, hv, hid, hstate⟩ := Table.exists_of_count_eq_one hcount
  obtain rfl : v = version := Table.eq_of_key hv hversion hid
  exact ⟨_, rfl, hstate, Table.replaced_update hv
    (Table.guard_iff_eq (q := fun x => x.state = .pending) hv hstate)⟩

theorem abortVersion_spec {s s' : Repository} {version : ObjectVersionRecord}
    (h : s.abortVersion version.id = .ok s') (hversion : version ∈ s.objectVersions) :
    ∃ versions, s' = { s with objectVersions := versions } ∧ version.state = .pending ∧
      s.objectVersions.Replaced versions version { version with state := .aborted } := by
  simp only [abortVersion, bind_eq_ok, pure_eq_ok, changedOnce_eq_ok] at h
  obtain ⟨-, hcount, rfl⟩ := h
  obtain ⟨v, hv, hid, hstate⟩ := Table.exists_of_count_eq_one hcount
  obtain rfl : v = version := Table.eq_of_key hv hversion hid
  exact ⟨_, rfl, hstate, Table.replaced_update hv
    (Table.guard_iff_eq (q := fun x => x.state = .pending) hv hstate)⟩

/-- The version `version` once the reservation `row` completed it. -/
def completedVersion (version : ObjectVersionRecord) (row : UploadReservationRow) :
    ObjectVersionRecord :=
  { version with
    state := .complete, size := some row.expectedSize, checksum := some row.expectedChecksum }

/-- Reading a replaced version back. -/
theorem objectVersionById_replaced {s : Repository} {versions : Table ObjectVersionRecord.id}
    {version version' result : ObjectVersionRecord}
    (hversions : versions.Replaced s.objectVersions version version')
    (h : s.objectVersionById version.id = .ok result) : result = version' := by
  obtain ⟨hresult, hid⟩ := Table.find?_eq_some.mp (requireRow_eq_ok.mp h)
  exact Table.eq_of_key hresult hversions.mem_new (hid.trans hversions.key_eq.symm)

/-- `completeUpload` moves an uploaded reservation and its pending version to complete. -/
theorem completeUpload_spec {s s' : Repository} {id : String} {result : ObjectVersionRecord}
    (h : s.completeUpload id = .ok (result, s')) :
    ∃ row version reservations versions,
      s' = { s with uploadReservations := reservations, objectVersions := versions } ∧
      row.id = id ∧ row.state = .uploaded ∧ version.id = row.versionId ∧
      version.state = .pending ∧ result = completedVersion version row ∧
      s.uploadReservations.Replaced reservations row { row with state := .complete } ∧
      s.objectVersions.Replaced versions version (completedVersion version row) := by
  simp only [completeUpload, bind_eq_ok, pure_eq_ok, Prod.mk.injEq,
    reservationById_eq_ok] at h
  obtain ⟨-, -, -, ⟨row, hrow, version, hversion, rfl, hv, rfl⟩, -, -, s₁, hs₁, s₂, hs₂, v, hresult,
    rfl, rfl⟩ := h
  obtain ⟨reservations, rfl, hstate, hreservations⟩ := updateReservationState_spec hs₁ hrow
  obtain ⟨versions, rfl, hpending, hversions⟩ := completeVersion_spec hs₂ hversion
  exact ⟨row, version, reservations, versions, rfl, rfl, hstate, hv, hpending,
    objectVersionById_replaced hversions hresult, hreservations, hversions⟩

/-- `abortUpload` moves an open reservation and its pending version to aborted. -/
theorem abortUpload_spec {s s' : Repository} {id : String} {result : UploadReservationRecord}
    (h : s.abortUpload id = .ok (result, s')) :
    ∃ row version reservations versions parts,
      s' = { s with
        uploadReservations := reservations, objectVersions := versions, uploadParts := parts } ∧
      row.id = id ∧ (row.state = .requested ∨ row.state = .uploaded) ∧
      version.id = row.versionId ∧ version.state = .pending ∧
      s.uploadReservations.Replaced reservations row
        { row with state := .aborted, receivedSize := none, receivedChecksum := none } ∧
      s.objectVersions.Replaced versions version { version with state := .aborted } := by
  simp only [abortUpload, bind_eq_ok, pure_eq_ok, Prod.mk.injEq, ensure_eq_ok,
    reservationById_eq_ok] at h
  obtain ⟨-, -, -, ⟨row, hrow, version, hversion, rfl, hv, rfl⟩, -, hopen, s₁, hs₁, s₂, hs₂, -,
    rfl⟩ := h
  obtain ⟨reservations, rfl, -, hreservations⟩ := updateReservationState_spec hs₁ hrow
  obtain ⟨versions, rfl, hpending, hversions⟩ := abortVersion_spec hs₂ hversion
  exact ⟨row, version, reservations, versions, _, rfl, rfl, hopen, hv, hpending,
    hreservations, hversions⟩

/-- `renewUpload` moves the expiry of a requested reservation. -/
theorem renewUpload_spec {s s' : Repository} {id : String} {expiresAtMs : ℕ}
    (h : s.renewUpload id expiresAtMs = .ok s') :
    ∃ row reservations, s' = { s with uploadReservations := reservations } ∧
      row.id = id ∧ row.state = .requested ∧
      s.uploadReservations.Replaced reservations row { row with expiresAtMs } := by
  simp only [renewUpload, bind_eq_ok, pure_eq_ok, changedOnce_eq_ok] at h
  obtain ⟨-, -, -, -, -, hcount, rfl⟩ := h
  obtain ⟨row, hrow, rfl, hstate⟩ := Table.exists_of_count_eq_one hcount
  exact ⟨row, _, rfl, rfl, hstate, Table.replaced_update hrow
    (Table.guard_iff_eq (q := fun x => x.state = .requested) hrow hstate)⟩

/-- `recordUploadedBytes` moves a requested reservation to uploaded, with the size and
checksum it expected. -/
theorem recordUploadedBytes_spec {s s' : Repository} {id : String} {size : ℕ}
    {checksum : String} (h : s.recordUploadedBytes id size checksum = .ok s') :
    ∃ row version reservations, s' = { s with uploadReservations := reservations } ∧
      row.id = id ∧ row.state = .requested ∧ row.expectedSize = size ∧
      row.expectedChecksum = checksum ∧ version ∈ s.objectVersions ∧ version.id = row.versionId ∧
      s.uploadReservations.Replaced reservations row
        { row with
          state := .uploaded, receivedSize := some size, receivedChecksum := some checksum } := by
  simp only [recordUploadedBytes, bind_eq_ok, pure_eq_ok, ensure_eq_ok, reservationById_eq_ok,
    exists_const] at h
  obtain ⟨-, -, -, -, -, ⟨row, hrow, version, hversion, rfl, hv, rfl⟩, ⟨hsize, hchecksum⟩,
    hstate, -, -, rfl⟩ := h
  exact ⟨row, version, _, rfl, rfl, hstate, hsize, hchecksum, hversion, hv,
    Table.replaced_update hrow
      (Table.guard_iff_eq (q := fun x => x.state = .requested) hrow hstate)⟩

/-- Attaching a provider upload marks a requested reservation, or finds it marked. -/
theorem attachMultipart_spec {s s' : Repository} {id providerUploadId : String}
    {result : UploadReservationRecord}
    (h : s.attachMultipart id providerUploadId = .ok (result, s')) :
    s' = s ∨ ∃ row reservations, s' = { s with uploadReservations := reservations } ∧
      row.id = id ∧ row.state = .requested ∧
      s.uploadReservations.Replaced reservations row
        { row with providerUploadId := some providerUploadId } := by
  simp only [attachMultipart, bind_eq_ok, reservationById_eq_ok] at h
  obtain ⟨-, -, -, -, _, ⟨row, hrow, version, -, rfl, -, rfl⟩, plan, hplan, h⟩ := h
  have hstate : row.state = .requested := by
    unfold requireMultipart at hplan
    split at hplan
    · assumption
    · cases hplan
  split at h
  · simp only [bind_eq_ok, pure_eq_ok, Prod.mk.injEq] at h
    obtain ⟨-, -, -, rfl⟩ := h
    exact Or.inl rfl
  · rename_i hnone
    simp only [bind_eq_ok, pure_eq_ok, Prod.mk.injEq] at h
    obtain ⟨-, -, -, rfl⟩ := h
    exact Or.inr ⟨row, _, rfl, rfl, hstate, Table.replaced_update hrow
      (Table.guard_iff_eq (q := fun x => x.state = .requested ∧ x.providerUploadId = none) hrow
        ⟨hstate, hnone⟩)⟩

theorem upsertPart_frame {s s' : Repository} {part : NewUploadPartGrant}
    (h : s.upsertPart part = .ok s') : ∃ parts, s' = { s with uploadParts := parts } := by
  simp only [upsertPart, bind_eq_ok] at h
  obtain ⟨-, -, -, -, h⟩ := h
  split at h
  · rw [pure_eq_ok] at h
    exact ⟨_, h.symm⟩
  · simp only [bind_eq_ok, pure_eq_ok] at h
    obtain ⟨parts, -, rfl⟩ := h
    exact ⟨parts, rfl⟩

/-- Issuing part grants changes the parts alone, one after the other. -/
theorem issueUploadParts_frame {s s' : Repository} {parts : List NewUploadPartGrant}
    {issued : List UploadPartRow} (h : s.issueUploadParts parts = .ok (issued, s')) :
    ∃ rows, s' = { s with uploadParts := rows } := by
  simp only [issueUploadParts, bind_eq_ok, pure_eq_ok, Prod.mk.injEq] at h
  obtain ⟨-, -, upload, -, plan, -, t', hfold, -, rfl⟩ := h
  have hframe : ∀ (grants : List NewUploadPartGrant) (t : Repository),
      grants.foldlM (fun s part => do
        validatePart part upload plan.1 plan.2
        s.upsertPart part) t = .ok t' → ∃ rows, t' = { t with uploadParts := rows } := by
    intro grants
    induction grants with
    | nil =>
      intro t ht
      rw [List.foldlM_nil, pure_eq_ok] at ht
      exact ⟨t.uploadParts, ht.symm⟩
    | cons part grants ih =>
      intro t ht
      simp only [List.foldlM_cons, bind_eq_ok] at ht
      obtain ⟨t₁, ⟨-, -, hpart⟩, hrest⟩ := ht
      obtain ⟨_, rfl⟩ := upsertPart_frame hpart
      obtain ⟨rows, hrows⟩ := ih _ hrest
      exact ⟨rows, hrows⟩
  exact hframe parts s hfold

theorem recordUploadedPart_frame {s s' : Repository} {uploadId : String} {partNumber size : ℕ}
    {checksum : String} {providerTag : Option String}
    (h : s.recordUploadedPart uploadId partNumber size checksum providerTag = .ok s') :
    ∃ rows, s' = { s with uploadParts := rows } := by
  simp only [recordUploadedPart, bind_eq_ok, pure_eq_ok] at h
  obtain ⟨-, -, -, -, -, -, -, -, -, -, -, -, rfl⟩ := h
  exact ⟨_, rfl⟩

end Repository

end BlobYard
