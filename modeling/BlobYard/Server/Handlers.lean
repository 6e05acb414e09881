/-
The handlers that touch stored bytes.

A handler is a program of repository transactions and storage operations.  One transaction is one
turn, and so is one storage operation with all its system calls: the system calls of two operations
do not mix.  Between any two turns other handlers may run, and the server may stop; it may also stop
in the middle of an operation.

* `RepositoryCommand`, `ServerCommand` — the transactions and the operations;
* `putUploadAt`, `putPartAt` — bytes received through a capability;
* `issueUploadAt`, `issueAt`, `complete`, `abortStorage` — an upload from its reservation to its
  end, for operators and for the guests of an inbox;
* `executeDeletion`, `enforceProject`, `executeForYard` — the bytes of persisted plans;
* `ServerRequest`, `server` — the requests, and the service that answers them.
-/
import BlobYard.Lib.Faults
import BlobYard.Lib.Interleaving
import BlobYard.Repository.YardCleanup
import BlobYard.Server.Retention
import BlobYard.Server.UploadGrants
import BlobYard.Storage.Filesystem

namespace BlobYard

open Outcome

/-! ### Commands -/

/-- The transactions that the handlers ask of the repository. -/
inductive RepositoryCommand where
  | listWorkspaces
  | listProjects (workspaceId : String)
  | projectBySlugs (workspaceId : String) (workspaceSlug projectSlug : Slug)
  | uploadById (id : String)
  | uploadByCapability (capabilityHash : String) (nowMs : ℕ)
  | inboxUploadById (capabilityHash uploadId : String) (nowMs : ℕ)
  | uploadPartByCapability (capabilityHash : String) (nowMs : ℕ)
  | listUploadParts (uploadId : String)
  | reserveUpload (value : NewUploadReservation)
  | reserveInboxUpload (upload : NewInboxUpload) (value : NewUploadReservation)
  | renewUpload (id : String) (expiresAtMs : ℕ)
  | attachMultipart (id providerUploadId : String)
  | recordUploadedPart (uploadId : String) (partNumber size : ℕ) (checksum : String)
    (providerTag : Option String)
  | recordUploadedBytes (id : String) (size : ℕ) (checksum : String)
  | completeUpload (id : String)
  | completeInboxUpload (capabilityHash uploadId : String) (nowMs : ℕ) (event : NewAuditEvent)
  | abortUpload (id : String)
  | abortInboxUpload (capabilityHash uploadId : String) (nowMs : ℕ)
  | beginObjectDeletion (value : NewObjectDeletion)
  | beginRetention (projectId runId actor requestId : String) (startedAtMs : ℕ)
  | failRetention (runId : String) (completedAtMs : ℕ)
  | planYardCleanup (deployId : String) (createdAtMs : ℕ)
  | pendingYardCleanups (yardId : Option String)
  | finishDeletion (operationId : String) (completedAtMs : ℕ) (event : NewAuditEvent)
  | recordAudit (event : NewAuditEvent)
  /-- Any change of the tables that hold neither versions nor reservations nor plans. -/
  | other (change : Repository)

namespace RepositoryCommand

/-- What each transaction returns. -/
@[reducible] def Value : RepositoryCommand → Type
  | listWorkspaces => List WorkspaceRecord
  | listProjects _ => List ProjectRecord
  | projectBySlugs _ _ _ => ProjectRecord
  | uploadById _ => UploadReservationRecord
  | uploadByCapability _ _ => UploadReservationRecord
  | inboxUploadById _ _ _ => UploadReservationRecord
  | uploadPartByCapability _ _ => UploadReservationRecord × UploadPartRow
  | listUploadParts _ => List UploadPartRow
  | reserveUpload _ => UploadReservationRecord
  | reserveInboxUpload _ _ => UploadReservationRecord
  | attachMultipart _ _ => UploadReservationRecord
  | completeUpload _ => ObjectVersionRecord
  | completeInboxUpload _ _ _ _ => ObjectVersionRecord
  | abortUpload _ => UploadReservationRecord
  | abortInboxUpload _ _ _ => UploadReservationRecord
  | beginObjectDeletion _ => DeletionPlan
  | beginRetention _ _ _ _ _ => DeletionPlan
  | pendingYardCleanups _ => List YardCleanupPlan
  | _ => Unit

/-- A transaction that reads. -/
def reading {α : Type} (s : Repository) (r : Except RepositoryError α) :
    Except RepositoryError (α × Repository) :=
  (fun a => (a, s)) <$> r

/-- A transaction that returns nothing. -/
def writing (r : Except RepositoryError Repository) : Except RepositoryError (Unit × Repository) :=
  Prod.mk () <$> r

def run (s : Repository) : (c : RepositoryCommand) → Except RepositoryError (c.Value × Repository)
  | listWorkspaces => reading s (.ok (orderBy (fun w => w.slug.asStr) s.workspaces.rows))
  | listProjects workspaceId => reading s do
    validateText workspaceId
    return orderBy (fun p => p.slug.asStr) (s.projects.select fun p => p.workspaceId = workspaceId)
  | projectBySlugs workspaceId workspaceSlug projectSlug =>
    reading s <| requireRow <|
      ((s.workspaces.select fun w => w.slug = workspaceSlug).head?.filter fun w =>
        w.id = workspaceId).bind fun w =>
          (s.projects.select fun p => p.workspaceId = w.id ∧ p.slug = projectSlug).head?
  | uploadById id => reading s (s.uploadById id)
  | uploadByCapability capabilityHash nowMs => reading s (s.uploadByCapability capabilityHash nowMs)
  | inboxUploadById capabilityHash uploadId nowMs =>
    reading s (s.inboxUploadById capabilityHash uploadId nowMs)
  | uploadPartByCapability capabilityHash nowMs =>
    reading s (s.uploadPartByCapability capabilityHash nowMs)
  | listUploadParts uploadId => reading s (s.listUploadParts uploadId)
  | reserveUpload value => s.reserveUpload value
  | reserveInboxUpload upload value => s.reserveInboxUpload upload value
  | renewUpload id expiresAtMs => writing (s.renewUpload id expiresAtMs)
  | attachMultipart id providerUploadId => s.attachMultipart id providerUploadId
  | recordUploadedPart uploadId partNumber size checksum providerTag =>
    writing (s.recordUploadedPart uploadId partNumber size checksum providerTag)
  | recordUploadedBytes id size checksum => writing (s.recordUploadedBytes id size checksum)
  | completeUpload id => s.completeUpload id
  | completeInboxUpload capabilityHash uploadId nowMs event =>
    s.completeInboxUpload capabilityHash uploadId nowMs event
  | abortUpload id => s.abortUpload id
  | abortInboxUpload capabilityHash uploadId nowMs =>
    s.abortInboxUpload capabilityHash uploadId nowMs
  | beginObjectDeletion value => s.beginObjectDeletion value
  | beginRetention projectId runId actor requestId startedAtMs =>
    s.beginRetention projectId runId actor requestId startedAtMs
  | failRetention runId completedAtMs => writing (s.failRetention runId completedAtMs)
  | planYardCleanup deployId createdAtMs => writing (s.planYardCleanup deployId createdAtMs)
  | pendingYardCleanups yardId => reading s (s.pendingYardCleanups yardId)
  | finishDeletion operationId completedAtMs event =>
    writing (s.finishDeletion operationId completedAtMs event)
  | recordAudit event => writing (s.insertAudit event)
  | other change =>
    .ok ((), { change with
      objectVersions := s.objectVersions
      uploadReservations := s.uploadReservations
      deletionOperations := s.deletionOperations
      deletionItems := s.deletionItems })

end RepositoryCommand

/-- What a handler can do in one step.  The provider draws the identifier of a multipart upload
itself. -/
inductive ServerCommand where
  | repository (c : RepositoryCommand)
  | storage (c : StorageCommand)
  | beginMultipart (key : StorageKey)

@[reducible] def ServerCommand.Response : ServerCommand → Type
  | repository c => Except RepositoryError c.Value
  | storage c => c.Response
  | beginMultipart _ => Except StorageError String

abbrev Handler (α : Type) := Procedure ServerCommand ServerCommand.Response ApiError α

namespace Handlers

/-- A transaction and its error, if it fails. -/
def tryTransact (c : RepositoryCommand) : Handler (Except RepositoryError c.Value) :=
  .ask (ServerCommand.repository c)

/-- A transaction with its error mapped. -/
def transactAs (rename : RepositoryError → ApiError) (c : RepositoryCommand) : Handler c.Value :=
  .attempt rename (Program.call (ServerCommand.repository c))

/-- A transaction with its error mapped by `ApiError::from_repository`. -/
def transact (c : RepositoryCommand) : Handler c.Value := transactAs ApiError.fromRepository c

/-- `ApiError::conceal_capability_error`. -/
def concealCapabilityError : RepositoryError → ApiError
  | .notFound | .conflict | .invalidInput => .notFound
  | .schemaTooNew | .unavailable => .internal

/-- A storage operation and its error, if it fails. -/
def tryOperate (c : StorageCommand) : Handler (Except StorageError c.Value) :=
  .ask (ServerCommand.storage c)

/-- A storage operation with its error mapped by `ApiError::from_storage`. -/
def operate (c : StorageCommand) : Handler c.Value :=
  .attempt ApiError.fromStorage (Program.call (ServerCommand.storage c))

def beginMultipart (key : StorageKey) : Handler String :=
  .attempt ApiError.fromStorage (Program.call (ServerCommand.beginMultipart key))

/-- `ignore_missing`, and `cleanup_created`. -/
def ignoreMissing : Except StorageError Unit → Except ApiError Unit
  | .ok () | .error .notFound => .ok ()
  | .error e => .error (ApiError.fromStorage e)

/-- The storage key of a version. -/
def storageKey (version : ObjectVersionRecord) : Handler StorageKey :=
  .lift ((StorageKey.new version.storageKey).mapError fun _ => .internal)

/-- The event of `record_action`. -/
def actionEvent (principal : LocalApiTokenRecord) (action targetType : String)
    (metadata : List (String × AuditValue)) (draw : Server.RequestDraw) : NewAuditEvent where
  id := draw.eventId
  workspaceId := principal.workspaceId
  actor := principal.id
  action := action
  requestId := draw.requestId
  targetType := targetType
  metadata := metadata
  createdAtMs := draw.nowMs

/-- `record_action`, for an upload. -/
def recordUploadAction (principal : LocalApiTokenRecord) (action uploadId : String)
    (draw : Server.RequestDraw) : Handler Unit :=
  transact (.recordAudit (actionEvent principal action "upload" [("uploadId", .string uploadId)]
    draw))

/-! ### Receiving bytes -/

/-- `stage_body`: the chunks of a body, of which `none` is one that fails to arrive. -/
def stageBody (expectedSize : ℕ) : ℕ → List (Option Bytes) → Except ApiError Unit
  | received, [] => ensure (received = expectedSize) .invalidRequest
  | _, none :: _ => .error .invalidRequest
  | received, some chunk :: chunks => do
    ensure (chunk.length ≤ expectedSize - received) .invalidRequest
    stageBody expectedSize (received + chunk.length) chunks

/-- The bytes of a body. -/
def bodyBytes (chunks : List (Option Bytes)) : Bytes := (chunks.filterMap id).flatten

/-- `existing`: an object is there already, which may be this one. -/
def existing (key : StorageKey) (content : Bytes) (checksum : ObjectChecksum) :
    Handler StorageMetadata := do
  let stored ← operate (.head key)
  .lift (ensure (stored.size = content.length ∧ stored.checksum = checksum)
    (ApiError.fromStorage .integrityMismatch))
  return stored

def store (key : StorageKey) (content : Bytes) (checksum : ObjectChecksum) :
    Handler StorageMetadata := do
  let answer ← tryOperate (.put key content (some checksum))
  match answer with
  | .ok metadata => return metadata
  | .error .conflict => existing key content checksum
  | .error e => .fail (ApiError.fromStorage e)

def receive (reservation : UploadReservationRecord) (chunks : List (Option Bytes)) :
    Handler StorageMetadata := do
  .lift (stageBody reservation.expectedSize 0 chunks)
  let key ← .lift ((StorageKey.new reservation.version.storageKey).mapError ApiError.fromStorage)
  let checksum ←
    .lift ((ObjectChecksum.new reservation.expectedChecksum).mapError ApiError.fromStorage)
  store key (bodyBytes chunks) checksum

def putUploadAt (capabilityHash : String) (nowMs : ℕ) (chunks : List (Option Bytes)) :
    Handler Unit := do
  let reservation ← transactAs concealCapabilityError
    (.uploadByCapability capabilityHash nowMs)
  let metadata ← receive reservation chunks
  transact (.recordUploadedBytes reservation.id metadata.size metadata.checksum.asStr)

def receivePart (reservation : UploadReservationRecord) (part : UploadPartRow)
    (chunks : List (Option Bytes)) : Handler MultipartPart := do
  .lift (stageBody part.expectedSize 0 chunks)
  let upload ← .lift (ofOption .internal reservation.providerUploadId)
  operate (.putPart upload part.partNumber (bodyBytes chunks))

def putPartAt (capabilityHash : String) (nowMs : ℕ) (chunks : List (Option Bytes)) :
    Handler Unit := do
  let (upload, part) ← transactAs concealCapabilityError
    (.uploadPartByCapability capabilityHash nowMs)
  let metadata ← receivePart upload part chunks
  transact (.recordUploadedPart upload.id part.partNumber metadata.size metadata.checksum.asStr
    metadata.providerTag)

/-! ### Multipart uploads -/

/-- `require_provider`. -/
def requireProvider (reservation : UploadReservationRecord) :
    Except ApiError UploadReservationRecord := do
  ensure (reservation.strategy = .multipart ∧ reservation.providerUploadId.isSome) .conflict
  return reservation

/-- `cleanup_created`. -/
def cleanupCreated (upload : String) : Handler Unit := do
  let answer ← tryOperate (.abortMultipart upload)
  .lift (ignoreMissing answer)

/-- Attaches a multipart upload that was just begun; one that was attached meanwhile wins. -/
def attachCreated (reservation : UploadReservationRecord) (created : String) :
    Handler UploadReservationRecord := do
  let answer ← tryTransact (.attachMultipart reservation.id created)
  match answer with
  | .ok attached => return attached
  | .error error =>
    cleanupCreated created
    if error = .conflict then
      let record ← transact (.uploadById reservation.id)
      .lift (requireProvider record)
    else .fail (ApiError.fromRepository error)

def ensureProvider (reservation : UploadReservationRecord) : Handler UploadReservationRecord :=
  if reservation.strategy = .single ∨ reservation.providerUploadId.isSome then pure reservation
  else do
    let key ← storageKey reservation.version
    -- the expected metadata is checked, but the filesystem does not need it
    let _ ← .lift ((ObjectChecksum.new reservation.expectedChecksum).mapError ApiError.fromStorage)
    let created ← beginMultipart key
    attachCreated reservation created

/-- A part as the client names it on completion. -/
structure CompletedPart where
  partNumber : ℕ
  etag : String

/-- One turn of the loop of `completion_parts`. -/
def completionPart (client : CompletedPart) (record : UploadPartRow) (number : ℕ) :
    Except ApiError MultipartPart := do
  let checksum ← ofOption .conflict record.receivedChecksum
  let size ← ofOption .conflict record.receivedSize
  ensure (client.partNumber = number ∧ record.partNumber = number ∧
    client.etag = "\"" ++ checksum ++ "\"" ∧ size = record.expectedSize) .invalidRequest
  let sum ← (ObjectChecksum.new checksum).mapError ApiError.fromStorage
  return { number, size, checksum := sum, providerTag := record.providerTag }

def completionParts (upload : UploadReservationRecord) (submitted : List CompletedPart)
    (stored : List UploadPartRow) : Except ApiError (List MultipartPart) := do
  let count ← ofOption .conflict upload.partCount
  ensure (count ≤ 10000) .conflict
  ensure (submitted.length = count ∧ stored.length = count) .conflict
  ((submitted.zip stored).zipIdx 1).mapM fun turn => completionPart turn.1.1 turn.1.2 turn.2

def existingMetadata (upload : UploadReservationRecord) : Handler StorageMetadata := do
  let key ← storageKey upload.version
  operate (.head key)

/-- `verify_complete`. -/
def verifyComplete (upload : UploadReservationRecord) (metadata : StorageMetadata) :
    Except ApiError Unit :=
  ensure (metadata.size = upload.expectedSize ∧
    metadata.checksum.asStr = upload.expectedChecksum) .invalidRequest

/-- `complete_multipart`, or what an earlier completion has left. -/
def completeStored (upload : UploadReservationRecord) (provider : String)
    (parts : List MultipartPart) : Handler StorageMetadata := do
  let answer ← tryOperate (.completeMultipart provider parts)
  match answer with
  | .ok metadata => return metadata
  | .error .notFound => existingMetadata upload
  | .error e => .fail (ApiError.fromStorage e)

def complete (upload : UploadReservationRecord) (submitted : List CompletedPart) : Handler Unit :=
  if upload.strategy = .single then .lift (ensure (submitted.length = 0) .invalidRequest)
  else do
    let stored ← transact (.listUploadParts upload.id)
    let parts ← .lift (completionParts upload submitted stored)
    let provider ← .lift (ofOption .conflict upload.providerUploadId)
    let metadata ← completeStored upload provider parts
    .lift (verifyComplete upload metadata)
    transact (.recordUploadedBytes upload.id metadata.size metadata.checksum.asStr)

/-- The multipart upload of a reservation, if it has one, aborted. -/
def abortProvider (upload : UploadReservationRecord) : Handler Unit :=
  match upload.providerUploadId with
  | some provider => cleanupCreated provider
  | none => pure ()

def abortStorage (upload : UploadReservationRecord) : Handler Unit := do
  abortProvider upload
  let key ← storageKey upload.version
  let answer ← tryOperate (.delete key)
  .lift (ignoreMissing answer)

/-! ### Uploads of operators -/

/-- `replay`. -/
def replay (value : NewUploadReservation) (nowMs expiresAtMs : ℕ) :
    Handler UploadReservationRecord := do
  let record ← transact (.uploadById value.id)
  .lift (ensure (record.state = .requested ∧ Server.SameRequest record value) .conflict)
  if record.expiresAtMs ≤ nowMs then
    transact (.renewUpload record.id expiresAtMs)
    transact (.uploadById record.id)
  else return record

/-- `reserve_or_replay`. -/
def reserveOrReplay (value : NewUploadReservation) (nowMs expiresAtMs : ℕ) :
    Handler UploadReservationRecord := do
  let answer ← tryTransact (.reserveUpload value)
  match answer with
  | .ok record => return record
  | .error .conflict => replay value nowMs expiresAtMs
  | .error e => .fail (ApiError.fromRepository e)

section Digests

variable [Digest]

/-- `issue_upload_at`. -/
def issueUploadAt (capabilityKey : String) (principal : LocalApiTokenRecord) (call : UploadCall)
    (project : ProjectRecord) (source : ObjectSource) (draw : Server.RequestDraw) : Handler Unit := do
  .lift (ensure (call.nowMs + Server.grantLifetimeMs ≤ u64Max) .internal)
  let uploadId := Server.stableUploadId principal.id call.idempotency
  let capability := Server.stableCapability capabilityKey principal.id call.idempotency
  let input := Server.reservationInput call.request project uploadId capability
    (call.nowMs + Server.grantLifetimeMs) source
  .lift (Server.validateUploadStrategy input)
  let reservation ← reserveOrReplay input call.nowMs (call.nowMs + Server.grantLifetimeMs)
  let _ ← ensureProvider reservation
  recordUploadAction principal "transfer.upload_requested" uploadId draw

end Digests

/-- `authorize_reservation` with `authorize_project_binding`. -/
def authorizeUpload (principal : LocalApiTokenRecord) (uploadId : String) :
    Handler ProjectRecord := do
  let reservation ← transact (.uploadById uploadId)
  let projects ← transact (.listProjects principal.workspaceId)
  let project ← .lift (ofOption .notFound
    (projects.find? fun p => p.id = reservation.version.projectId))
  .lift (Server.authorizeProjectBinding principal project)
  return project

/-- `workspace_by_id`. -/
def workspaceById (id : String) : Handler WorkspaceRecord := do
  let workspaces ← transact .listWorkspaces
  .lift (ofOption .notFound (workspaces.find? fun w => w.id = id))

def completeOperatorUpload (principal : LocalApiTokenRecord) (uploadId : String)
    (parts : List CompletedPart) (draw : Server.RequestDraw) : Handler Unit := do
  let _ ← authorizeUpload principal uploadId
  let reservation ← transact (.uploadById uploadId)
  complete reservation parts
  let _ ← workspaceById principal.workspaceId
  let _ ← transact (.completeUpload uploadId)
  recordUploadAction principal "transfer.upload_completed" uploadId draw

def abortOperatorUpload (principal : LocalApiTokenRecord) (uploadId : String)
    (draw : Server.RequestDraw) : Handler Unit := do
  let _ ← authorizeUpload principal uploadId
  let reservation ← transact (.uploadById uploadId)
  abortStorage reservation
  let _ ← transact (.abortUpload uploadId)
  recordUploadAction principal "transfer.upload_aborted" uploadId draw

/-! ### Uploads of guests -/

/-- A transaction with its error mapped by `ApiError::concealed_capability`. -/
def concealed (c : RepositoryCommand) : Handler c.Value := transactAs ApiError.concealedCapability c

/-- `inbox_uploads::reservation`. -/
def guestUpload (guest : InboxGuest) (uploadId : String) (nowMs : ℕ) :
    Handler UploadReservationRecord :=
  concealed (.inboxUploadById guest.capabilityHash.asStr uploadId nowMs)

/-- `inbox_uploads::replay`. -/
def guestReplay (guest : InboxGuest) (value : NewUploadReservation) (nowMs expiresAtMs : ℕ) :
    Handler UploadReservationRecord := do
  let record ← guestUpload guest value.id nowMs
  .lift (ensure (record.state = .requested ∧ Server.SameRequest record value) .conflict)
  if record.expiresAtMs ≤ nowMs then
    transact (.renewUpload record.id expiresAtMs)
    guestUpload guest record.id nowMs
  else return record

/-- `inbox_uploads::reserve_or_replay`. -/
def guestReserveOrReplay (guest : InboxGuest) (value : NewUploadReservation)
    (nowMs expiresAtMs : ℕ) : Handler UploadReservationRecord := do
  let upload : NewInboxUpload :=
    { capabilityHash := guest.capabilityHash.asStr, fingerprintHash := guest.fingerprintHash.asStr
      nowMs }
  let answer ← tryTransact (.reserveInboxUpload upload value)
  match answer with
  | .ok record => return record
  | .error .conflict => guestReplay guest value nowMs expiresAtMs
  | .error e => .fail (ApiError.fromRepository e)

section Digests

variable [Digest]

/-- `inbox_uploads::issue_at`, from the scoped request on. -/
def issueAt (capabilityKey : String) (guest : InboxGuest) (call : UploadCall)
    (project : ProjectRecord) : Handler Unit := do
  .lift (ensure (call.nowMs + Server.grantLifetimeMs ≤ u64Max) .internal)
  let expiresAtMs := min (call.nowMs + Server.grantLifetimeMs) guest.inbox.expiresAtMs
  let identity := (UploadOwner.guest guest.inbox.id guest.fingerprintHash).identity
  let uploadId := Server.stableUploadId identity call.idempotency
  let capability := Server.stableCapability capabilityKey identity call.idempotency
  let input := { Server.reservationInput call.request project uploadId capability expiresAtMs
    .inbox with createdAtMs := call.nowMs }
  .lift (Server.validateUploadStrategy input)
  let reservation ← guestReserveOrReplay guest input call.nowMs expiresAtMs
  let _ ← ensureProvider reservation

end Digests

/-- `completion_event`. -/
def completionEvent (guest : InboxGuest) (reservation : UploadReservationRecord)
    (draw : Server.RequestDraw) : NewAuditEvent where
  id := draw.eventId
  workspaceId := guest.inbox.workspaceId
  actor := guest.inbox.id
  action := "inbox.uploaded"
  requestId := draw.requestId
  targetType := "object_version"
  metadata := [("byteSize", .number reservation.expectedSize), ("source", .string "inbox")]
  createdAtMs := draw.nowMs

/-- `inbox_uploads::project`. -/
def inboxProject (inbox : InboxRecord) : Handler ProjectRecord := do
  let projects ← transact (.listProjects inbox.workspaceId)
  .lift (ofOption .notFound (projects.find? fun p => p.id = inbox.projectId))

/-- `inbox_uploads::complete_at`. -/
def completeAt (guest : InboxGuest) (uploadId : String) (parts : List CompletedPart)
    (draw : Server.RequestDraw) : Handler Unit := do
  let reservation ← guestUpload guest uploadId draw.nowMs
  let _ ← workspaceById guest.inbox.workspaceId
  let _ ← inboxProject guest.inbox
  complete reservation parts
  let _ ← concealed (.completeInboxUpload guest.capabilityHash.asStr uploadId draw.nowMs
    (completionEvent guest reservation draw))

/-- `inbox_uploads::abort_at`. -/
def abortAt (guest : InboxGuest) (uploadId : String) (nowMs : ℕ) : Handler Unit := do
  let reservation ← guestUpload guest uploadId nowMs
  abortStorage reservation
  let _ ← concealed (.abortInboxUpload guest.capabilityHash.asStr uploadId nowMs)

/-! ### Persisted plans -/

/-- The loop of `execute_deletion`. -/
def deleteItems : List DeletionItem → Handler Unit
  | [] => pure ()
  | item :: items => do
    let key ← .lift ((StorageKey.new item.storageKey).mapError fun _ => .internal)
    let answer ← tryOperate (.delete key)
    .lift (ignoreMissing answer)
    deleteItems items

def executeDeletion (plan : DeletionPlan) (completedAtMs : ℕ) (event : NewAuditEvent) :
    Handler Unit :=
  if plan.complete then pure ()
  else do
    deleteItems plan.items
    transact (.finishDeletion plan.id completedAtMs event)

/-- `delete_object_at`. -/
def deleteObjectAt (principal : LocalApiTokenRecord) (request : Server.DeleteObjectRequest)
    (draw : Server.RequestDraw) : Handler Unit := do
  let project ← transact (.projectBySlugs principal.workspaceId request.workspaceSlug
    request.projectSlug)
  .lift (Server.authorizeProjectBinding principal project)
  let target : ObjectDeletionTarget :=
    { projectId := project.id, objectPath := request.logicalPath, version := request.version }
  let plan ← transact (.beginObjectDeletion
    { id := draw.operationId, target, actor := principal.id, requestId := draw.requestId
      createdAtMs := draw.nowMs })
  executeDeletion plan draw.nowMs (Server.deletionEvent principal target plan draw)

/-- The loop of `enforce_plan_with_clock`, and its end. -/
def deleteCounted (plan : DeletionPlan) (workspaceId : String)
    (draw : Server.EnforcementDraw) : ℕ → List DeletionItem → Handler Unit
  | deletedCount, [] => do
    let completedAtMs ← .lift (ofOption .internal draw.completedAtMs)
    transact (.finishDeletion plan.id completedAtMs
      (Server.retentionEvent workspaceId plan deletedCount draw.eventId completedAtMs))
  | deletedCount, item :: items => do
    let key ← .lift ((StorageKey.new item.storageKey).mapError fun _ => .internal)
    let answer ← tryOperate (.delete key)
    match answer with
    | .ok () | .error .notFound =>
      deleteCounted plan workspaceId draw (min (deletedCount + 1) u64Max) items
    | .error _ =>
      transact (.failRetention plan.id draw.startedAtMs)
      .fail .internal

/-- `enforce_project_with_clock`; the errors of the server's own work are all `internal` here. -/
def enforceProject (workspaceId projectId : String) (draw : Server.EnforcementDraw) :
    Handler Unit := do
  let plan ← transact (.beginRetention projectId draw.runId "system:retention" draw.requestId
    draw.startedAtMs)
  if plan.complete then return ()
  else deleteCounted plan workspaceId draw 0 plan.items

/-- The event of a finished cleanup. -/
def cleanupEvent (cleanup : YardCleanupPlan) (eventId : String) (completedAtMs : ℕ) :
    NewAuditEvent where
  id := eventId
  workspaceId := cleanup.workspaceId
  actor := cleanup.deletion.actor
  action := "yard.cleanup_completed"
  requestId := cleanup.deletion.requestId
  targetType := "yard_deploy"
  metadata := [("deployId", .string cleanup.deployId)]
  createdAtMs := completedAtMs

/-- The loop of `execute_for_yard` and of `resume`; every event has an identifier of its own. -/
def executeCleanups (eventIds : ℕ → String) (completedAtMs : ℕ) :
    List YardCleanupPlan → Handler Unit
  | [] => pure ()
  | cleanup :: cleanups => do
    executeDeletion cleanup.deletion completedAtMs
      (cleanupEvent cleanup (eventIds cleanups.length) completedAtMs)
    executeCleanups eventIds completedAtMs cleanups

/-- `execute_for_yard`, and `resume` for all yards. -/
def executeForYard (yardId : Option String) (eventIds : ℕ → String) (completedAtMs : ℕ) :
    Handler Unit := do
  let cleanups ← transact (.pendingYardCleanups yardId)
  executeCleanups eventIds completedAtMs cleanups

end Handlers

/-! ### The service -/

/-- The requests that touch stored bytes, and the transactions of all others. -/
inductive ServerRequest where
  | issueUpload (principal : LocalApiTokenRecord) (call : UploadCall) (project : ProjectRecord)
    (source : ObjectSource) (draw : Server.RequestDraw)
  | issueInboxUpload (guest : InboxGuest) (call : UploadCall) (project : ProjectRecord)
  | putUpload (capabilityHash : String) (nowMs : ℕ) (chunks : List (Option Bytes))
  | putPart (capabilityHash : String) (nowMs : ℕ) (chunks : List (Option Bytes))
  | completeUpload (principal : LocalApiTokenRecord) (uploadId : String)
    (parts : List Handlers.CompletedPart) (draw : Server.RequestDraw)
  | completeInboxUpload (guest : InboxGuest) (uploadId : String)
    (parts : List Handlers.CompletedPart) (draw : Server.RequestDraw)
  | abortUpload (principal : LocalApiTokenRecord) (uploadId : String) (draw : Server.RequestDraw)
  | abortInboxUpload (guest : InboxGuest) (uploadId : String) (nowMs : ℕ)
  | deleteObject (principal : LocalApiTokenRecord) (request : Server.DeleteObjectRequest)
    (draw : Server.RequestDraw)
  | enforceProject (workspaceId projectId : String) (draw : Server.EnforcementDraw)
  | planYardCleanup (deployId : String) (createdAtMs : ℕ)
  | executeForYard (yardId : Option String) (eventIds : ℕ → String) (completedAtMs : ℕ)
  | other (change : Repository)

namespace ServerRequest

section Digests

variable [Digest]

def handler (capabilityKey : String) : ServerRequest → Handler Unit
  | issueUpload principal call project source draw =>
    Handlers.issueUploadAt capabilityKey principal call project source draw
  | issueInboxUpload guest call project => Handlers.issueAt capabilityKey guest call project
  | putUpload capabilityHash nowMs chunks => Handlers.putUploadAt capabilityHash nowMs chunks
  | putPart capabilityHash nowMs chunks => Handlers.putPartAt capabilityHash nowMs chunks
  | completeUpload principal uploadId parts draw =>
    Handlers.completeOperatorUpload principal uploadId parts draw
  | completeInboxUpload guest uploadId parts draw => Handlers.completeAt guest uploadId parts draw
  | abortUpload principal uploadId draw => Handlers.abortOperatorUpload principal uploadId draw
  | abortInboxUpload guest uploadId nowMs => Handlers.abortAt guest uploadId nowMs
  | deleteObject principal request draw => Handlers.deleteObjectAt principal request draw
  | enforceProject workspaceId projectId draw =>
    Handlers.enforceProject workspaceId projectId draw
  | planYardCleanup deployId createdAtMs =>
    Handlers.transact (.planYardCleanup deployId createdAtMs)
  | executeForYard yardId eventIds completedAtMs =>
    Handlers.executeForYard yardId eventIds completedAtMs
  | other change => Handlers.transact (.other change)

end Digests

/-- The upload that a request asks to abort. -/
def aborted : ServerRequest → List String
  | abortUpload _ uploadId _ => [uploadId]
  | abortInboxUpload _ uploadId _ => [uploadId]
  | _ => []

end ServerRequest

/-- The repository and the files, with the number of multipart uploads begun so far and the uploads
that a request asked to abort. -/
structure Site where
  repository : Repository
  files : Filesystem
  draws : ℕ
  aborts : List String

/-- An empty repository and fresh directories. -/
def Site.fresh : Site where
  repository := .empty
  files := .fresh
  draws := 0
  aborts := []

namespace Site

/-- A transaction, unless it fails altogether. -/
def transact (s : Site) (c : RepositoryCommand) : Except RepositoryError c.Value × Site :=
  match c.run s.repository with
  | .ok (value, repository) => (.ok value, { s with repository })
  | .error e => (.error e, s)

/-- An operation on the files, of which some system calls fail. -/
def operate {α : Type} (s : Site) (x : FileAction α) (fails : List Bool) :
    Except StorageError α × Site :=
  let answer := x.program.execWith Filesystem.machine fails s.files
  (answer.1, { s with files := answer.2 })

/-- An operation that the server stops in. -/
def halt {α : Type} (s : Site) (x : FileAction α) (fails : List Bool) : Site :=
  { s with files := x.program.haltWith Filesystem.machine fails s.files }

variable [Digest]

/-- What a command does; a transaction fails where the first call does. -/
def perform (ids : ℕ → String) : (c : ServerCommand) → List Bool → Site → c.Response × Site
  | .repository c, fails, s =>
    if fails.head? = some true then (.error .unavailable, s) else s.transact c
  | .storage c, fails, s => s.operate (FilesystemStorage.provider c) fails
  | .beginMultipart key, fails, s =>
    { s with draws := s.draws + 1 }.operate
      (FilesystemStorage.provider (.beginMultipart (ids s.draws) key)) fails

/-- What a command leaves behind that the server stops in: a transaction is done or it is not. -/
def crash (ids : ℕ → String) : ServerCommand → List Bool → Site → Site
  | .repository c, fails, s => if fails.head? = some true then s else (s.transact c).2
  | .storage c, fails, s => s.halt (FilesystemStorage.provider c) fails
  | .beginMultipart key, fails, s =>
    { s with draws := s.draws + 1 }.halt
      (FilesystemStorage.provider (.beginMultipart (ids s.draws) key)) fails

variable {ids : ℕ → String} {c : RepositoryCommand} {fails : List Bool} {s : Site}

theorem perform_repository : perform ids (.repository c) fails s =
    if fails.head? = some true then (.error .unavailable, s) else s.transact c := rfl

theorem crash_repository : crash ids (.repository c) fails s =
    if fails.head? = some true then s else (s.transact c).2 := rfl

end Site

/-- The server; the provider draws `ids`, one for each multipart upload. -/
def server [Digest] (capabilityKey : String) (ids : ℕ → String) :
    Service ServerCommand ServerCommand.Response Site ServerRequest (List Bool) where
  perform := Site.perform ids
  crash := Site.crash ids
  arrive request s := { s with aborts := request.aborted ++ s.aborts }
  body request := (request.handler capabilityKey).program.bind fun _ => .done ()

end BlobYard
