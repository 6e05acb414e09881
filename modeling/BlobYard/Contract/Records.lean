/-
The records of the service contracts and the rows of the metadata schema.

Each structure carries the columns of one table (or one contract record) under
the source's names.  A row that the contract already describes completely is used
as the row; where a table has columns the record does not expose, the row has a
structure of its own (`UploadReservationRow`, `UploadPartRow`, `ShareRow`, ...).
Times are Unix milliseconds.
-/
import BlobYard.Contract.Text

namespace BlobYard

/-! ### Audit -/

/-- A value of the metadata of an audit event. -/
inductive AuditValue where
  | string (value : String)
  | number (value : ℕ)
  | boolean (value : Bool)
  | null
  deriving DecidableEq

/-- An audit event before it has its number. -/
structure NewAuditEvent where
  id : String
  workspaceId : String
  actor : String
  action : String
  requestId : String
  targetType : String
  metadata : List (String × AuditValue)
  createdAtMs : ℕ
  deriving DecidableEq

/-- An audit event under the number that orders the log. -/
structure AuditEventRecord where
  sequence : ℕ
  event : NewAuditEvent
  deriving DecidableEq

/-! ### Workspaces, projects and objects -/

/-- A workspace and the slug it is addressed by. -/
structure WorkspaceRecord where
  id : String
  name : String
  slug : Slug
  deriving DecidableEq

/-- A project of a workspace. -/
structure ProjectRecord where
  id : String
  workspaceId : String
  name : String
  slug : Slug
  deriving DecidableEq

/-- The state of an object version. -/
inductive UploadState where
  | pending
  | complete
  | aborted
  deriving DecidableEq

/-- Where an object came from. -/
inductive ObjectSource where
  | ci
  | cli
  | inbox
  | preview
  | web
  deriving DecidableEq

/-- One version of an object; size and checksum are known once it is complete. -/
structure ObjectVersionRecord where
  id : String
  projectId : String
  objectPath : String
  version : ℕ
  storageKey : String
  state : UploadState
  size : Option ℕ
  checksum : Option String
  createdAtMs : ℕ
  source : ObjectSource
  gitRepository : Option String
  gitCommit : Option String
  gitBranch : Option String
  deriving DecidableEq

/-! ### Transfers -/

/-- Whether the bytes arrive in one request or in parts. -/
inductive ReservationStrategy where
  | single
  | multipart
  deriving DecidableEq

/-- The states of an upload, of which the last two are final. -/
inductive ReservationState where
  | requested
  | uploaded
  | complete
  | aborted
  deriving DecidableEq

/-- The reservation of a version for bytes of a known size and checksum. -/
structure NewUploadReservation where
  id : String
  projectId : String
  objectPath : String
  filename : String
  contentType : String
  expectedSize : ℕ
  expectedChecksum : String
  storageKey : String
  capabilityHash : String
  expiresAtMs : ℕ
  createdAtMs : ℕ
  source : ObjectSource
  gitRepository : Option String
  gitCommit : Option String
  gitBranch : Option String
  strategy : ReservationStrategy
  partSize : Option ℕ
  partCount : Option ℕ
  deriving DecidableEq

/-- A row of `upload_reservations`. -/
structure UploadReservationRow where
  id : String
  versionId : String
  filename : String
  contentType : String
  expectedSize : ℕ
  expectedChecksum : String
  capabilityHash : String
  expiresAtMs : ℕ
  state : ReservationState
  receivedSize : Option ℕ
  receivedChecksum : Option String
  strategy : ReservationStrategy
  partSize : Option ℕ
  partCount : Option ℕ
  providerUploadId : Option String
  deriving DecidableEq

/-- A reservation joined with the version it reserves. -/
structure UploadReservationRecord where
  id : String
  version : ObjectVersionRecord
  filename : String
  contentType : String
  expectedSize : ℕ
  expectedChecksum : String
  expiresAtMs : ℕ
  state : ReservationState
  strategy : ReservationStrategy
  partSize : Option ℕ
  partCount : Option ℕ
  providerUploadId : Option String
  deriving DecidableEq

/-- The permission to send one part of an upload. -/
structure NewUploadPartGrant where
  uploadId : String
  partNumber : ℕ
  expectedSize : ℕ
  capabilityHash : String
  expiresAtMs : ℕ
  deriving DecidableEq

/-- A row of `upload_parts`; an uploaded part has its received size and checksum. -/
structure UploadPartRow where
  uploadId : String
  partNumber : ℕ
  expectedSize : ℕ
  capabilityHash : String
  expiresAtMs : ℕ
  receivedSize : Option ℕ
  receivedChecksum : Option String
  providerTag : Option String
  deriving DecidableEq

/-- The permission to fetch one version, under the hash of its capability. -/
structure NewDownloadGrant where
  versionId : String
  capabilityHash : String
  expiresAtMs : ℕ
  deriving DecidableEq

/-- A complete version with the names its reservation recorded. -/
structure StoredObjectRecord where
  version : ObjectVersionRecord
  filename : String
  contentType : String
  deriving DecidableEq

/-! ### Deletion and retention -/

/-- Why versions are deleted. -/
inductive DeletionReason where
  | objectDelete
  | retention
  | yardCleanup
  deriving DecidableEq

/-- One version of an object, or all of its versions. -/
structure ObjectDeletionTarget where
  projectId : String
  objectPath : String
  version : Option ℕ
  deriving DecidableEq

/-- The deletion of an object as a user asks for it. -/
structure NewObjectDeletion where
  id : String
  target : ObjectDeletionTarget
  actor : String
  requestId : String
  createdAtMs : ℕ
  deriving DecidableEq

/-- A row of `deletion_operations`; it is pending until `completedAtMs` is set. -/
structure DeletionOperationRow where
  id : String
  projectId : String
  objectPath : String
  selectedVersion : Option ℕ
  reason : DeletionReason
  complete : Bool
  actor : String
  requestId : String
  createdAtMs : ℕ
  completedAtMs : Option ℕ
  deriving DecidableEq

/-- One version of a plan and the key its bytes are stored under. -/
structure DeletionItem where
  versionId : String
  storageKey : String
  version : ℕ
  deriving DecidableEq

/-- A row of `deletion_items`. -/
structure DeletionItemRow where
  operationId : String
  item : DeletionItem
  deriving DecidableEq

/-- What a deletion removes, and whether it has done so. -/
structure DeletionPlan where
  id : String
  items : List DeletionItem
  complete : Bool
  actor : String
  requestId : String
  deriving DecidableEq

/-- How many versions of a project are kept, and of which paths and branches. -/
structure RetentionPolicyRecord where
  projectId : String
  keepLatest : ℕ
  pathGlob : Option String
  branchGlob : Option String
  createdAtMs : ℕ
  updatedAtMs : ℕ
  deriving DecidableEq

/-- A row of `retention_policies`. -/
structure RetentionPolicyRow where
  policy : RetentionPolicyRecord
  enabled : Bool
  deriving DecidableEq

/-- The states of a retention run. -/
inductive RetentionRunStatus where
  | running
  | complete
  | failed
  deriving DecidableEq

/-- One enforcement of a retention policy, and what it counted. -/
structure RetentionRunRecord where
  id : String
  projectId : String
  candidateCount : ℕ
  deletedCount : ℕ
  status : RetentionRunStatus
  startedAtMs : ℕ
  completedAtMs : Option ℕ
  errorSummary : Option String
  deriving DecidableEq

/-! ### Shares and inboxes -/

/-- In force until it is revoked. -/
inductive RevocableStatus where
  | active
  | revoked
  deriving DecidableEq

/-- A share is open, has given out all its downloads, or is revoked. -/
inductive ShareStatus where
  | active
  | exhausted
  | revoked
  deriving DecidableEq

/-- A share of one version, for a number of downloads or without a limit. -/
structure NewShare where
  id : String
  workspaceId : String
  versionId : String
  capabilityHash : String
  expiresAtMs : ℕ
  maximumDownloads : Option ℕ
  createdAtMs : ℕ
  deriving DecidableEq

/-- A share and how many downloads it has given out. -/
structure ShareRecord where
  id : String
  workspaceId : String
  versionId : Option String
  expiresAtMs : ℕ
  status : ShareStatus
  consumedCount : ℕ
  maximumDownloads : Option ℕ
  createdAtMs : ℕ
  revokedAtMs : Option ℕ
  deriving DecidableEq

/-- A row of `shares`. -/
structure ShareRow where
  share : ShareRecord
  capabilityHash : String
  deriving DecidableEq

/-- An inbox with the files and bytes it takes at most. -/
structure NewInbox where
  id : String
  workspaceId : String
  projectId : String
  name : String
  capabilityHash : String
  expiresAtMs : ℕ
  maximumFiles : ℕ
  maximumBytes : ℕ
  createdAtMs : ℕ
  deriving DecidableEq

/-- An inbox and its capacity: what has arrived and what is reserved. -/
structure InboxRecord where
  id : String
  workspaceId : String
  projectId : String
  name : String
  expiresAtMs : ℕ
  status : RevocableStatus
  currentFiles : ℕ
  currentBytes : ℕ
  reservedFiles : ℕ
  reservedBytes : ℕ
  maximumFiles : ℕ
  maximumBytes : ℕ
  createdAtMs : ℕ
  revokedAtMs : Option ℕ
  deriving DecidableEq

/-- A row of `inboxes`. -/
structure InboxRow where
  inbox : InboxRecord
  capabilityHash : String
  deriving DecidableEq

/-- An upload of a guest: the capability of the inbox and the fingerprint of the guest. -/
structure NewInboxUpload where
  capabilityHash : String
  fingerprintHash : String
  nowMs : ℕ
  deriving DecidableEq

/-- The states of the link between an inbox and an upload. -/
inductive InboxUploadStatus where
  | reserved
  | complete
  | aborted
  deriving DecidableEq

/-- A row of `inbox_uploads`, the link between an upload and its inbox. -/
structure InboxUploadRow where
  uploadId : String
  inboxId : String
  fingerprintHash : String
  reservedSize : ℕ
  status : InboxUploadStatus
  createdAtMs : ℕ
  deriving DecidableEq

end BlobYard
