/-
The grants of uploads.

Operators and the guests of an inbox ask for uploads.  A request carries an idempotency key; who
asks and the key together determine the identifier of the upload, so that a repeated request meets
the reservation of the first one as a conflict and is answered from it.

* `stableUploadId` — the identifier of an upload;
* `operatorReservation`, `guestReservation` — what the two kinds of requests reserve;
* `reserveOrReplay`, `inboxReserveOrReplay` — a reservation, or the replay of an earlier one;
* `replayWith_spec`, `replayWith_ok` — what a replay answers, and when it answers;
* `requestUpload` — the whole request.
-/
import BlobYard.Contract.Storage
import BlobYard.Core.Uri
import BlobYard.Repository.Inboxes
import BlobYard.Server.Objects
import Mathlib.Data.Set.Function

namespace BlobYard

open Outcome

/-! ### Requests -/

structure RequestUploadRequest where
  workspace : Slug
  project : Slug
  path : String
  filename : String
  sizeBytes : ℕ
  checksumSha256 : String
  contentType : String
  gitRepository : Option String
  gitCommit : Option String
  gitBranch : Option String
  deriving DecidableEq

/-- A request with its idempotency key and the time it arrives at. -/
structure UploadCall where
  request : RequestUploadRequest
  idempotency : String
  nowMs : ℕ
  deriving DecidableEq

structure InboxCredential where
  capabilityHash : ObjectChecksum
  fingerprintHash : ObjectChecksum
  deriving DecidableEq

structure InboxGuest where
  capabilityHash : ObjectChecksum
  fingerprintHash : ObjectChecksum
  inbox : InboxRecord
  deriving DecidableEq

inductive UploadAuthority where
  | operator (principal : LocalApiTokenRecord)
  | inbox (credential : InboxCredential)
  deriving DecidableEq

inductive AuthorizedUpload where
  | operator (principal : LocalApiTokenRecord)
  | inbox (guest : InboxGuest)
  deriving DecidableEq

/-- Whom an upload is granted to: a credential, or a guest of an inbox. -/
inductive UploadOwner where
  | operator (id : String)
  | guest (inboxId : String) (fingerprintHash : ObjectChecksum)
  deriving DecidableEq

def AuthorizedUpload.owner : AuthorizedUpload → UploadOwner
  | .operator principal => .operator principal.id
  | .inbox guest => .guest guest.inbox.id guest.fingerprintHash

/-- The text that stands for the owner in the identifiers of uploads. -/
def UploadOwner.identity : UploadOwner → String
  | .operator id => id
  | .guest inboxId fingerprintHash => inboxId ++ ":" ++ fingerprintHash.asStr

/-- `ApiError::concealed_capability`. -/
def ApiError.concealedCapability : RepositoryError → ApiError
  | .notFound | .invalidInput => .notFound
  | .conflict | .schemaTooNew | .unavailable => .internal

namespace Server

/-! ### Checks -/

/-- `validate_field`. -/
def validateField (value : String) : Except ApiError Unit :=
  ensure (ValidText value) .invalidRequest

/-- A character that a header value may hold as text. -/
def isVisible (c : Char) : Bool :=
  c.toNat == 9 || (32 ≤ c.toNat && c.toNat < 127)

/-- `idempotency_key`, on the value of the header. -/
def validateIdempotencyKey (value : String) : Except ApiError Unit :=
  ensure (value ≠ "" ∧ value.utf8ByteSize ≤ 128 ∧ ∀ c ∈ value.toList, isVisible c = true)
    .invalidRequest

/-! ### Identifiers and capabilities -/

section Grants

variable [Digest] [PercentEncoding]

/-- The bytes of a text. -/
def utf8 (value : String) : Bytes := value.toUTF8.data.toList

/-- `hash`. -/
def hash (raw : String) : String := (sha256 (utf8 raw)).asStr

/-- What the identifier of an upload is a digest of; the parts are separated by a zero byte. -/
def uploadIdentity (principalId idempotency : String) : Bytes :=
  utf8 (principalId ++ "\x00" ++ idempotency)

def stableUploadId (principalId idempotency : String) : String :=
  "upload_" ++ (sha256 (uploadIdentity principalId idempotency)).asStr

def stableCapability (capabilityKey principalId idempotency : String) : String :=
  "byu_" ++ (sha256 (utf8 (capabilityKey ++ "\x00" ++ principalId ++ "\x00" ++ idempotency))).asStr

/-! ### Reservations -/

def grantLifetimeMs : ℕ := 15 * 60 * 1000

/-- `upload_strategy`. -/
def uploadStrategy (size : ℕ) : ReservationStrategy × Option ℕ × Option ℕ :=
  if size ≤ 100 * 1024 * 1024 then (.single, none, none)
  else
    let partBytes := 16 * 1024 * 1024
    (.multipart, some partBytes, some (min ((size + partBytes - 1) / partBytes) 10001))

def validateUploadStrategy (value : NewUploadReservation) : Except ApiError Unit :=
  ensure (∀ count ∈ value.partCount, count ≤ 10000) .invalidRequest

def reservationInput (request : RequestUploadRequest) (project : ProjectRecord)
    (uploadId capability : String) (expiresAtMs : ℕ) (source : ObjectSource) :
    NewUploadReservation where
  id := uploadId
  projectId := project.id
  objectPath := request.path
  filename := request.filename
  contentType := request.contentType
  expectedSize := request.sizeBytes
  expectedChecksum := request.checksumSha256
  storageKey := "versions/" ++ project.id ++ "/" ++ uploadId
  capabilityHash := hash capability
  expiresAtMs := expiresAtMs
  createdAtMs := expiresAtMs - grantLifetimeMs
  source := source
  gitRepository := request.gitRepository
  gitCommit := request.gitCommit
  gitBranch := request.gitBranch
  strategy := (uploadStrategy request.sizeBytes).1
  partSize := (uploadStrategy request.sizeBytes).2.1
  partCount := (uploadStrategy request.sizeBytes).2.2

/-- `Principal::object_source`: a machine session uploads from CI. -/
def objectSource (principal : LocalApiTokenRecord) : ObjectSource :=
  if hasPrefix principal.id "machine_" then .ci else .cli

/-- `request_operator_upload` and `issue_upload_at`, up to the reservation. -/
def operatorReservation (capabilityKey : String) (s : Repository)
    (principal : LocalApiTokenRecord) (call : UploadCall) : Except ApiError NewUploadReservation := do
  let request := call.request
  validateField request.filename
  validateField request.contentType
  let project ← resolveProjectSlugs s principal.workspaceId request.workspace request.project
  authorizeProjectBinding principal project
  let _ ← (BlobyardUri.new request.workspace request.project request.path none).mapError
    fun _ => .invalidRequest
  ensure (call.nowMs + grantLifetimeMs ≤ u64Max) .internal
  let owner := UploadOwner.operator principal.id
  let uploadId := stableUploadId owner.identity call.idempotency
  let capability := stableCapability capabilityKey owner.identity call.idempotency
  let input := reservationInput request project uploadId capability
    (call.nowMs + grantLifetimeMs) (objectSource principal)
  validateUploadStrategy input
  return input

/-! ### The guests of an inbox -/

/-- `workspace_by_id`. -/
def workspaceById (s : Repository) (id : String) : Except ApiError WorkspaceRecord :=
  ofOption .notFound (s.workspaces.find? id)

/-- `inbox_uploads::project`. -/
def inboxProject (s : Repository) (inbox : InboxRecord) : Except ApiError ProjectRecord := do
  (validateText inbox.workspaceId).mapError ApiError.fromRepository
  ofOption .notFound
    (s.projects.select fun p => p.workspaceId = inbox.workspaceId ∧ p.id = inbox.projectId).head?

/-- One character of `sanitize_filename`: the safe characters so far, and whether some were left
out since the last of them. -/
def sanitizeCharacter (state : List Char × Bool) (c : Char) : List Char × Bool :=
  if isAsciiAlphanumeric c ∨ c = '.' ∨ c = '-' ∨ c = '_' then
    let safe :=
      if state.2 ∧ state.1 ≠ [] ∧ state.1.length < 128 then state.1 ++ ['_'] else state.1
    (if safe.length < 128 then safe ++ [c] else safe, false)
  else (state.1, true)

/-- `trim_matches(['.', '-', '_'])`. -/
def trimSeparators (characters : List Char) : List Char :=
  let separator (c : Char) : Bool := c == '.' || c == '-' || c == '_'
  ((characters.dropWhile separator).reverse.dropWhile separator).reverse

def sanitizeFilename (input : String) : String :=
  let basename := (input.toList.reverse.takeWhile fun c => c ≠ '/' && c ≠ '\\').reverse
  let trimmed := trimSeparators (basename.foldl sanitizeCharacter ([], false)).1
  if trimmed = [] then "file" else String.ofList trimmed

/-- `scoped_request`: the guest chooses the name of the file and nothing else about its place. -/
def scopedRequest (request : RequestUploadRequest) (workspace : WorkspaceRecord)
    (project : ProjectRecord) : Except ApiError RequestUploadRequest := do
  let filename := sanitizeFilename request.filename
  validateField request.contentType
  return {
    workspace := workspace.slug
    project := project.slug
    path := "inbox/" ++ filename
    filename := filename
    sizeBytes := request.sizeBytes
    checksumSha256 := request.checksumSha256
    contentType := request.contentType
    gitRepository := none
    gitCommit := none
    gitBranch := none }

/-- `inbox_uploads::issue_at`, up to the reservation. -/
def guestReservation (capabilityKey : String) (s : Repository) (guest : InboxGuest)
    (call : UploadCall) : Except ApiError NewUploadReservation := do
  let workspace ← workspaceById s guest.inbox.workspaceId
  let project ← inboxProject s guest.inbox
  let request ← scopedRequest call.request workspace project
  ensure (call.nowMs + grantLifetimeMs ≤ u64Max) .internal
  let owner := UploadOwner.guest guest.inbox.id guest.fingerprintHash
  let uploadId := stableUploadId owner.identity call.idempotency
  let capability := stableCapability capabilityKey owner.identity call.idempotency
  let input := { reservationInput request project uploadId capability
    (min (call.nowMs + grantLifetimeMs) guest.inbox.expiresAtMs) .inbox with
      createdAtMs := call.nowMs }
  validateUploadStrategy input
  return input

/-! ### Reserving and replaying -/

/-- `same_request`. -/
def SameRequest (record : UploadReservationRecord) (value : NewUploadReservation) : Prop :=
  record.version.projectId = value.projectId ∧ record.version.objectPath = value.objectPath ∧
    record.filename = value.filename ∧ record.contentType = value.contentType ∧
    record.expectedSize = value.expectedSize ∧ record.expectedChecksum = value.expectedChecksum ∧
    record.version.storageKey = value.storageKey ∧ record.version.source = value.source ∧
    record.version.gitRepository = value.gitRepository ∧
    record.version.gitCommit = value.gitCommit ∧ record.version.gitBranch = value.gitBranch

instance (record : UploadReservationRecord) (value : NewUploadReservation) :
    Decidable (SameRequest record value) :=
  inferInstanceAs (Decidable (_ ∧ _ ∧ _ ∧ _ ∧ _ ∧ _ ∧ _ ∧ _ ∧ _ ∧ _ ∧ _))

/-- A replay, given how the reservation is looked up: it answers from a requested reservation of
the same request, and renews one that has expired. -/
def replayWith (find : Repository → String → Except ApiError UploadReservationRecord)
    (s : Repository) (value : NewUploadReservation) (nowMs : ℕ) :
    Except ApiError (UploadReservationRecord × Repository) := do
  let record ← find s value.id
  ensure (record.state = .requested ∧ SameRequest record value) .conflict
  if record.expiresAtMs ≤ nowMs then
    let s ← (s.renewUpload record.id value.expiresAtMs).mapError ApiError.fromRepository
    let renewed ← find s record.id
    return (renewed, s)
  else return (record, s)

/-- A reservation, or its replay when the reservation conflicts. -/
def reserveOrReplayWith
    (reserved : Except RepositoryError (UploadReservationRecord × Repository))
    (replayed : Except ApiError (UploadReservationRecord × Repository)) :
    Except ApiError (UploadReservationRecord × Repository) :=
  match reserved with
  | .ok result => .ok result
  | .error .conflict => replayed
  | .error e => .error (ApiError.fromRepository e)

/-- `upload_by_id`, as the server answers it. -/
def uploadById (s : Repository) (id : String) : Except ApiError UploadReservationRecord :=
  (s.uploadById id).mapError ApiError.fromRepository

/-- `transfer_grants::replay`. -/
def replay (s : Repository) (value : NewUploadReservation) (nowMs : ℕ) :
    Except ApiError (UploadReservationRecord × Repository) :=
  replayWith uploadById s value nowMs

/-- `transfer_grants::reserve_or_replay`. -/
def reserveOrReplay (s : Repository) (value : NewUploadReservation) (nowMs : ℕ) :
    Except ApiError (UploadReservationRecord × Repository) :=
  reserveOrReplayWith (s.reserveUpload value) (replay s value nowMs)

/-- `inbox_uploads::reservation`. -/
def guestUpload (guest : InboxGuest) (nowMs : ℕ) (s : Repository) (id : String) :
    Except ApiError UploadReservationRecord :=
  (s.inboxUploadById guest.capabilityHash.asStr id nowMs).mapError ApiError.concealedCapability

/-- `inbox_uploads::replay`. -/
def inboxReplay (s : Repository) (guest : InboxGuest) (value : NewUploadReservation) (nowMs : ℕ) :
    Except ApiError (UploadReservationRecord × Repository) :=
  replayWith (guestUpload guest nowMs) s value nowMs

/-- `inbox_uploads::reserve_or_replay`. -/
def inboxReserveOrReplay (s : Repository) (guest : InboxGuest) (value : NewUploadReservation)
    (nowMs : ℕ) : Except ApiError (UploadReservationRecord × Repository) :=
  reserveOrReplayWith
    (s.reserveInboxUpload
      { capabilityHash := guest.capabilityHash.asStr, fingerprintHash := guest.fingerprintHash.asStr,
        nowMs := nowMs } value)
    (inboxReplay s guest value nowMs)

/-! ### The whole request -/

/-- `authorize_at`: the guest of an inbox that is open; an operator comes authorised. -/
def authorize (s : Repository) (authority : UploadAuthority) (nowMs : ℕ) :
    Except ApiError AuthorizedUpload :=
  match authority with
  | .operator principal => return .operator principal
  | .inbox credential => do
    let inbox ← (s.inboxByCapability credential.capabilityHash.asStr nowMs).mapError
      ApiError.concealedCapability
    return .inbox
      { capabilityHash := credential.capabilityHash, fingerprintHash := credential.fingerprintHash,
        inbox := inbox }

/-- What the request reserves. -/
def reservationFor (capabilityKey : String) (s : Repository) (authorized : AuthorizedUpload)
    (call : UploadCall) : Except ApiError NewUploadReservation :=
  match authorized with
  | .operator principal => operatorReservation capabilityKey s principal call
  | .inbox guest => guestReservation capabilityKey s guest call

def reserveFor (s : Repository) (authorized : AuthorizedUpload) (value : NewUploadReservation)
    (nowMs : ℕ) : Except ApiError (UploadReservationRecord × Repository) :=
  match authorized with
  | .operator _ => reserveOrReplay s value nowMs
  | .inbox guest => inboxReserveOrReplay s guest value nowMs

/-- `request_upload_at`, up to the reservation that the response describes. -/
def requestUpload (capabilityKey : String) (s : Repository) (authority : UploadAuthority)
    (call : UploadCall) : Except ApiError (UploadReservationRecord × Repository) := do
  let authorized ← authorize s authority call.nowMs
  validateIdempotencyKey call.idempotency
  let value ← reservationFor capabilityKey s authorized call
  reserveFor s authorized value call.nowMs

end Grants

/-! ### What a request reserves -/

variable {s s' : Repository} {value : NewUploadReservation} {nowMs : ℕ}

theorem objectSource_ne (principal : LocalApiTokenRecord) : objectSource principal ≠ .inbox := by
  unfold objectSource
  split <;> intro h <;> cases h

theorem ensureProject_of_mem {p : ProjectRecord} (hp : p ∈ s.projects) :
    s.ensureProject p.id = .ok () :=
  ensure_eq_ok.mpr ⟨p, hp, rfl⟩

theorem resolveProjectSlugs_mem {workspaceId : String} {workspaceSlug projectSlug : Slug}
    {project : ProjectRecord}
    (h : resolveProjectSlugs s workspaceId workspaceSlug projectSlug = .ok project) :
    project ∈ s.projects := by
  simp only [resolveProjectSlugs, bind_eq_ok, ofOption_eq_ok] at h
  obtain ⟨_, -, -, -, hproject⟩ := h
  exact (Table.mem_select.mp (List.mem_of_head? hproject)).1

/-! ### Who is behind an identifier -/

theorem utf8_injective : Function.Injective utf8 := by
  intro a b h
  have hbytes : a.toUTF8 = b.toUTF8 := ByteArray.ext (Array.toList_inj.mp h)
  exact String.toByteArray_inj.mp hbytes

/-- Two texts cut at the last occurrence of a separator have the same parts. -/
theorem eq_of_append_separator {α : Type} {x : α} {a b a' b' : List α} (hb : x ∉ b) (hb' : x ∉ b')
    (h : a ++ x :: b = a' ++ x :: b') : a = a' ∧ b = b' := by
  rcases List.append_eq_append_iff.mp h with ⟨c, rfl, hc⟩ | ⟨c, rfl, hc⟩
  · cases c with
    | nil => exact ⟨(List.append_nil a).symm, (List.cons.inj hc).2⟩
    | cons y c =>
      obtain ⟨-, rfl⟩ := List.cons.inj hc
      exact absurd (List.mem_append_right c List.mem_cons_self) hb
  · cases c with
    | nil => exact ⟨List.append_nil a', (List.cons.inj hc).2.symm⟩
    | cons y c =>
      obtain ⟨-, rfl⟩ := List.cons.inj hc
      exact absurd (List.mem_append_right c List.mem_cons_self) hb'

theorem not_mem_fingerprint (checksum : ObjectChecksum) : ':' ∉ checksum.asStr.toList := by
  intro h
  have hdigit := checksum.valid.2 ':' h
  revert hdigit
  decide

theorem zero_not_mem {idempotency : String} (h : validateIdempotencyKey idempotency = .ok ()) :
    '\x00' ∉ idempotency.toList := by
  intro hmem
  have hvisible := (ensure_eq_ok.mp h).2.2 _ hmem
  revert hvisible
  decide

/-- The text of an owner names one operator, or one guest of one inbox. -/
theorem owner_of_identity {a b : UploadOwner} (h : a.identity = b.identity)
    (hkind : (∃ id, a = .operator id) ↔ ∃ id, b = .operator id) : a = b := by
  cases a with
  | operator id =>
    obtain ⟨id', rfl⟩ := hkind.mp ⟨id, rfl⟩
    exact congrArg UploadOwner.operator h
  | guest inboxId fingerprintHash =>
    cases b with
    | operator id =>
      obtain ⟨_, hoperator⟩ := hkind.mpr ⟨id, rfl⟩
      cases hoperator
    | guest inboxId' fingerprintHash' =>
      have hlist : inboxId.toList ++ ':' :: fingerprintHash.asStr.toList =
          inboxId'.toList ++ ':' :: fingerprintHash'.asStr.toList := by
        simpa [UploadOwner.identity] using congrArg String.toList h
      obtain ⟨hinbox, hprint⟩ := eq_of_append_separator (not_mem_fingerprint fingerprintHash)
        (not_mem_fingerprint fingerprintHash') hlist
      have hchecksum : fingerprintHash = fingerprintHash' := by
        cases fingerprintHash
        cases fingerprintHash'
        obtain rfl := String.toList_inj.mp hprint
        rfl
      rw [String.toList_inj.mp hinbox, hchecksum]

/-- Where the digest has no collision, the identifier of an upload tells the owner and the key. -/
theorem owner_of_uploadId [Digest] {used : Set Bytes} (hinj : Set.InjOn sha256 used)
    {identity identity' idempotency idempotency' : String}
    (hused : uploadIdentity identity idempotency ∈ used)
    (hused' : uploadIdentity identity' idempotency' ∈ used)
    (hkey : validateIdempotencyKey idempotency = .ok ())
    (hkey' : validateIdempotencyKey idempotency' = .ok ())
    (h : stableUploadId identity idempotency = stableUploadId identity' idempotency') :
    identity = identity' ∧ idempotency = idempotency' := by
  -- the identifier ends in the whole digest
  have hdigest : sha256 (uploadIdentity identity idempotency) =
      sha256 (uploadIdentity identity' idempotency') := by
    have htext := congrArg String.toList h
    simp only [stableUploadId, String.toList_append] at htext
    have hasStr := String.toList_inj.mp (List.append_cancel_left htext)
    generalize sha256 (uploadIdentity identity idempotency) = c at hasStr
    generalize sha256 (uploadIdentity identity' idempotency') = c' at hasStr
    cases c
    cases c'
    obtain rfl : _ = _ := hasStr
    rfl
  -- the digest was taken of the identity and the key with a zero between them
  have htext := utf8_injective (hinj hused hused' hdigest)
  have hlist : identity.toList ++ '\x00' :: idempotency.toList =
      identity'.toList ++ '\x00' :: idempotency'.toList := by
    simpa using congrArg String.toList htext
  -- a key has no zero, so the zero is where the one ends and the other begins
  obtain ⟨hidentity, hidempotency⟩ :=
    eq_of_append_separator (zero_not_mem hkey) (zero_not_mem hkey') hlist
  exact ⟨String.toList_inj.mp hidentity, String.toList_inj.mp hidempotency⟩

section Asks

variable [Digest] [PercentEncoding] {capabilityKey : String} {authorized : AuthorizedUpload}
  {call : UploadCall}

/-- The reservation that a request asks for is filed under its owner and its key. -/
structure Asks (s : Repository) (authorized : AuthorizedUpload) (call : UploadCall)
    (value : NewUploadReservation) : Prop where
  id : value.id = stableUploadId authorized.owner.identity call.idempotency
  project : s.ensureProject value.projectId = .ok ()
  /-- An operator does not upload as a guest, and a guest uploads in the scope of the inbox. -/
  scope : match authorized with
    | .operator _ => value.source ≠ .inbox
    | .inbox guest => value.source = .inbox ∧ guest.inbox.projectId = value.projectId ∧
        value.createdAtMs = call.nowMs ∧ value.expiresAtMs ≤ guest.inbox.expiresAtMs

theorem reservationFor_spec
    (h : reservationFor capabilityKey s authorized call = .ok value) :
    Asks s authorized call value := by
  cases authorized with
  | operator principal =>
    simp only [reservationFor, operatorReservation, bind_eq_ok, pure_eq_ok] at h
    obtain ⟨-, -, -, -, project, hproject, -, -, -, -, -, -, -, -, rfl⟩ := h
    exact ⟨rfl, ensureProject_of_mem (resolveProjectSlugs_mem hproject), objectSource_ne principal⟩
  | inbox guest =>
    simp only [reservationFor, guestReservation, inboxProject, scopedRequest, bind_eq_ok,
      pure_eq_ok, ofOption_eq_ok] at h
    obtain ⟨workspace, -, project, ⟨-, -, hproject⟩, _, ⟨-, -, rfl⟩, -, -, -, -, rfl⟩ := h
    have hmem := Table.mem_select.mp (List.mem_of_head? hproject)
    exact ⟨rfl, ensureProject_of_mem hmem.1, rfl, hmem.2.2.symm, rfl, Nat.min_le_right _ _⟩

end Asks

/-! ### What a replay answers -/

/-- The reservation as a replay leaves it: one that has expired is renewed. -/
def renewedRow (row : UploadReservationRow) (value : NewUploadReservation) (nowMs : ℕ) :
    UploadReservationRow :=
  { row with
    expiresAtMs := if row.expiresAtMs ≤ nowMs then value.expiresAtMs else row.expiresAtMs }

/-- The answer comes from a requested reservation of the same request. -/
structure Replayed (s s' : Repository) (value : NewUploadReservation) (nowMs : ℕ)
    (result : UploadReservationRecord) (row : UploadReservationRow)
    (version : ObjectVersionRecord) : Prop where
  row_mem : row ∈ s.uploadReservations
  version_mem : version ∈ s.objectVersions
  row_id : row.id = value.id
  version_id : version.id = row.versionId
  requested : row.state = .requested
  same : SameRequest (reservationRecord row version) value
  result : result = reservationRecord (renewedRow row value nowMs) version
  state : s' = s ∨ ∃ reservations, s' = { s with uploadReservations := reservations } ∧
    s.uploadReservations.Replaced reservations row { row with expiresAtMs := value.expiresAtMs }

/-- `find` looks reservations up by their identifier. -/
def FindsById (find : Repository → String → Except ApiError UploadReservationRecord) : Prop :=
  ∀ s id record, find s id = .ok record → s.reservationById id = .ok record

theorem findsById_uploadById : FindsById uploadById := by
  intro s id record h
  have hrecord := mapError_eq_ok.mp h
  simp only [Repository.uploadById, bind_eq_ok] at hrecord
  obtain ⟨-, -, hrecord⟩ := hrecord
  exact hrecord

theorem findsById_guestUpload (guest : InboxGuest) (nowMs : ℕ) :
    FindsById (guestUpload guest nowMs) := by
  intro s id record h
  have hrecord := mapError_eq_ok.mp h
  simp only [Repository.inboxUploadById, Repository.inboxUpload, bind_eq_ok] at hrecord
  obtain ⟨-, -, -, -, -, -, -, -, hrecord⟩ := hrecord
  exact hrecord

variable {find : Repository → String → Except ApiError UploadReservationRecord}
  {result : UploadReservationRecord}

theorem replayWith_spec (hfind : FindsById find)
    (h : replayWith find s value nowMs = .ok (result, s')) :
    ∃ row version, Replayed s s' value nowMs result row version := by
  simp only [replayWith, bind_eq_ok, ensure_eq_ok] at h
  obtain ⟨record, hrecord, -, ⟨hstate, hsame⟩, h⟩ := h
  obtain ⟨row, hrow, version, hversion, hid, hvid, rfl⟩ :=
    Repository.reservationById_eq_ok.mp (hfind _ _ _ hrecord)
  refine ⟨row, version, ?_⟩
  split at h
  · rename_i hexpired
    simp only [bind_eq_ok, pure_eq_ok, Prod.mk.injEq] at h
    obtain ⟨s₁, hrenew, renewed, hrenewed, rfl, rfl⟩ := h
    obtain ⟨row₁, reservations, rfl, hid₁, -, hreplaced⟩ :=
      Repository.renewUpload_spec (mapError_eq_ok.mp hrenew)
    obtain rfl : row₁ = row := Table.eq_of_key hreplaced.mem_old hrow hid₁
    -- the reservation that is read again is the renewed one
    obtain ⟨row₂, hrow₂, version₂, hversion₂, hid₂, hvid₂, rfl⟩ :=
      Repository.reservationById_eq_ok.mp (hfind _ _ _ hrenewed)
    obtain rfl := Table.eq_of_key hrow₂ hreplaced.mem_new hid₂
    obtain rfl := Table.eq_of_key hversion₂ hversion (hvid₂.trans hvid.symm)
    refine ⟨hrow, hversion, hid, hvid, hstate, hsame, ?_, Or.inr ⟨_, rfl, hreplaced⟩⟩
    rw [renewedRow, if_pos (show row₁.expiresAtMs ≤ nowMs from hexpired)]
  · rename_i hlive
    simp only [pure_eq_ok, Prod.mk.injEq] at h
    obtain ⟨rfl, rfl⟩ := h
    refine ⟨hrow, hversion, hid, hvid, hstate, hsame, ?_, Or.inl rfl⟩
    rw [renewedRow, if_neg (show ¬row.expiresAtMs ≤ nowMs from hlive)]

/-- `find` finds the reservation `id` of `s`, also after other changes of the reservations. -/
def Finds (find : Repository → String → Except ApiError UploadReservationRecord) (s : Repository)
    (id : String) : Prop :=
  ∀ reservations record,
    Repository.reservationById { s with uploadReservations := reservations } id = .ok record →
      find { s with uploadReservations := reservations } id = .ok record

theorem finds_uploadById {id : String} (hid : ValidText id) : Finds uploadById s id := by
  intro reservations record h
  refine mapError_eq_ok.mpr ?_
  simp only [Repository.uploadById, bind_eq_ok, validateText_eq_ok]
  exact ⟨(), hid, h⟩

theorem finds_guestUpload {guest : InboxGuest} {id : String} {link : InboxUploadRow}
    {row : InboxRow} (hid : ValidText id) (hnow : nowMs ≤ i64Max) (hlink : link ∈ s.inboxUploads)
    (hlid : link.uploadId = id)
    (hinbox : s.activeInbox guest.capabilityHash.asStr nowMs = .ok row)
    (hrow : row.inbox.id = link.inboxId) : Finds (guestUpload guest nowMs) s id := by
  intro reservations record h
  obtain ⟨hmem, hcapability, hactive, hopen⟩ := Repository.activeInbox_spec hinbox
  refine mapError_eq_ok.mpr ?_
  simp only [Repository.inboxUploadById, Repository.inboxUpload, bind_eq_ok, validateText_eq_ok,
    validateHash_eq_ok, toI64_eq_ok, ensure_eq_ok]
  exact ⟨(), guest.capabilityHash.valid, (), hid, (), hnow, (),
    ⟨link, hlink, hlid, row, hmem, hrow, hcapability, hactive, hopen⟩, h⟩

variable {row : UploadReservationRow} {version : ObjectVersionRecord}

/-- A requested reservation of the same request is answered. -/
theorem replayWith_ok (hfind : Finds find s value.id) (hid : ValidText value.id)
    (hexpires : value.expiresAtMs ≤ i64Max) (hrow : row ∈ s.uploadReservations)
    (hrid : row.id = value.id) (hversion : version ∈ s.objectVersions)
    (hvid : version.id = row.versionId) (hstate : row.state = .requested)
    (hsame : SameRequest (reservationRecord row version) value) :
    ∃ result s', replayWith find s value nowMs = .ok (result, s') := by
  -- the reservation is read back by its id
  have hrecord : find s value.id = .ok (reservationRecord row version) :=
    hfind s.uploadReservations _
      (Repository.reservationById_eq_ok.mpr ⟨row, hrow, version, hversion, hrid, hvid, rfl⟩)
  simp only [replayWith, bind_eq_ok, ensure_eq_ok, hrecord, Except.ok.injEq]
  by_cases hexpired : row.expiresAtMs ≤ nowMs
  -- out of date: it is renewed first, which touches its one row
  · obtain ⟨s₁, hrenew⟩ : ∃ s₁, s.renewUpload value.id value.expiresAtMs = .ok s₁ := by
      have hcount := Table.count_eq_one hrow
        (Table.guard_iff_eq (q := fun x : UploadReservationRow => x.state = .requested) hrow hstate)
      simp only [Repository.renewUpload, bind_eq_ok, pure_eq_ok, validateText_eq_ok, toI64_eq_ok,
        changedOnce_eq_ok]
      refine ⟨_, (), hid, (), hexpires, (), ?_, rfl⟩
      rw [← hrid]
      exact hcount
    obtain ⟨row₁, reservations, rfl, hid₁, -, hreplaced⟩ := Repository.renewUpload_spec hrenew
    obtain rfl : row₁ = row := Table.eq_of_key hreplaced.mem_old hrow (hid₁.trans hrid.symm)
    -- and read again
    have hrenewed : find { s with uploadReservations := reservations } value.id =
        .ok (reservationRecord { row₁ with expiresAtMs := value.expiresAtMs } version) :=
      hfind reservations _ (Repository.reservationById_eq_ok.mpr
        ⟨_, hreplaced.mem_new, version, hversion, hrid, hvid, rfl⟩)
    have hrecordId : (reservationRecord row₁ version).id = value.id := hrid
    refine ⟨reservationRecord { row₁ with expiresAtMs := value.expiresAtMs } version,
      { s with uploadReservations := reservations }, _, rfl, (), ⟨hstate, hsame⟩, ?_⟩
    rw [if_pos (show (reservationRecord row₁ version).expiresAtMs ≤ nowMs from hexpired)]
    simp only [bind_eq_ok, pure_eq_ok]
    refine ⟨_, mapError_eq_ok.mpr ?_, _, ?_, rfl⟩
    · rw [hrecordId]
      exact hrenew
    · rw [hrecordId]
      exact hrenewed
  -- still in time: it is answered as it is
  · refine ⟨reservationRecord row version, s, _, rfl, (), ⟨hstate, hsame⟩, ?_⟩
    rw [if_neg (show ¬(reservationRecord row version).expiresAtMs ≤ nowMs from hexpired)]
    rfl

/-- A reservation that differs, or is no longer requested, conflicts. -/
theorem replayWith_conflict (hfind : Finds find s value.id) (hrow : row ∈ s.uploadReservations)
    (hrid : row.id = value.id) (hversion : version ∈ s.objectVersions)
    (hvid : version.id = row.versionId)
    (hdiffers : ¬(row.state = .requested ∧ SameRequest (reservationRecord row version) value)) :
    replayWith find s value nowMs = .error .conflict := by
  have hrecord : find s value.id = .ok (reservationRecord row version) :=
    hfind s.uploadReservations _
      (Repository.reservationById_eq_ok.mpr ⟨row, hrow, version, hversion, hrid, hvid, rfl⟩)
  unfold replayWith
  rw [hrecord]
  show (ensure (row.state = .requested ∧ SameRequest (reservationRecord row version) value)
    ApiError.conflict >>= fun _ => _) = _
  rw [ensure, if_neg hdiffers]
  rfl

/-! ### What a request answers -/

theorem reserveOrReplayWith_eq_ok
    {reserved : Except RepositoryError (UploadReservationRecord × Repository)}
    {replayed : Except ApiError (UploadReservationRecord × Repository)}
    {answer : UploadReservationRecord × Repository} :
    reserveOrReplayWith reserved replayed = .ok answer ↔
      reserved = .ok answer ∨ reserved = .error .conflict ∧ replayed = .ok answer := by
  unfold reserveOrReplayWith
  split
  · simp
  · simp
  · rename_i e hne
    constructor
    · intro h
      cases h
    · rintro (h | ⟨h, -⟩)
      · cases h
      · exact absurd (Except.error.inj h) hne

/-- An authorised guest stands before an open inbox. -/
def Entitled (s : Repository) (nowMs : ℕ) : AuthorizedUpload → Prop
  | .operator _ => True
  | .inbox guest => nowMs ≤ i64Max ∧ ∃ row, row.inbox = guest.inbox ∧
      s.activeInbox guest.capabilityHash.asStr nowMs = .ok row

theorem authorize_spec {authority : UploadAuthority} {authorized : AuthorizedUpload}
    (h : authorize s authority nowMs = .ok authorized) : Entitled s nowMs authorized := by
  cases authority with
  | operator principal =>
    obtain rfl := pure_eq_ok.mp h
    trivial
  | inbox credential =>
    simp only [authorize, bind_eq_ok, pure_eq_ok] at h
    obtain ⟨inbox, hinbox, rfl⟩ := h
    have hopen := mapError_eq_ok.mp hinbox
    simp only [Repository.inboxByCapability, bind_eq_ok, pure_eq_ok, toI64_eq_ok] at hopen
    obtain ⟨-, -, -, hnow, row, hrow, rfl⟩ := hopen
    exact ⟨hnow, row, rfl, hrow⟩

/-- A new reservation with its version; that of a guest is linked to the inbox. -/
structure Reserved (s s' : Repository) (authorized : AuthorizedUpload)
    (value : NewUploadReservation) (result : UploadReservationRecord) (version : ℕ) : Prop where
  versions : s.objectVersions.Inserted s'.objectVersions
    (Repository.reservedVersion value version)
  fresh : ∀ r ∈ s.uploadReservations, r.versionId ≠ value.id
  reservations : s.uploadReservations.Inserted s'.uploadReservations
    (Repository.requestedReservation value)
  result : result = reservationRecord (Repository.requestedReservation value)
    (Repository.reservedVersion value version)
  /-- The links of other uploads stay. -/
  links : ∀ link ∈ s.inboxUploads, link ∈ s'.inboxUploads
  linked : ∀ guest, authorized = .inbox guest →
    ∃ link ∈ s'.inboxUploads, link.uploadId = value.id ∧ link.inboxId = guest.inbox.id

theorem result_of_inserted {version : ℕ}
    (hversions : s.objectVersions.Inserted s'.objectVersions
      (Repository.reservedVersion value version))
    (hreservations : s.uploadReservations.Inserted s'.uploadReservations
      (Repository.requestedReservation value))
    (h : s'.reservationById value.id = .ok result) :
    result = reservationRecord (Repository.requestedReservation value)
      (Repository.reservedVersion value version) := by
  have hread := Repository.reservationById_of_mem hreservations.mem_new hversions.mem_new rfl
  exact Except.ok.inj (h.symm.trans hread)

/-- A request makes a new reservation or replays an earlier one. -/
theorem reserveFor_spec {authorized : AuthorizedUpload} (hentitled : Entitled s nowMs authorized)
    (h : reserveFor s authorized value nowMs = .ok (result, s')) :
    (∃ version, Reserved s s' authorized value result version) ∨
      ∃ row version, Replayed s s' value nowMs result row version := by
  cases authorized with
  | operator principal =>
    -- the operator: reserved now, or replayed
    rcases reserveOrReplayWith_eq_ok.mp h with hreserve | ⟨-, hreplay⟩
    · have hread := Repository.reserveUpload_result hreserve
      obtain ⟨version, _, _, -, rfl, hversions, hfresh, hreservations⟩ :=
        Repository.reserveUpload_spec hreserve
      refine Or.inl ⟨version, hversions, hfresh, hreservations,
        result_of_inserted hversions hreservations hread, fun _ hlink => hlink, ?_⟩
      intro guest hguest
      cases hguest
    · exact Or.inr (replayWith_spec findsById_uploadById hreplay)
  | inbox guest =>
    -- a guest: the reservation is linked to the inbox, which has to be active
    rcases reserveOrReplayWith_eq_ok.mp h with hreserve | ⟨-, hreplay⟩
    · obtain ⟨hread, row, hactive, link, hlink, hlid, hinbox⟩ :=
        Repository.reserveInboxUpload_result hreserve
      obtain ⟨_, version, _, _, _, _, rfl, -, -, -, -, hversions, hfresh, hreservations, hlinks⟩ :=
        Repository.reserveInboxUpload_spec hreserve
      refine Or.inl ⟨version, hversions, hfresh, hreservations,
        result_of_inserted hversions hreservations hread, fun _ hlink => hlinks.mem_of_mem hlink, ?_⟩
      rintro guest' hguest
      obtain rfl := AuthorizedUpload.inbox.inj hguest
      obtain ⟨-, row', hinbox', hactive'⟩ := hentitled
      obtain rfl : row = row' := Except.ok.inj (hactive.symm.trans hactive')
      exact ⟨link, hlink, hlid, hinbox.trans (congrArg InboxRecord.id hinbox')⟩
    · exact Or.inr (replayWith_spec (findsById_guestUpload guest nowMs) hreplay)

section Requests

variable [Digest] {capabilityKey : String} {call : UploadCall} {authority : UploadAuthority}
  {authorized : AuthorizedUpload}

theorem requestUpload_spec [PercentEncoding]
    (h : requestUpload capabilityKey s authority call = .ok (result, s')) :
    ∃ authorized value, authorize s authority call.nowMs = .ok authorized ∧
      validateIdempotencyKey call.idempotency = .ok () ∧
      reservationFor capabilityKey s authorized call = .ok value ∧
      reserveFor s authorized value call.nowMs = .ok (result, s') := by
  simp only [requestUpload, bind_eq_ok] at h
  obtain ⟨authorized, hauthorized, _, hkey, value, hvalue, hreserve⟩ := h
  exact ⟨authorized, value, hauthorized, hkey, hvalue, hreserve⟩

/-- What a reservation is checked for before any row is written: its fields are valid, and a
version number is left. -/
def Admitted (s : Repository) (value : NewUploadReservation) : Prop :=
  validateReservation value = .ok () ∧
    ∃ version, s.nextVersion value.projectId value.objectPath = .ok version

/-- Where the identifier is taken, a request that is past the checks is a replay. -/
theorem reserveFor_taken (hentitled : Entitled s call.nowMs authorized)
    (hasks : Asks s authorized call value) (hadmitted : Admitted s value)
    {row : UploadReservationRow} (hrow : row ∈ s.uploadReservations) (hid : row.id = value.id) :
    reserveFor s authorized value call.nowMs =
      match authorized with
      | .operator _ => replay s value call.nowMs
      | .inbox guest => inboxReplay s guest value call.nowMs := by
  obtain ⟨hvalid, version, hnext⟩ := hadmitted
  cases authorized with
  | operator principal =>
    show reserveOrReplayWith (s.reserveUpload value) _ = _
    rw [Repository.reserveUpload_conflict hvalid hasks.project hnext hrow hid]
    rfl
  | inbox guest =>
    obtain ⟨hnow, inbox, hinbox, hactive⟩ := hentitled
    obtain ⟨hsource, hproject, hcreated, hexpires⟩ := hasks.scope
    have hstatus := (Repository.activeInbox_spec hactive).2.2.1
    show reserveOrReplayWith (s.reserveInboxUpload _ value) _ = _
    rw [Repository.reserveInboxUpload_conflict hvalid guest.capabilityHash.valid
      guest.fingerprintHash.valid hnow hactive ?_ hasks.project hnext hrow hid]
    · rfl
    · rw [hinbox] at hstatus ⊢
      exact ensure_eq_ok.mpr ⟨hstatus, hproject, hsource, hcreated, hexpires⟩

end Requests

end Server

end BlobYard
