/-
Guest invitations of a yard.

An invitation is spread over four tables: its own row, the grant it carries, the guest subject
that accepted it and the login keys of that subject.  A row is read back together with its grant
and checked against it.

* `createYardGuestInvite`, `acceptYardGuestInvite`, `revokeYardGuestInvite`;
* `authenticateYardGuestKey` — signing in with a guest key;
* `listYardGuestInvites` — reading invitations back;
* `*_spec` — what each operation changes.
-/
import BlobYard.Repository.YardAccess
import BlobYard.Repository.YardSessions

namespace BlobYard

open Outcome

def yardGuestInvitePageSize : ℕ := 50

def maximumActiveYardGuestInvites : ℕ := 100

/-- The shortest lifetime of an invitation: five minutes. -/
def yardGuestInviteMinimumLifetimeMs : ℕ := 300000

/-- The longest lifetime of an invitation: thirty days. -/
def yardGuestInviteMaximumLifetimeMs : ℕ := 2592000000

/-! ### Rows and records -/

/-- The row of a new invitation. -/
def invitationRow (invitation : NewYardGuestInvite) : YardGuestInvitationRow where
  id := invitation.id
  workspaceId := invitation.workspaceId
  projectId := invitation.projectId
  yardId := invitation.yardId
  environmentId := invitation.environmentId
  email := invitation.email
  tokenHash := some invitation.tokenHash
  status := .pending
  acceptedSubjectId := none
  grantId := invitation.grantId
  createdAtMs := invitation.createdAtMs
  expiresAtMs := invitation.expiresAtMs
  acceptedAtMs := none
  revokedAtMs := none

/-- The record that a row and its grant are read back as. -/
def inviteRecord (row : YardGuestInvitationRow) (grant : YardAccessGrantRecord) :
    YardGuestInviteRecord where
  id := row.id
  workspaceId := row.workspaceId
  projectId := row.projectId
  yardId := row.yardId
  environmentId := row.environmentId
  email := row.email
  status := row.status
  acceptedSubjectId := row.acceptedSubjectId
  grantId := row.grantId
  appRoles := grant.appRoles
  createdAtMs := row.createdAtMs
  expiresAtMs := row.expiresAtMs
  acceptedAtMs := row.acceptedAtMs
  revokedAtMs := row.revokedAtMs

/-- The row is neither revoked nor expired. -/
def OpenInvitation (nowMs : ℕ) (row : YardGuestInvitationRow) : Prop :=
  (row.status = .pending ∨ row.status = .accepted) ∧ nowMs < row.expiresAtMs

instance (nowMs : ℕ) : DecidablePred (OpenInvitation nowMs) := fun row =>
  inferInstanceAs (Decidable ((row.status = .pending ∨ row.status = .accepted) ∧
    nowMs < row.expiresAtMs))

/-- `lifecycle_matches`: the states of the invitation and of its grant agree. -/
def LifecycleMatches (row : YardGuestInvitationRow) (grant : YardAccessGrantRecord) : Prop :=
  match row.status with
  | .pending => row.acceptedSubjectId = none ∧ row.acceptedAtMs = none ∧ row.revokedAtMs = none ∧
    grant.status = .active ∧ grant.revokedAtMs = none
  | .accepted => row.acceptedSubjectId ≠ none ∧ row.acceptedAtMs ≠ none ∧ row.revokedAtMs = none ∧
    grant.status = .active ∧ grant.revokedAtMs = none
  | .revoked => row.revokedAtMs ≠ none ∧ grant.status = .revoked ∧
    grant.revokedAtMs = row.revokedAtMs

instance (row : YardGuestInvitationRow) (grant : YardAccessGrantRecord) :
    Decidable (LifecycleMatches row grant) := by
  unfold LifecycleMatches
  cases row.status <;> infer_instance

/-- `scope_matches`: the grant is the one of the invitation. -/
structure ScopeMatches (row : YardGuestInvitationRow) (grant : YardAccessGrantRecord) : Prop where
  id : grant.id = row.grantId
  yard : grant.yardId = row.yardId
  environment : grant.environmentId = row.environmentId
  kind : grant.principalKind = .guestInvite
  principal : grant.principalId = row.id
  created : grant.createdAtMs = row.createdAtMs
  expires : grant.expiresAtMs = some row.expiresAtMs

instance (row : YardGuestInvitationRow) (grant : YardAccessGrantRecord) :
    Decidable (ScopeMatches row grant) :=
  decidable_of_iff (grant.id = row.grantId ∧ grant.yardId = row.yardId ∧
      grant.environmentId = row.environmentId ∧ grant.principalKind = .guestInvite ∧
      grant.principalId = row.id ∧ grant.createdAtMs = row.createdAtMs ∧
      grant.expiresAtMs = some row.expiresAtMs)
    ⟨fun ⟨h₁, h₂, h₃, h₄, h₅, h₆, h₇⟩ => ⟨h₁, h₂, h₃, h₄, h₅, h₆, h₇⟩,
      fun ⟨h₁, h₂, h₃, h₄, h₅, h₆, h₇⟩ => ⟨h₁, h₂, h₃, h₄, h₅, h₆, h₇⟩⟩

/-- The texts every invitation must carry (`validate_invitation_texts`). -/
def invitationTexts (row : YardGuestInvitationRow) : List String :=
  [row.id, row.workspaceId, row.projectId, row.yardId, row.email, row.grantId]

/-- `yard_guest_audit_metadata`. -/
def guestAuditMetadata (row : YardGuestInvitationRow) (subjectId : Option String) :
    List (String × AuditValue) :=
  [("environmentId", auditText row.environmentId), ("grantId", .string row.grantId),
   ("invitationId", .string row.id), ("projectId", .string row.projectId),
   ("subjectId", auditText subjectId), ("yardId", .string row.yardId)]

/-- `yard_guest_events::validate`. -/
def validateGuestEvent (event : NewAuditEvent) (action : String) (row : YardGuestInvitationRow)
    (subjectId : Option String) (atMs : ℕ) : Except RepositoryError Unit :=
  validateActionEvent event action "yard_guest_invite" row.workspaceId atMs
    (guestAuditMetadata row subjectId)

/-- `validate_subject`: the identifiers of a subject fit its kind. -/
def ValidSubject (subject : YardSubjectRecord) : Prop :=
  ValidText subject.id ∧ ValidText subject.workspaceId ∧
    (subject.kind = .member →
      subject.localUserId = some subject.id ∧ subject.invitationId = none) ∧
    (subject.kind = .guest → subject.localUserId = none ∧ subject.invitationId ≠ none ∧
      ValidPrefixedHexId subject.id "guest_") ∧
    ∀ atMs ∈ subject.revokedAtMs, subject.createdAtMs ≤ atMs

instance (subject : YardSubjectRecord) : Decidable (ValidSubject subject) :=
  inferInstanceAs (Decidable (_ ∧ _ ∧ _ ∧ _ ∧ _))

/-- `yard_guest_keys::validate_new`. -/
def validateNewGuestKey (key : YardGuestLoginKeyRecord) : Except RepositoryError Unit := do
  validateTexts [key.id, key.subjectId, key.invitationId, key.workspaceId, key.tokenPrefix]
  validateHash key.secretHash
  ensure (key.createdAtMs < key.expiresAtMs ∧ key.lastUsedAtMs = none ∧ key.revokedAtMs = none)
    .invalidInput

/-- The accepted row. -/
def acceptedRow (subjectId : String) (nowMs : ℕ) (row : YardGuestInvitationRow) :
    YardGuestInvitationRow :=
  { row with
    tokenHash := none, status := .accepted, acceptedSubjectId := some subjectId
    acceptedAtMs := some nowMs }

/-- The revoked row. -/
def revokedRow (nowMs : ℕ) (row : YardGuestInvitationRow) : YardGuestInvitationRow :=
  { row with tokenHash := none, status := .revoked, revokedAtMs := some nowMs }

section Guests

variable [Unicode]

/-- `validate_invitation`: what the decoder of an invitation requires of it and its grant. -/
structure ValidInvitation (row : YardGuestInvitationRow) (grant : YardAccessGrantRecord) :
    Prop where
  texts : ∀ text ∈ invitationTexts row, ValidText text
  scope : ScopeMatches row grant
  lifecycle : LifecycleMatches row grant
  lifetime : row.createdAtMs < row.expiresAtMs
  email : NormalizedEmail row.email

instance (row : YardGuestInvitationRow) (grant : YardAccessGrantRecord) :
    Decidable (ValidInvitation row grant) :=
  decidable_of_iff ((∀ text ∈ invitationTexts row, ValidText text) ∧ ScopeMatches row grant ∧
      LifecycleMatches row grant ∧ row.createdAtMs < row.expiresAtMs ∧ NormalizedEmail row.email)
    ⟨fun ⟨h₁, h₂, h₃, h₄, h₅⟩ => ⟨h₁, h₂, h₃, h₄, h₅⟩,
      fun ⟨h₁, h₂, h₃, h₄, h₅⟩ => ⟨h₁, h₂, h₃, h₄, h₅⟩⟩

/-- `yard_guest_rows::invitation`. -/
def decodeInvitation (row : YardGuestInvitationRow) (grant : YardAccessGrantRecord) :
    Except RepositoryError YardGuestInviteRecord := do
  ensure (ValidInvitation row grant) .unavailable
  return inviteRecord row grant

namespace Repository

/-! ### Queries -/

/-- The grant that the row is joined with. -/
def grantOf (s : Repository) (row : YardGuestInvitationRow) : Option YardAccessGrantRecord :=
  (s.yardAccessGrants.find? row.grantId).filter fun g => g.yardId = row.yardId

/-- The rows of a selection with their grants, decoded. -/
def decodeJoined (s : Repository) (rows : List YardGuestInvitationRow) :
    Except RepositoryError (List YardGuestInviteRecord) :=
  (rows.filterMap fun row => (s.grantOf row).map fun grant => (row, grant)).mapM fun joined =>
    decodeInvitation joined.1 joined.2

/-- `yard_guest_queries::by_id`: the row and the record it is read back as. -/
def invitationById (s : Repository) (invitationId : String) :
    Except RepositoryError (Option (YardGuestInvitationRow × YardGuestInviteRecord)) :=
  match s.yardGuestInvitations.find? invitationId with
  | none => return none
  | some row =>
    match s.grantOf row with
    | none => return none
    | some grant => (fun record => some (row, record)) <$> decodeInvitation row grant

/-- The order of the invitation list: newest first. -/
def invitationOrder (row : YardGuestInvitationRow) : ℕᵒᵈ ×ₗ Stringᵒᵈ :=
  toLex (OrderDual.toDual row.createdAtMs, OrderDual.toDual row.id)

/-- `list_yard_guest_invites`. -/
def listYardGuestInvites (s : Repository) (yardId : String)
    (cursor : Option YardGuestInviteCursor) (limit : ℕ) :
    Except RepositoryError YardGuestInvitePage := do
  validateText yardId
  ensure (limit ≠ 0 ∧ limit ≤ yardGuestInvitePageSize) .invalidInput
  forM cursor.toList fun position => do
    toI64 position.createdAtMs
    validateText position.id
  let rows := orderBy invitationOrder (s.yardGuestInvitations.select fun row =>
    row.yardId = yardId ∧ (s.grantOf row).isSome ∧ ∀ position ∈ cursor,
      row.createdAtMs < position.createdAtMs ∨
        (row.createdAtMs = position.createdAtMs ∧ row.id < position.id))
  let items ← s.decodeJoined (rows.take (limit + 1))
  return {
    items := items.take limit
    nextCursor :=
      if limit < items.length then
        items[limit - 1]?.map fun item => { createdAtMs := item.createdAtMs, id := item.id }
      else none }

/-- The row of the token is pending, and its grant is in force as long as it is. -/
def PendingInvitation (s : Repository) (tokenHash : String) (nowMs : ℕ)
    (row : YardGuestInvitationRow) : Prop :=
  row.tokenHash = some tokenHash ∧ row.status = .pending ∧ nowMs < row.expiresAtMs ∧
    ∃ grant ∈ s.grantOf row, grant.status = .active ∧ grant.revokedAtMs = none ∧
      grant.expiresAtMs = some row.expiresAtMs

instance (s : Repository) (tokenHash : String) (nowMs : ℕ) :
    DecidablePred (s.PendingInvitation tokenHash nowMs) := fun row =>
  inferInstanceAs (Decidable (row.tokenHash = some tokenHash ∧ row.status = .pending ∧
    nowMs < row.expiresAtMs ∧ ∃ grant ∈ s.grantOf row, _))

/-- `pending_by_hash`: the one pending row of the token and its record. -/
def pendingByHash (s : Repository) (tokenHash : String) (nowMs : ℕ) :
    Except RepositoryError (YardGuestInvitationRow × YardGuestInviteRecord) := do
  validateHash tokenHash
  let rows := (s.yardGuestInvitations.select (s.PendingInvitation tokenHash nowMs)).take 2
  let records ← s.decodeJoined rows
  match rows, records with
  | [row], [record] => return (row, record)
  | _, _ => .error .notFound

/-! ### Creating -/

/-- `require_environment`. -/
def ActiveProduction (s : Repository) (yardId environmentId : String) : Prop :=
  ∃ e ∈ s.yardEnvironments, e.id = environmentId ∧ e.yardId = yardId ∧ e.kind = .production ∧
    e.status = .active

instance (s : Repository) (yardId environmentId : String) :
    Decidable (s.ActiveProduction yardId environmentId) :=
  inferInstanceAs (Decidable (∃ e ∈ s.yardEnvironments, _))

/-- `validate_create`. -/
def validateGuestInvite (s : Repository) (invitation : NewYardGuestInvite)
    (grant : NewYardAccessGrant) : Except RepositoryError Unit := do
  validateTexts (invitationTexts (invitationRow invitation))
  validateHash invitation.tokenHash
  let yard ← s.activeYard invitation.yardId
  ensure (ValidPrefixedHexId invitation.id "ygi_" ∧ NormalizedEmail invitation.email ∧
    yard.workspaceId = invitation.workspaceId ∧ yard.projectId = invitation.projectId ∧
    invitation.createdAtMs + yardGuestInviteMinimumLifetimeMs ≤ invitation.expiresAtMs ∧
    invitation.expiresAtMs ≤ invitation.createdAtMs + yardGuestInviteMaximumLifetimeMs)
    .invalidInput
  ensure (ScopeMatches (invitationRow invitation) (grantRow grant []) ∧
    trim grant.createdByPrincipal = grant.createdByPrincipal) .invalidInput
  ensure (∀ id ∈ invitation.environmentId, s.ActiveProduction invitation.yardId id) .notFound

/-- `require_capacity`. -/
def requireInviteCapacity (s : Repository) (invitation : NewYardGuestInvite) :
    Except RepositoryError Unit := do
  ensure (s.yardGuestInvitations.count (fun row => row.yardId = invitation.yardId ∧
    OpenInvitation invitation.createdAtMs row) < maximumActiveYardGuestInvites) .conflict
  ensure (∀ row ∈ s.yardGuestInvitations, ¬(row.yardId = invitation.yardId ∧
    row.environmentId = invitation.environmentId ∧ row.email = invitation.email ∧
    OpenInvitation invitation.createdAtMs row)) .conflict

/-- `create_yard_guest_invite`. -/
def createYardGuestInvite (s : Repository) (invitation : NewYardGuestInvite)
    (grant : NewYardAccessGrant) (event : NewAuditEvent) :
    Except RepositoryError (YardGuestInviteRecord × Repository) := do
  s.validateGuestInvite invitation grant
  validateGuestEvent event "yard.guest_invite.created" (invitationRow invitation) none
    invitation.createdAtMs
  toI64 invitation.expiresAtMs
  s.requireInviteCapacity invitation
  let roles ← s.validatedRoles invitation.yardId grant.appRoles
  let yardAccessGrants ← insertRow s.yardAccessGrants (grantRow grant roles)
  ensure (∀ row ∈ s.yardGuestInvitations, row.tokenHash ≠ some invitation.tokenHash) .conflict
  let yardGuestInvitations ← insertRow s.yardGuestInvitations (invitationRow invitation)
  let s := { s with yardAccessGrants, yardGuestInvitations }
  let s ← s.insertAudit event
  let found ← s.invitationById invitation.id
  let created ← ofOption .unavailable found
  return (created.2, s)

/-! ### Accepting -/

/-- `yard_guest_accept::validate`. -/
def validateAcceptance (invitation : YardGuestInvitationRow) (subject : YardSubjectRecord)
    (key : YardGuestLoginKeyRecord) (continuation : NewYardContinuation) (event : NewAuditEvent)
    (nowMs : ℕ) : Except RepositoryError Unit := do
  ensure (ValidSubject subject) .invalidInput
  validateNewGuestKey key
  validateGuestEvent event "yard.guest_invite.accepted" invitation (some subject.id) nowMs
  ensure (subject.kind = .guest ∧ subject.workspaceId = invitation.workspaceId ∧
    subject.invitationId = some invitation.id ∧ subject.createdAtMs = nowMs ∧
    subject.revokedAtMs = none) .invalidInput
  ensure (key.subjectId = subject.id ∧ key.invitationId = invitation.id ∧
    key.workspaceId = invitation.workspaceId ∧ key.createdAtMs = nowMs ∧
    key.expiresAtMs = invitation.expiresAtMs) .invalidInput
  ensure (continuation.userId = subject.id ∧ continuation.yardId = invitation.yardId ∧
    (∀ id ∈ invitation.environmentId, id = continuation.environmentId) ∧
    continuation.createdAtMs = nowMs) .invalidInput

/-- `insert_subject`. -/
def insertGuestSubject (s : Repository) (subject : YardSubjectRecord) :
    Except RepositoryError Repository := do
  ensure (∀ x ∈ s.yardSubjects, x.invitationId = none ∨ x.invitationId ≠ subject.invitationId)
    .conflict
  let yardSubjects ← insertRow s.yardSubjects
    { subject with kind := .guest, localUserId := none, revokedAtMs := none }
  return { s with yardSubjects }

/-- `insert_key`; the column holds a prefix of at most 32 characters. -/
def insertGuestKey (s : Repository) (key : YardGuestLoginKeyRecord) :
    Except RepositoryError Repository := do
  ensure (key.tokenPrefix.length ≤ 32) .conflict
  ensure (∀ k ∈ s.yardGuestLoginKeys, k.secretHash ≠ key.secretHash) .conflict
  let yardGuestLoginKeys ← insertRow s.yardGuestLoginKeys
    { key with lastUsedAtMs := none, revokedAtMs := none }
  return { s with yardGuestLoginKeys }

/-- The pending row of the token. -/
def AcceptableInvitation (invitationId tokenHash : String) (nowMs : ℕ)
    (row : YardGuestInvitationRow) : Prop :=
  row.id = invitationId ∧ row.status = .pending ∧ row.tokenHash = some tokenHash ∧
    nowMs < row.expiresAtMs

instance (invitationId tokenHash : String) (nowMs : ℕ) :
    DecidablePred (AcceptableInvitation invitationId tokenHash nowMs) := fun row =>
  inferInstanceAs (Decidable (row.id = invitationId ∧ row.status = .pending ∧
    row.tokenHash = some tokenHash ∧ nowMs < row.expiresAtMs))

/-- `accept_yard_guest_invite`. -/
def acceptYardGuestInvite (s : Repository) (tokenHash : String) (subject : YardSubjectRecord)
    (key : YardGuestLoginKeyRecord) (continuation : NewYardContinuation) (event : NewAuditEvent)
    (nowMs : ℕ) : Except RepositoryError (YardGuestAcceptance × Repository) := do
  toI64 nowMs
  let (invitation, record) ← s.pendingByHash tokenHash nowMs
  validateAcceptance invitation subject key continuation event nowMs
  let s ← s.insertGuestSubject subject
  ensure (invitation.createdAtMs ≤ nowMs) .conflict
  changedOnce (s.yardGuestInvitations.count (AcceptableInvitation invitation.id tokenHash nowMs))
  let s : Repository := { s with
    yardGuestInvitations := s.yardGuestInvitations.update
      (AcceptableInvitation invitation.id tokenHash nowMs) (acceptedRow subject.id nowMs) }
  let s ← s.insertGuestKey key
  let s ← s.issueYardExchangeCode continuation
  let s ← s.insertAudit event
  return ({
    invitation :=
      { record with
        status := .accepted, acceptedSubjectId := some subject.id, acceptedAtMs := some nowMs }
    subject }, s)

/-! ### Revoking -/

/-- `revoke_authority`: the grant of the invitation and the keys of its guest. -/
def revokeAuthority (s : Repository) (invitation : YardGuestInvitationRow) (nowMs : ℕ) :
    Except RepositoryError Repository := do
  ensure (∀ g ∈ s.yardAccessGrants, (g.id = invitation.grantId ∧ g.status = .active ∧
    g.revokedAtMs = none) → g.createdAtMs ≤ nowMs) .conflict
  changedOnce (s.yardAccessGrants.count fun g =>
    g.id = invitation.grantId ∧ g.status = .active ∧ g.revokedAtMs = none)
  ensure (∀ k ∈ s.yardGuestLoginKeys, (k.invitationId = invitation.id ∧ k.revokedAtMs = none) →
    k.createdAtMs ≤ nowMs) .conflict
  return { s with
    yardAccessGrants := s.yardAccessGrants.update
      (fun g => g.id = invitation.grantId ∧ g.status = .active ∧ g.revokedAtMs = none)
      (fun g => { g with status := .revoked, revokedAtMs := some nowMs })
      (YardAccessGrantRecord.revoked_id nowMs)
    yardGuestLoginKeys := s.yardGuestLoginKeys.update
      (fun k => k.invitationId = invitation.id ∧ k.revokedAtMs = none)
      fun k => { k with revokedAtMs := some nowMs } }

/-- `revoke_yard_guest_invite`. -/
def revokeYardGuestInvite (s : Repository) (yardId invitationId : String) (nowMs : ℕ)
    (event : NewAuditEvent) : Except RepositoryError (YardGuestInviteRecord × Repository) := do
  validateTexts [yardId, invitationId]
  let found ← s.invitationById invitationId
  let (invitation, record) ← requireRow found
  ensure (invitation.yardId = yardId) .notFound
  ensure (invitation.status ≠ .revoked) .conflict
  validateGuestEvent event "yard.guest_invite.revoked" invitation invitation.acceptedSubjectId nowMs
  ensure (invitation.createdAtMs ≤ nowMs) .conflict
  let s : Repository := { s with
    yardGuestInvitations := s.yardGuestInvitations.update
      (fun row => row.id = invitation.id ∧ (row.status = .pending ∨ row.status = .accepted))
      (revokedRow nowMs) }
  let s ← s.revokeAuthority invitation nowMs
  let s ← s.insertAudit event
  return ({ record with status := .revoked, revokedAtMs := some nowMs }, s)

/-! ### Signing in -/

/-- The authority that stands behind a guest key. -/
def HasGuestAuthority (s : Repository) (subjectId : String) (nowMs : ℕ) : Prop :=
  ∃ x ∈ s.yardSubjects, x.id = subjectId ∧ x.kind = .guest ∧ x.revokedAtMs = none ∧
    ∃ row ∈ s.yardGuestInvitations, x.invitationId = some row.id ∧
      row.workspaceId = x.workspaceId ∧ row.status = .accepted ∧
      row.acceptedSubjectId = some x.id ∧ nowMs < row.expiresAtMs ∧
      ∃ grant ∈ s.yardAccessGrants, grant.id = row.grantId ∧ grant.yardId = row.yardId ∧
        grant.principalKind = .guestInvite ∧ grant.principalId = row.id ∧
        grant.status = .active ∧ grant.revokedAtMs = none ∧
        ∃ expires ∈ grant.expiresAtMs, nowMs < expires

instance (s : Repository) (subjectId : String) (nowMs : ℕ) :
    Decidable (s.HasGuestAuthority subjectId nowMs) :=
  inferInstanceAs (Decidable (∃ x ∈ s.yardSubjects, _))

/-- `authenticate_yard_guest_key`. -/
def authenticateYardGuestKey (s : Repository) (secretHash : String) (nowMs : ℕ) :
    Except RepositoryError (YardSubjectRecord × Repository) := do
  validateHash secretHash
  toI64 nowMs
  let key ← requireRow (s.yardGuestLoginKeys.select fun k =>
    k.secretHash = secretHash ∧ k.revokedAtMs = none ∧ k.createdAtMs ≤ nowMs ∧
      nowMs < k.expiresAtMs ∧ s.HasGuestAuthority k.subjectId nowMs).head?
  let subject ← requireRow (s.yardSubjects.find? key.subjectId)
  ensure (ValidSubject subject) .unavailable
  return (subject, { s with
    yardGuestLoginKeys := s.yardGuestLoginKeys.update (fun k => k.id = key.id)
      fun k => { k with lastUsedAtMs := some (max nowMs (k.lastUsedAtMs.getD 0)) } })

/-! ### What the operations do -/

variable {s s' : Repository} {nowMs : ℕ} {event : NewAuditEvent}

omit [Unicode] in
theorem grantOf_eq_some {row : YardGuestInvitationRow} {grant : YardAccessGrantRecord} :
    s.grantOf row = some grant ↔
      grant ∈ s.yardAccessGrants ∧ grant.id = row.grantId ∧ grant.yardId = row.yardId := by
  simp [grantOf, Option.filter_eq_some_iff, Table.find?_eq_some, and_assoc]

theorem invitationById_spec {invitationId : String}
    {joined : YardGuestInvitationRow × YardGuestInviteRecord}
    (h : s.invitationById invitationId = .ok (some joined)) :
    joined.1 ∈ s.yardGuestInvitations ∧ joined.1.id = invitationId ∧
      ∃ grant ∈ s.yardAccessGrants, ValidInvitation joined.1 grant := by
  unfold invitationById at h
  split at h
  · simp at h
  · rename_i row hrow
    obtain ⟨hmem, hid⟩ := Table.find?_eq_some.mp hrow
    split at h
    · simp at h
    · rename_i grant hgrant
      simp only [map_eq_ok, decodeInvitation, bind_eq_ok, pure_eq_ok, ensure_eq_ok,
        Option.some.injEq] at h
      obtain ⟨record, ⟨-, hvalid, -⟩, rfl⟩ := h
      exact ⟨hmem, hid, grant, (grantOf_eq_some.mp hgrant).1, hvalid⟩

theorem pendingByHash_spec {tokenHash : String}
    {joined : YardGuestInvitationRow × YardGuestInviteRecord}
    (h : s.pendingByHash tokenHash nowMs = .ok joined) :
    joined.1 ∈ s.yardGuestInvitations ∧ s.PendingInvitation tokenHash nowMs joined.1 := by
  simp only [pendingByHash, bind_eq_ok] at h
  obtain ⟨-, -, records, -, h⟩ := h
  split at h
  · rename_i row record hrow
    rw [pure_eq_ok] at h
    subst h
    have hmem : row ∈ (s.yardGuestInvitations.select (s.PendingInvitation tokenHash nowMs)).take 2 :=
      hrow ▸ List.mem_singleton_self row
    exact Table.mem_select.mp (List.mem_of_mem_take hmem)
  · cases h

/-- Creating an invitation inserts its row and its grant, which match each other, for an active
yard with room for it. -/
theorem createYardGuestInvite_spec {invitation : NewYardGuestInvite} {grant : NewYardAccessGrant}
    {record : YardGuestInviteRecord}
    (h : s.createYardGuestInvite invitation grant event = .ok (record, s')) :
    ∃ yard roles grants invitations audits,
      s' = { s with
        yardAccessGrants := grants, yardGuestInvitations := invitations, auditEvents := audits } ∧
      yard ∈ s.webYards ∧ yard.id = invitation.yardId ∧ yard.workspaceId = invitation.workspaceId ∧
      yard.projectId = invitation.projectId ∧ ValidRoles roles ∧
      ValidInvitation (invitationRow invitation) (grantRow grant roles) ∧
      (∀ id ∈ invitation.environmentId, s.ActiveProduction invitation.yardId id) ∧
      s.yardAccessGrants.Inserted grants (grantRow grant roles) ∧
      s.yardGuestInvitations.Inserted invitations (invitationRow invitation) ∧
      (∀ row ∈ s.yardGuestInvitations, row.tokenHash ≠ some invitation.tokenHash) ∧
      s.yardGuestInvitations.count (fun row => row.yardId = invitation.yardId ∧
        OpenInvitation invitation.createdAtMs row) < maximumActiveYardGuestInvites ∧
      (∀ row ∈ s.yardGuestInvitations, ¬(row.yardId = invitation.yardId ∧
        row.environmentId = invitation.environmentId ∧ row.email = invitation.email ∧
        OpenInvitation invitation.createdAtMs row)) ∧
      Audited s.auditEvents audits event := by
  simp only [createYardGuestInvite, validateGuestInvite, requireInviteCapacity, bind_eq_ok,
    pure_eq_ok, ensure_eq_ok, insertRow_eq_ok, ofOption_eq_ok, activeYard_eq_ok,
    Prod.mk.injEq] at h
  obtain ⟨-, ⟨-, -, -, -, yard, ⟨hyard, hid, -⟩, -, ⟨-, -, hworkspace, hproject, -⟩, -,
    ⟨hscope, -⟩, henvironment⟩, -, -, -, -, -, ⟨-, hcapacity, hduplicate⟩, roles, hroles, grants,
    hgrants, -, htoken, invitations, hinvitations, s₁, haudit, found, hfound, created, rfl, -,
    rfl⟩ := h
  have haudited := insertAudit_audited haudit
  obtain ⟨audits, rfl⟩ := insertAudit_spec haudit
  have hinserted := Table.inserted_of_insert hinvitations
  have hgranted := Table.inserted_of_insert hgrants
  obtain ⟨hmem, hcreated, stored, hstored, hvalid⟩ := invitationById_spec hfound
  have hrow : created.1 = invitationRow invitation :=
    Table.eq_of_key hmem hinserted.mem_new hcreated
  rw [hrow] at hvalid
  have hgrant : stored = grantRow grant roles :=
    Table.eq_of_key hstored hgranted.mem_new (hvalid.scope.id.trans hscope.id.symm)
  rw [hgrant] at hvalid
  refine ⟨yard, roles, grants, invitations, audits, rfl, hyard, hid, hworkspace, hproject, ?_,
    hvalid, henvironment, hgranted, hinserted, htoken, hcapacity, hduplicate, haudited⟩
  exact validRoles_of_validatedRoles hroles

/-- Accepting inserts the guest subject and its key and closes the token of one pending row. -/
theorem acceptYardGuestInvite_spec {tokenHash : String} {subject : YardSubjectRecord}
    {key : YardGuestLoginKeyRecord} {continuation : NewYardContinuation}
    {acceptance : YardGuestAcceptance}
    (h : s.acceptYardGuestInvite tokenHash subject key continuation event nowMs =
      .ok (acceptance, s')) :
    ∃ row invitations subjects keys continuations audits,
      s' = { s with
        yardGuestInvitations := invitations, yardSubjects := subjects, yardGuestLoginKeys := keys
        yardContinuations := continuations, auditEvents := audits } ∧
      s.PendingInvitation tokenHash nowMs row ∧ row.createdAtMs ≤ nowMs ∧
      s.yardGuestInvitations.Replaced invitations row (acceptedRow subject.id nowMs row) ∧
      subject.kind = .guest ∧ subject.invitationId = some row.id ∧
      subject.workspaceId = row.workspaceId ∧ ValidSubject subject ∧
      s.yardSubjects.Inserted subjects subject ∧
      key.subjectId = subject.id ∧ key.invitationId = row.id ∧
      key.workspaceId = row.workspaceId ∧ key.expiresAtMs = row.expiresAtMs ∧
      s.yardGuestLoginKeys.Inserted keys key ∧
      (∀ k ∈ s.yardGuestLoginKeys, k.secretHash ≠ key.secretHash) ∧
      Audited s.auditEvents audits event := by
  simp only [acceptYardGuestInvite, validateAcceptance, validateNewGuestKey, insertGuestSubject,
    insertGuestKey, bind_eq_ok, pure_eq_ok, ensure_eq_ok, insertRow_eq_ok, Prod.mk.injEq] at h
  obtain ⟨-, -, joined, hpending, -, ⟨-, hvalid, -, ⟨-, -, -, -, -, hused, hrevoked⟩, -, -, -,
    ⟨hkind, hworkspace, hinvitation, -, hlive⟩, -, ⟨hksubject, hkinvitation, hkworkspace, -, hkexpires⟩,
    -⟩, s₁, ⟨-, -, subjects, hsubjects, rfl⟩, -, htime, -, -, s₂, ⟨-, -, -, hsecret, keys, hkeys, rfl⟩,
    s₃, hissue, s₄, haudit, -, rfl⟩ := h
  obtain ⟨hmem, htoken⟩ := pendingByHash_spec hpending
  obtain ⟨continuations, rfl⟩ := issueYardExchangeCode_frame hissue
  have haudited := insertAudit_audited haudit
  obtain ⟨audits, rfl⟩ := insertAudit_spec haudit
  have hsubject : { subject with kind := .guest, localUserId := none, revokedAtMs := none } =
      subject := by
    have hlocal := (hvalid.2.2.2.1 hkind).1
    cases subject
    simp_all
  have hkey : { key with lastUsedAtMs := none, revokedAtMs := none } = key := by
    cases key
    simp_all
  rw [hsubject] at hsubjects
  rw [hkey] at hkeys
  refine ⟨joined.1, _, subjects, keys, continuations, audits, rfl, htoken, htime,
    Table.replaced_update hmem (Table.guard_iff_eq hmem ⟨htoken.2.1, htoken.1, htoken.2.2.1⟩),
    hkind, hinvitation, hworkspace, hvalid, Table.inserted_of_insert hsubjects, hksubject,
    hkinvitation, hkworkspace, hkexpires, Table.inserted_of_insert hkeys, hsecret, haudited⟩

/-- Revoking closes the row, its grant and the keys of its guest. -/
theorem revokeYardGuestInvite_spec {yardId invitationId : String} {record : YardGuestInviteRecord}
    (h : s.revokeYardGuestInvite yardId invitationId nowMs event = .ok (record, s')) :
    ∃ row grant invitations grants keys audits,
      s' = { s with
        yardGuestInvitations := invitations, yardAccessGrants := grants, yardGuestLoginKeys := keys
        auditEvents := audits } ∧
      row.id = invitationId ∧ row.yardId = yardId ∧ row.status ≠ .revoked ∧
      row.createdAtMs ≤ nowMs ∧
      s.yardGuestInvitations.Replaced invitations row (revokedRow nowMs row) ∧
      grant.id = row.grantId ∧ grant.createdAtMs ≤ nowMs ∧
      s.yardAccessGrants.Replaced grants grant
        { grant with status := .revoked, revokedAtMs := some nowMs } ∧
      s.yardGuestLoginKeys.Mapped keys (fun k =>
        if k.invitationId = row.id ∧ k.revokedAtMs = none then
          { k with revokedAtMs := some nowMs } else k) ∧
      Audited s.auditEvents audits event := by
  simp only [revokeYardGuestInvite, revokeAuthority, bind_eq_ok, pure_eq_ok, ensure_eq_ok,
    requireRow_eq_ok, changedOnce_eq_ok, Prod.mk.injEq] at h
  obtain ⟨-, -, found, hfound, joined, rfl, -, hyard, -, hstatus, -, -, -, htime, s₁,
    ⟨-, hgtime, -, hone, -, -, rfl⟩, s₂, haudit, -, rfl⟩ := h
  obtain ⟨hmem, hid, -⟩ := invitationById_spec hfound
  have haudited := insertAudit_audited haudit
  obtain ⟨audits, rfl⟩ := insertAudit_spec haudit
  obtain ⟨grant, hgrant, hgid, hgactive, hglive⟩ := Table.exists_of_count_eq_one hone
  have hopen : joined.1.status = .pending ∨ joined.1.status = .accepted := by
    cases hcase : joined.1.status with
    | pending => exact Or.inl rfl
    | accepted => exact Or.inr rfl
    | revoked => exact absurd hcase hstatus
  refine ⟨joined.1, grant, _, _, _, audits, rfl, hid, hyard, hstatus, htime,
    Table.replaced_update hmem (Table.guard_iff_eq hmem hopen), hgid,
    hgtime grant hgrant ⟨hgid, hgactive, hglive⟩, ?_, Table.mapped_update, haudited⟩
  refine Table.replaced_update (p := fun g =>
      g.id = joined.1.grantId ∧ g.status = .active ∧ g.revokedAtMs = none)
    (f := fun g => { g with status := .revoked, revokedAtMs := some nowMs }) hgrant ?_
  rw [← hgid]
  exact Table.guard_iff_eq hgrant ⟨hgactive, hglive⟩

omit [Unicode] in
/-- Signing in with a guest key marks it as used; its subject has authority. -/
theorem authenticateYardGuestKey_spec {secretHash : String} {subject : YardSubjectRecord}
    (h : s.authenticateYardGuestKey secretHash nowMs = .ok (subject, s')) :
    ∃ keys key, s' = { s with yardGuestLoginKeys := keys } ∧
      s.yardGuestLoginKeys.Mapped keys (fun k =>
        if k.id = key.id then { k with lastUsedAtMs := some (max nowMs (k.lastUsedAtMs.getD 0)) }
        else k) ∧
      key ∈ s.yardGuestLoginKeys ∧ key.secretHash = secretHash ∧ key.revokedAtMs = none ∧
      nowMs < key.expiresAtMs ∧ subject ∈ s.yardSubjects ∧ key.subjectId = subject.id ∧
      s.HasGuestAuthority subject.id nowMs := by
  simp only [authenticateYardGuestKey, bind_eq_ok, pure_eq_ok, requireRow_eq_ok,
    Prod.mk.injEq] at h
  obtain ⟨-, -, -, -, key, hkey, found, hfound, -, -, rfl, rfl⟩ := h
  obtain ⟨hmem, hsecret, hlive, -, hexpires, hauthority⟩ :=
    Table.mem_select.mp (List.mem_of_head? hkey)
  obtain ⟨hsubject, hid⟩ := Table.find?_eq_some.mp hfound
  rw [← hid] at hauthority
  exact ⟨_, key, rfl, Table.mapped_update, hmem, hsecret, hlive, hexpires, hsubject, hid.symm,
    hauthority⟩

end Repository

end Guests

end BlobYard
