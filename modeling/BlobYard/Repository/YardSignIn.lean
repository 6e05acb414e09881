/-
Signing in through an OpenID Connect provider.

A start stores an attempt under the hash of its state, a callback claims it and then presents the
identity that the provider vouches for.  The identity is bound to one subject of the workspace at
its first callback; later callbacks find the binding.

* `normalizeOidcIssuer`, `normalizeOidcEmail` — the texts of an identity;
* `createYardOidcAttempt`, `claimYardOidcAttempt` — attempts, with their housekeeping;
* `authenticateYardOidcIdentity` — the callback, which may commit a denial;
* `Recognised` — the subjects that a verified email stands for;
* `candidates_eq_singleton` — the query finds one row if and only if it stands for one subject;
* `*_spec` — what the operations change.
-/
import BlobYard.Repository.YardGuests
import BlobYard.Repository.YardSessions

namespace BlobYard

open Outcome

/-- Lifetime of a sign-in attempt: ten minutes. -/
def yardOidcAttemptLifetimeMs : ℕ := 600000

/-- The most attempts that one housekeeping removes. -/
def yardOidcAttemptCleanupLimit : ℕ := 100

structure NewYardOidcAttempt where
  stateHash : String
  continuationHash : String
  hostLabel : String
  returnPath : String
  createdAtMs : ℕ
  expiresAtMs : ℕ
  deriving DecidableEq

structure YardOidcAttemptRecord where
  attempt : NewYardOidcAttempt
  claimedAtMs : Option ℕ
  deriving DecidableEq

structure YardOidcIdentityRecord where
  issuer : String
  providerSubject : String
  workspaceId : String
  yardSubjectId : String
  normalizedEmail : String
  createdAtMs : ℕ
  lastAuthenticatedAtMs : ℕ
  deriving DecidableEq

structure NewYardOidcAuthentication where
  issuer : String
  providerSubject : String
  normalizedEmail : Option String
  hostLabel : String
  authenticatedAtMs : ℕ
  deriving DecidableEq

structure YardOidcAuditContext where
  id : String
  requestId : String
  deriving DecidableEq

/-- The key of an identity. -/
def identityKey (identity : YardOidcIdentityRecord) : String × String × String :=
  (identity.issuer, identity.providerSubject, identity.workspaceId)

/-- The repository, with the tables of the sign-in. -/
structure SignInStore where
  repository : Repository
  attempts : Table fun record : YardOidcAttemptRecord => record.attempt.stateHash
  identities : Table identityKey

/-! ### The texts of an identity -/

/-- The host of an issuer. -/
inductive IssuerHost where
  | domain (name : String)
  | address (loopback : Bool)

/-- What the parser of URLs makes of an issuer. -/
structure IssuerUrl where
  scheme : String
  host : Option IssuerHost
  username : String
  password : Option String
  query : Option String
  fragment : Option String
  asStr : String

/-- `Url::parse`, with the text that the parsed URL is written as. -/
class IssuerParser where
  parse : String → Option IssuerUrl

def IssuerHost.isLoopback : IssuerHost → Bool
  | .domain name => name.toList.map Char.toLower = "localhost".toList
  | .address loopback => loopback

/-- `normalize_oidc_issuer`. -/
def normalizeOidcIssuer [IssuerParser] (value : String) : Option String := do
  let parsed ← IssuerParser.parse value
  let host ← parsed.host
  if (parsed.scheme = "https" ∨ parsed.scheme = "http" ∧ host.isLoopback = true) ∧
      parsed.username = "" ∧ parsed.password = none ∧ parsed.query = none ∧
      parsed.fragment = none then
    some parsed.asStr
  else none

/-- `normalize_oidc_email`. -/
def normalizeOidcEmail [Unicode] (value : String) : Option String :=
  let normalized := Unicode.toLowercase (trim value)
  if 3 ≤ normalized.utf8ByteSize ∧ normalized.utf8ByteSize ≤ 254 ∧
      (∀ c ∈ normalized.toList, isControl c = false ∧ isWhitespace c = false) ∧
      '@' ∈ normalized.toList ∧ normalized.toList.head? ≠ some '@' ∧
      normalized.toList.getLast? ≠ some '@' ∧ normalized.toList.count '@' = 1 then
    some normalized
  else none

/-- `is_valid_oidc_provider_subject`. -/
def ValidOidcProviderSubject (value : String) : Prop :=
  1 ≤ value.utf8ByteSize ∧ value.utf8ByteSize ≤ 512 ∧ ∀ c ∈ value.toList, isControl c = false

instance (value : String) : Decidable (ValidOidcProviderSubject value) :=
  inferInstanceAs (Decidable (_ ∧ _ ∧ _))

/-! ### Attempts -/

/-- `validation::attempt`. -/
def validateAttempt (value : NewYardOidcAttempt) : Except RepositoryError Unit := do
  validateHash value.stateHash
  validateHash value.continuationHash
  validateHostLabel value.hostLabel
  ensure (ValidReturnPath value.returnPath) .invalidInput
  ensure (min (value.createdAtMs + yardOidcAttemptLifetimeMs) u64Max = value.expiresAtMs)
    .invalidInput

/-- `rows::attempt`: a row that does not pass its own checks cannot be read. -/
def decodeAttempt (record : YardOidcAttemptRecord) :
    Except RepositoryError YardOidcAttemptRecord := do
  (validateAttempt record.attempt).mapError fun _ => .unavailable
  ensure (∀ claimed ∈ record.claimedAtMs,
    record.attempt.createdAtMs ≤ claimed ∧ claimed < record.attempt.expiresAtMs) .unavailable
  return record

/-- An attempt that housekeeping may remove. -/
def SettledAttempt (nowMs : ℕ) (record : YardOidcAttemptRecord) : Prop :=
  record.claimedAtMs ≠ none ∨ record.attempt.expiresAtMs ≤ nowMs

instance (nowMs : ℕ) : DecidablePred (SettledAttempt nowMs) := fun _ =>
  inferInstanceAs (Decidable (_ ∨ _))

/-- The order of housekeeping. -/
def attemptOrder (record : YardOidcAttemptRecord) : ℕ ×ₗ ℕ ×ₗ String :=
  toLex (record.attempt.expiresAtMs,
    toLex (record.attempt.createdAtMs, record.attempt.stateHash))

/-- A claimable attempt: it is not claimed and in its lifetime. -/
def ClaimableAttempt (stateHash : String) (nowMs : ℕ) (record : YardOidcAttemptRecord) : Prop :=
  record.attempt.stateHash = stateHash ∧ record.claimedAtMs = none ∧
    record.attempt.createdAtMs ≤ nowMs ∧ nowMs < record.attempt.expiresAtMs

instance (stateHash : String) (nowMs : ℕ) : DecidablePred (ClaimableAttempt stateHash nowMs) :=
  fun _ => inferInstanceAs (Decidable (_ ∧ _ ∧ _ ∧ _))

namespace SignInStore

/-- `cleanup`. -/
def cleanup (s : SignInStore) (nowMs : ℕ) : SignInStore :=
  let settled := (orderBy attemptOrder (s.attempts.select (SettledAttempt nowMs))).take
    yardOidcAttemptCleanupLimit
  { s with
    attempts := s.attempts.erase fun record =>
      record.attempt.stateHash ∈ settled.map fun x => x.attempt.stateHash }

/-- `create_yard_oidc_attempt`; the checks of the columns follow from the validation. -/
def createYardOidcAttempt (s : SignInStore) (attempt : NewYardOidcAttempt) :
    Except RepositoryError SignInStore := do
  validateAttempt attempt
  toI64 attempt.createdAtMs
  let s := s.cleanup attempt.createdAtMs
  toI64 attempt.expiresAtMs
  ensure (∀ record ∈ s.attempts, record.attempt.continuationHash ≠ attempt.continuationHash)
    .conflict
  let attempts ← insertRow s.attempts { attempt, claimedAtMs := none }
  return { s with attempts }

/-- `claim_yard_oidc_attempt`. -/
def claimYardOidcAttempt (s : SignInStore) (stateHash : String) (nowMs : ℕ) :
    Except RepositoryError (YardOidcAttemptRecord × SignInStore) := do
  validateHash stateHash
  toI64 nowMs
  let s := s.cleanup nowMs
  let claimed ← requireRow ((s.attempts.find? stateHash).filter (ClaimableAttempt stateHash nowMs))
  let record ← decodeAttempt { claimed with claimedAtMs := some nowMs }
  return (record, { s with
    attempts := s.attempts.update (ClaimableAttempt stateHash nowMs) fun record =>
      { record with claimedAtMs := some nowMs } })

end SignInStore

/-! ### Callbacks -/

/-- The yard that a callback is for. -/
structure YardScope where
  yardId : String
  environmentId : String
  workspaceId : String
  deriving DecidableEq

section Callbacks

variable [Unicode] [IssuerParser]

/-- `validation::authentication`. -/
def validateAuthentication (value : NewYardOidcAuthentication) (audit : YardOidcAuditContext) :
    Except RepositoryError Unit := do
  validateText audit.id
  validateText audit.requestId
  validateHostLabel value.hostLabel
  ensure (normalizeOidcIssuer value.issuer = some value.issuer ∧
    (∀ email ∈ value.normalizedEmail,
      normalizeOidcEmail email = some email ∧ NormalizedEmail email) ∧
    ValidOidcProviderSubject value.providerSubject) .invalidInput

/-- What `rows::identity` requires of a row. -/
def ValidIdentity (identity : YardOidcIdentityRecord) : Prop :=
  ValidText identity.workspaceId ∧ ValidText identity.yardSubjectId ∧
    normalizeOidcIssuer identity.issuer = some identity.issuer ∧
    normalizeOidcEmail identity.normalizedEmail = some identity.normalizedEmail ∧
    ValidOidcProviderSubject identity.providerSubject ∧
    identity.createdAtMs ≤ identity.lastAuthenticatedAtMs

instance (identity : YardOidcIdentityRecord) : Decidable (ValidIdentity identity) :=
  inferInstanceAs (Decidable (_ ∧ _ ∧ _ ∧ _ ∧ _ ∧ _))

end Callbacks

namespace Repository

/-- `scope`: the one active yard with its production environment behind the host label. -/
def signInScope (s : Repository) (hostLabel : String) : Except RepositoryError YardScope :=
  let scopes := (s.webYards.select fun y => y.status = .active ∧ s.HostedAt hostLabel y).flatMap
    fun y => (s.yardEnvironments.select (ServesProduction y)).map fun e =>
      ({ yardId := y.id, environmentId := e.id, workspaceId := y.workspaceId } : YardScope)
  match scopes.take 2 with
  | [scope] => .ok scope
  | _ => .error .notFound

/-- The subject stands for an active user. -/
def MemberActive (s : Repository) (subject : YardSubjectRecord) : Prop :=
  subject.kind = .member ∧ ∃ user ∈ s.localUsers, subject.localUserId = some user.id ∧
    user.workspaceId = subject.workspaceId ∧ user.status = .active ∧ user.deactivatedAtMs = none

instance (s : Repository) (subject : YardSubjectRecord) : Decidable (s.MemberActive subject) :=
  inferInstanceAs (Decidable (_ ∧ ∃ user ∈ s.localUsers, _))

/-- The subject stands for a guest with an accepted invitation in force, and its grant. -/
def GuestActive (s : Repository) (subject : YardSubjectRecord) (nowMs : ℕ) : Prop :=
  subject.kind = .guest ∧ ∃ invitation ∈ s.yardGuestInvitations,
    subject.invitationId = some invitation.id ∧ InvitationInForce invitation subject nowMs ∧
      ∃ grant ∈ s.yardAccessGrants, grant.id = invitation.grantId ∧
        grant.yardId = invitation.yardId ∧ grant.principalKind = .guestInvite ∧
        grant.principalId = invitation.id ∧ grant.status = .active ∧ grant.revokedAtMs = none ∧
        grant.expiresAtMs = some invitation.expiresAtMs

instance (s : Repository) (subject : YardSubjectRecord) (nowMs : ℕ) :
    Decidable (s.GuestActive subject nowMs) :=
  inferInstanceAs (Decidable (_ ∧ ∃ invitation ∈ s.yardGuestInvitations, _ ∧ _ ∧
    ∃ grant ∈ s.yardAccessGrants, _))

/-- `authority::active`. -/
def SubjectActive (s : Repository) (identity : YardOidcIdentityRecord) (nowMs : ℕ) : Prop :=
  ∃ subject ∈ s.yardSubjects, subject.id = identity.yardSubjectId ∧
    subject.workspaceId = identity.workspaceId ∧ subject.revokedAtMs = none ∧
    (s.MemberActive subject ∨ s.GuestActive subject nowMs)

instance (s : Repository) (identity : YardOidcIdentityRecord) (nowMs : ℕ) :
    Decidable (s.SubjectActive identity nowMs) :=
  inferInstanceAs (Decidable (∃ subject ∈ s.yardSubjects, _))

/-- The user is active in the workspace under the email. -/
def UserWithEmail (workspaceId email : String) (user : LocalUserRecord) : Prop :=
  user.workspaceId = workspaceId ∧ user.email = some email ∧ user.status = .active ∧
    user.deactivatedAtMs = none

instance (workspaceId email : String) : DecidablePred (UserWithEmail workspaceId email) :=
  fun _ => inferInstanceAs (Decidable (_ ∧ _ ∧ _ ∧ _))

/-- The subject is the one of the user. -/
def SubjectOfUser (user : LocalUserRecord) (subject : YardSubjectRecord) : Prop :=
  subject.id = user.id ∧ subject.kind = .member ∧ subject.workspaceId = user.workspaceId ∧
    subject.localUserId = some user.id ∧ subject.invitationId = none ∧
    subject.revokedAtMs = none

instance (user : LocalUserRecord) : DecidablePred (SubjectOfUser user) := fun _ =>
  inferInstanceAs (Decidable (_ ∧ _ ∧ _ ∧ _ ∧ _ ∧ _))

/-- The invitation to the yard was accepted under the email and covers the environment. -/
def InvitationWithEmail (scope : YardScope) (email : String) (nowMs : ℕ)
    (invitation : YardGuestInvitationRow) : Prop :=
  invitation.workspaceId = scope.workspaceId ∧ invitation.email = email ∧
    invitation.yardId = scope.yardId ∧ invitation.status = .accepted ∧
    invitation.revokedAtMs = none ∧ nowMs < invitation.expiresAtMs ∧
    ∀ id ∈ invitation.environmentId, id = scope.environmentId

instance (scope : YardScope) (email : String) (nowMs : ℕ) :
    DecidablePred (InvitationWithEmail scope email nowMs) := fun _ =>
  inferInstanceAs (Decidable (_ ∧ _ ∧ _ ∧ _ ∧ _ ∧ _ ∧ _))

/-- The subject is the one that accepted the invitation. -/
def SubjectOfInvitation (invitation : YardGuestInvitationRow) (subject : YardSubjectRecord) :
    Prop :=
  invitation.acceptedSubjectId = some subject.id ∧ subject.workspaceId = invitation.workspaceId ∧
    subject.invitationId = some invitation.id ∧ subject.kind = .guest ∧
    subject.localUserId = none ∧ subject.revokedAtMs = none

instance (invitation : YardGuestInvitationRow) : DecidablePred (SubjectOfInvitation invitation) :=
  fun _ => inferInstanceAs (Decidable (_ ∧ _ ∧ _ ∧ _ ∧ _ ∧ _))

/-- The users among the candidates. -/
def memberCandidates (s : Repository) (scope : YardScope) (email : String) : List String :=
  (s.localUsers.select (UserWithEmail scope.workspaceId email)).flatMap fun user =>
    (s.yardSubjects.select (SubjectOfUser user)).map YardSubjectRecord.id

/-- The guests among the candidates. -/
def guestCandidates (s : Repository) (scope : YardScope) (email : String) (nowMs : ℕ) :
    List String :=
  (s.yardGuestInvitations.select (InvitationWithEmail scope email nowMs)).flatMap fun invitation =>
    (s.yardSubjects.select (SubjectOfInvitation invitation)).flatMap fun subject =>
      (s.yardAccessGrants.select fun grant =>
        grant.id = invitation.grantId ∧ GrantOfInvitation grant invitation).map fun _ => subject.id

/-- `candidates`: the first two rows. -/
def candidates (s : Repository) (scope : YardScope) (email : String) (nowMs : ℕ) : List String :=
  (s.memberCandidates scope email ++ s.guestCandidates scope email nowMs).take 2

end Repository

/-- The identity that a first callback binds. -/
def newIdentity (authentication : NewYardOidcAuthentication)
    (email workspaceId subjectId : String) : YardOidcIdentityRecord where
  issuer := authentication.issuer
  providerSubject := authentication.providerSubject
  workspaceId := workspaceId
  yardSubjectId := subjectId
  normalizedEmail := email
  createdAtMs := authentication.authenticatedAtMs
  lastAuthenticatedAtMs := authentication.authenticatedAtMs

/-- The event of a first binding. -/
def linkEvent (audit : YardOidcAuditContext) (scope : YardScope) (subjectId : String)
    (nowMs : ℕ) : NewAuditEvent where
  id := audit.id
  workspaceId := scope.workspaceId
  actor := subjectId
  action := "yard.oidc_identity_linked"
  requestId := audit.requestId
  targetType := "yard_oidc_identity"
  metadata := [("subjectId", .string subjectId), ("yardId", .string scope.yardId)]
  createdAtMs := nowMs

namespace SignInStore

variable [Unicode] [IssuerParser]

/-- `existing`. -/
def existing (s : SignInStore) (authentication : NewYardOidcAuthentication) (workspaceId : String) :
    Except RepositoryError (Option YardOidcIdentityRecord) :=
  match s.identities.find? (authentication.issuer, authentication.providerSubject, workspaceId) with
  | none => return none
  | some identity => do
    ensure (ValidIdentity identity) .unavailable
    return some identity

/-- `authenticate_existing`; no identity stands for a denial. -/
def authenticateExisting (s : SignInStore) (authentication : NewYardOidcAuthentication)
    (identity : YardOidcIdentityRecord) :
    Except RepositoryError (Option YardOidcIdentityRecord × SignInStore) :=
  let nowMs := authentication.authenticatedAtMs
  if authentication.normalizedEmail ≠ some identity.normalizedEmail then do
    let repository ← s.repository.revokeForUser identity.yardSubjectId nowMs
    return (none, { s with repository })
  else if nowMs < identity.createdAtMs ∨ ¬s.repository.SubjectActive identity nowMs then
    return (none, s)
  else
    let touched (row : YardOidcIdentityRecord) : YardOidcIdentityRecord :=
      { row with lastAuthenticatedAtMs := max row.lastAuthenticatedAtMs nowMs }
    return (some (touched identity), { s with
      identities := s.identities.update (fun row => identityKey row = identityKey identity)
        touched })

/-- `insert_identity`, with the checks of its columns. -/
def insertIdentity (s : SignInStore) (identity : YardOidcIdentityRecord) :
    Except RepositoryError SignInStore := do
  ensure (8 ≤ identity.issuer.length ∧ identity.issuer.length ≤ 2048 ∧
    (∀ c ∈ identity.normalizedEmail.toList, c.isUpper = false) ∧
    ∃ subject ∈ s.repository.yardSubjects, subject.id = identity.yardSubjectId ∧
      subject.workspaceId = identity.workspaceId) .conflict
  let identities ← insertRow s.identities identity
  return { s with identities }

/-- `identities::authenticate`. -/
def authenticate (s : SignInStore) (authentication : NewYardOidcAuthentication)
    (audit : YardOidcAuditContext) :
    Except RepositoryError (Option YardOidcIdentityRecord × SignInStore) := do
  validateAuthentication authentication audit
  toI64 authentication.authenticatedAtMs
  let scope ← s.repository.signInScope authentication.hostLabel
  let found ← s.existing authentication scope.workspaceId
  match found with
  | some identity => s.authenticateExisting authentication identity
  | none =>
    match authentication.normalizedEmail with
    | none => return (none, s)
    | some email =>
      match s.repository.candidates scope email authentication.authenticatedAtMs with
      | [subjectId] => do
        let identity := newIdentity authentication email scope.workspaceId subjectId
        let s ← s.insertIdentity identity
        let repository ← s.repository.insertAudit
          (linkEvent audit scope subjectId authentication.authenticatedAtMs)
        return (some identity, { s with repository })
      | _ => return (none, s)

/-- `authenticate_yard_oidc_identity`: a denial is committed before it is reported. -/
def authenticateYardOidcIdentity (s : SignInStore) (authentication : NewYardOidcAuthentication)
    (audit : YardOidcAuditContext) : Except RepositoryError YardOidcIdentityRecord × SignInStore :=
  match s.authenticate authentication audit with
  | .error e => (.error e, s)
  | .ok (none, s') => (.error .notFound, s')
  | .ok (some identity, s') => (.ok identity, s')

end SignInStore

/-! ### Recognised subjects -/

namespace Repository

variable {s : Repository} {scope : YardScope} {email : String} {nowMs : ℕ}

/-- The email stands for the subject: as an active user of the workspace, or as a guest of the yard
whose accepted invitation and its grant are in force. -/
def Recognised (s : Repository) (scope : YardScope) (email : String) (nowMs : ℕ)
    (subject : YardSubjectRecord) : Prop :=
  (∃ user ∈ s.localUsers, UserWithEmail scope.workspaceId email user ∧
      SubjectOfUser user subject) ∨
    ∃ invitation ∈ s.yardGuestInvitations, InvitationWithEmail scope email nowMs invitation ∧
      SubjectOfInvitation invitation subject ∧
      ∃ grant ∈ s.yardAccessGrants, grant.id = invitation.grantId ∧
        GrantOfInvitation grant invitation

/-- The email stands for this subject and for no other one. -/
def OnlyRecognised (s : Repository) (scope : YardScope) (email : String) (nowMs : ℕ)
    (subjectId : String) : Prop :=
  ∃ subject ∈ s.yardSubjects, subject.id = subjectId ∧ s.Recognised scope email nowMs subject ∧
    ∀ other ∈ s.yardSubjects, s.Recognised scope email nowMs other → other = subject

/-- The scope of a callback is an active yard behind the host label, with its production
environment. -/
theorem signInScope_spec {hostLabel : String} (h : s.signInScope hostLabel = .ok scope) :
    ∃ yard ∈ s.webYards, yard.status = .active ∧ s.HostedAt hostLabel yard ∧
      ∃ environment ∈ s.yardEnvironments, ServesProduction yard environment ∧
        scope = { yardId := yard.id, environmentId := environment.id,
                  workspaceId := yard.workspaceId } := by
  simp only [signInScope] at h
  split at h
  · rename_i found htake
    obtain rfl := Except.ok.inj h
    have hmem := List.mem_of_mem_take (htake ▸ List.mem_singleton_self found)
    obtain ⟨yard, hyard, hscope⟩ := List.mem_flatMap.mp hmem
    obtain ⟨environment, henvironment, rfl⟩ := List.mem_map.mp hscope
    obtain ⟨hyard, hactive, hhosted⟩ := Table.mem_select.mp hyard
    obtain ⟨henvironment, hserves⟩ := Table.mem_select.mp henvironment
    exact ⟨yard, hyard, hactive, hhosted, environment, henvironment, hserves, rfl⟩
  · cases h

/-- A recognised subject is live and of the workspace. -/
theorem Recognised.scoped {subject : YardSubjectRecord}
    (h : s.Recognised scope email nowMs subject) :
    subject.workspaceId = scope.workspaceId ∧ subject.revokedAtMs = none := by
  rcases h with ⟨user, -, huser, hsubject⟩ | ⟨invitation, -, hinvitation, hsubject, -⟩
  · exact ⟨hsubject.2.2.1.trans huser.1, hsubject.2.2.2.2.2⟩
  · exact ⟨hsubject.2.1.trans hinvitation.1, hsubject.2.2.2.2.2⟩

theorem mem_memberCandidates {id : String} : id ∈ s.memberCandidates scope email ↔
    ∃ subject ∈ s.yardSubjects, subject.id = id ∧ ∃ user ∈ s.localUsers,
      UserWithEmail scope.workspaceId email user ∧ SubjectOfUser user subject := by
  simp only [memberCandidates, List.mem_flatMap, List.mem_map, Table.mem_select]
  constructor
  · rintro ⟨user, ⟨hmem, huser⟩, subject, ⟨hsubject, hof⟩, rfl⟩
    exact ⟨subject, hsubject, rfl, user, hmem, huser, hof⟩
  · rintro ⟨subject, hsubject, rfl, user, hmem, huser, hof⟩
    exact ⟨user, ⟨hmem, huser⟩, subject, ⟨hsubject, hof⟩, rfl⟩

theorem mem_guestCandidates {id : String} : id ∈ s.guestCandidates scope email nowMs ↔
    ∃ subject ∈ s.yardSubjects, subject.id = id ∧ ∃ invitation ∈ s.yardGuestInvitations,
      InvitationWithEmail scope email nowMs invitation ∧ SubjectOfInvitation invitation subject ∧
      ∃ grant ∈ s.yardAccessGrants, grant.id = invitation.grantId ∧
        GrantOfInvitation grant invitation := by
  simp only [guestCandidates, List.mem_flatMap, List.mem_map, Table.mem_select]
  constructor
  · rintro ⟨invitation, ⟨hmem, hinvitation⟩, subject, ⟨hsubject, hof⟩, grant, ⟨hgrant, hid, hgof⟩,
      rfl⟩
    exact ⟨subject, hsubject, rfl, invitation, hmem, hinvitation, hof, grant, hgrant, hid, hgof⟩
  · rintro ⟨subject, hsubject, rfl, invitation, hmem, hinvitation, hof, grant, hgrant, hid, hgof⟩
    exact ⟨invitation, ⟨hmem, hinvitation⟩, subject, ⟨hsubject, hof⟩, grant, ⟨hgrant, hid, hgof⟩,
      rfl⟩

/-- Every user is at most one candidate. -/
theorem memberCandidates_nodup : (s.memberCandidates scope email).Nodup := by
  rw [memberCandidates, List.nodup_flatMap]
  refine ⟨fun user _ => ?_, ?_⟩
  · refine Table.select_nodup.map_on fun x hx y hy hid => ?_
    exact Table.eq_of_key (Table.mem_select.mp hx).1 (Table.mem_select.mp hy).1 hid
  · refine Table.select_nodup.imp_of_mem fun {user user'} huser huser' hne => ?_
    intro id hid hid'
    obtain ⟨subject, hsubject, rfl⟩ := List.mem_map.mp hid
    obtain ⟨subject', hsubject', heq⟩ := List.mem_map.mp hid'
    refine hne (Table.eq_of_key (Table.mem_select.mp huser).1 (Table.mem_select.mp huser').1 ?_)
    rw [← (Table.mem_select.mp hsubject).2.1, ← (Table.mem_select.mp hsubject').2.1, heq]

/-- Every invitation is at most one candidate. -/
theorem guestCandidates_nodup : (s.guestCandidates scope email nowMs).Nodup := by
  have hsame : ∀ {x y : YardSubjectRecord}, x ∈ s.yardSubjects → y ∈ s.yardSubjects →
      x.id = y.id → x = y := fun hx hy hid => Table.eq_of_key hx hy hid
  rw [guestCandidates, List.nodup_flatMap]
  refine ⟨fun invitation _ => ?_, ?_⟩
  · rw [List.nodup_flatMap]
    refine ⟨fun subject _ => ?_, ?_⟩
    -- the grant of an invitation is found by its key
    · refine Table.select_nodup.map_on fun x hx y hy _ => ?_
      obtain ⟨hxmem, hxid, -⟩ := Table.mem_select.mp hx
      obtain ⟨hymem, hyid, -⟩ := Table.mem_select.mp hy
      exact Table.eq_of_key hxmem hymem (hxid.trans hyid.symm)
    -- different subjects give different candidates
    · refine Table.select_nodup.imp_of_mem fun {x y} hx hy hne => ?_
      intro id hid hid'
      obtain ⟨-, -, rfl⟩ := List.mem_map.mp hid
      obtain ⟨-, -, heq⟩ := List.mem_map.mp hid'
      exact hne (hsame (Table.mem_select.mp hx).1 (Table.mem_select.mp hy).1 heq.symm)
  · refine Table.select_nodup.imp_of_mem fun {invitation invitation'} hi hi' hne => ?_
    intro id hid hid'
    obtain ⟨x, hx, hid⟩ := List.mem_flatMap.mp hid
    obtain ⟨y, hy, hid'⟩ := List.mem_flatMap.mp hid'
    obtain ⟨-, -, rfl⟩ := List.mem_map.mp hid
    obtain ⟨-, -, heq⟩ := List.mem_map.mp hid'
    obtain ⟨hxmem, hxof⟩ := Table.mem_select.mp hx
    obtain ⟨hymem, hyof⟩ := Table.mem_select.mp hy
    obtain rfl := hsame hymem hxmem heq
    -- one subject belongs to one invitation
    have hinvitation : some invitation.id = some invitation'.id :=
      hxof.2.2.1.symm.trans hyof.2.2.1
    exact hne (Table.eq_of_key (Table.mem_select.mp hi).1 (Table.mem_select.mp hi').1
      (Option.some.inj hinvitation))

/-- The query finds one row if and only if the email stands for one subject. -/
theorem candidates_eq_singleton {id : String} :
    s.candidates scope email nowMs = [id] ↔ s.OnlyRecognised scope email nowMs id := by
  set rows := s.memberCandidates scope email ++ s.guestCandidates scope email nowMs with hrows
  have hmem : ∀ x, x ∈ rows ↔ ∃ subject ∈ s.yardSubjects, subject.id = x ∧
      s.Recognised scope email nowMs subject := by
    intro x
    rw [hrows, List.mem_append, mem_memberCandidates, mem_guestCandidates]
    constructor
    · rintro (⟨subject, hsubject, hid, h⟩ | ⟨subject, hsubject, hid, h⟩)
      · exact ⟨subject, hsubject, hid, Or.inl h⟩
      · exact ⟨subject, hsubject, hid, Or.inr h⟩
    · rintro ⟨subject, hsubject, hid, h | h⟩
      · exact Or.inl ⟨subject, hsubject, hid, h⟩
      · exact Or.inr ⟨subject, hsubject, hid, h⟩
  have hnodup : rows.Nodup := by
    refine memberCandidates_nodup.append guestCandidates_nodup fun x hx hx' => ?_
    -- a member is no guest
    obtain ⟨subject, hsubject, rfl, user, -, -, huser⟩ := mem_memberCandidates.mp hx
    obtain ⟨subject', hsubject', heq, invitation, -, -, hguest, -⟩ := mem_guestCandidates.mp hx'
    obtain rfl := Table.eq_of_key hsubject' hsubject heq
    exact absurd (huser.2.1.symm.trans hguest.2.2.2.1) (by decide)
  have htake : rows.take 2 = [id] ↔ rows = [id] := by
    cases rows with
    | nil => simp
    | cons a rest =>
      cases rest with
      | nil => simp
      | cons b rest => simp
  have hperm : rows = [id] ↔ ∀ x, x ∈ rows ↔ x = id := by
    rw [← List.perm_singleton, List.perm_ext_iff_of_nodup hnodup (List.nodup_singleton id)]
    simp only [List.mem_singleton]
  rw [candidates, ← hrows, htake, hperm]
  constructor
  · intro h
    obtain ⟨subject, hsubject, hid, hrecognised⟩ := (hmem id).mp ((h id).mpr rfl)
    refine ⟨subject, hsubject, hid, hrecognised, fun other hother hother' => ?_⟩
    have hsame := (h other.id).mp ((hmem other.id).mpr ⟨other, hother, rfl, hother'⟩)
    exact Table.eq_of_key hother hsubject (hsame.trans hid.symm)
  · rintro ⟨subject, hsubject, rfl, hrecognised, honly⟩ x
    rw [hmem]
    constructor
    · rintro ⟨other, hother, rfl, hother'⟩
      rw [honly other hother hother']
    · rintro rfl
      exact ⟨subject, hsubject, rfl, hrecognised⟩

end Repository

/-! ### What the operations do -/

namespace SignInStore

variable {s s' : SignInStore} {nowMs : ℕ}

/-- Housekeeping removes attempts that are claimed or over, and nothing else. -/
theorem mem_cleanup {record : YardOidcAttemptRecord} (h : record ∈ (s.cleanup nowMs).attempts) :
    record ∈ s.attempts :=
  (Table.mem_erase.mp h).1

theorem count_cleanup_le (p : YardOidcAttemptRecord → Prop) [DecidablePred p] :
    (s.cleanup nowMs).attempts.count p ≤ s.attempts.count p :=
  Table.count_erase_le p

/-- A start stores its attempt, for ten minutes. -/
theorem createYardOidcAttempt_spec {attempt : NewYardOidcAttempt}
    (h : s.createYardOidcAttempt attempt = .ok s') :
    ∃ attempts, s' = { s with attempts } ∧ validateAttempt attempt = .ok () ∧
      attempt.expiresAtMs = attempt.createdAtMs + yardOidcAttemptLifetimeMs ∧
      (s.cleanup attempt.createdAtMs).attempts.Inserted attempts
        { attempt, claimedAtMs := none } := by
  simp only [createYardOidcAttempt, bind_eq_ok, pure_eq_ok, ensure_eq_ok, insertRow_eq_ok,
    toI64_eq_ok] at h
  obtain ⟨_, hvalid, -, hcreated, -, hexpires, -, -, attempts, hinsert, rfl⟩ := h
  refine ⟨attempts, rfl, hvalid, ?_, Table.inserted_of_insert hinsert⟩
  simp only [validateAttempt, bind_eq_ok, ensure_eq_ok] at hvalid
  obtain ⟨-, -, -, -, -, -, -, -, hexpiry⟩ := hvalid
  rw [min_eq_left] at hexpiry
  · exact hexpiry.symm
  · by_contra hlarge
    rw [min_eq_right (by omega)] at hexpiry
    simp only [i64Max, u64Max] at hexpires hexpiry
    omega

/-- A claim takes an open attempt in its lifetime. -/
theorem claimYardOidcAttempt_spec {stateHash : String} {record : YardOidcAttemptRecord}
    (h : s.claimYardOidcAttempt stateHash nowMs = .ok (record, s')) :
    ∃ attempts claimed, s' = { s with attempts } ∧ ClaimableAttempt stateHash nowMs claimed ∧
      record = { claimed with claimedAtMs := some nowMs } ∧
      (s.cleanup nowMs).attempts.Replaced attempts claimed record := by
  simp only [claimYardOidcAttempt, bind_eq_ok, pure_eq_ok, requireRow_eq_ok,
    Option.filter_eq_some_iff, decide_eq_true_eq, Prod.mk.injEq] at h
  obtain ⟨-, -, -, -, claimed, ⟨hfind, hclaimable⟩, decoded, hdecode, rfl, rfl⟩ := h
  obtain ⟨hmem, hkey⟩ := Table.find?_eq_some.mp hfind
  obtain rfl : { claimed with claimedAtMs := some nowMs } = decoded := by
    simp only [decodeAttempt, bind_eq_ok, pure_eq_ok] at hdecode
    obtain ⟨-, -, -, -, heq⟩ := hdecode
    exact heq
  refine ⟨_, claimed, rfl, hclaimable, rfl, Table.replaced_update hmem fun x hx => ?_⟩
  constructor
  · rintro ⟨hx', -⟩
    exact Table.eq_of_key hx hmem (hx'.trans hkey.symm)
  · rintro rfl
    exact hclaimable

/-- A new identity fits its columns, and is stored. -/
theorem insertIdentity_spec {identity : YardOidcIdentityRecord}
    (h : s.insertIdentity identity = .ok s') :
    ∃ identities, s' = { s with identities } ∧
      (8 ≤ identity.issuer.length ∧ identity.issuer.length ≤ 2048) ∧
      (∀ c ∈ identity.normalizedEmail.toList, c.isUpper = false) ∧
      s.identities.Inserted identities identity := by
  simp only [insertIdentity, bind_eq_ok, pure_eq_ok, ensure_eq_ok, insertRow_eq_ok] at h
  obtain ⟨-, ⟨hshort, hlong, hlower, -⟩, identities, hinsert, rfl⟩ := h
  exact ⟨identities, rfl, ⟨hshort, hlong⟩, hlower, Table.inserted_of_insert hinsert⟩

section Callbacks

variable [Unicode] [IssuerParser] {authentication : NewYardOidcAuthentication}
  {audit : YardOidcAuditContext}

/-- A callback that passes its checks, for the yard behind its host label. -/
structure Presented (s : SignInStore) (authentication : NewYardOidcAuthentication)
    (audit : YardOidcAuditContext) (scope : YardScope) : Prop where
  valid : validateAuthentication authentication audit = .ok ()
  time : authentication.authenticatedAtMs ≤ i64Max
  scope : s.repository.signInScope authentication.hostLabel = .ok scope

/-- The identity is the one of the callback. -/
def Identifies (identity : YardOidcIdentityRecord) (authentication : NewYardOidcAuthentication)
    (scope : YardScope) : Prop :=
  identityKey identity =
    (authentication.issuer, authentication.providerSubject, scope.workspaceId)

/-- What the first callback of an identity needs: a verified email that stands for one subject,
texts that fit their columns, and an event that can be recorded. -/
structure Bindable (s : SignInStore) (authentication : NewYardOidcAuthentication)
    (audit : YardOidcAuditContext) (scope : YardScope) (email subjectId : String) : Prop where
  presented : Presented s authentication audit scope
  unknown : ∀ identity ∈ s.identities, ¬Identifies identity authentication scope
  verified : authentication.normalizedEmail = some email
  only : s.repository.OnlyRecognised scope email authentication.authenticatedAtMs subjectId
  issuerLength : 8 ≤ authentication.issuer.length ∧ authentication.issuer.length ≤ 2048
  lowercase : ∀ c ∈ email.toList, c.isUpper = false
  recorded : ∃ r, s.repository.insertAudit
    (linkEvent audit scope subjectId authentication.authenticatedAtMs) = .ok r

/-- The identity after an accepted callback. -/
def touchedIdentity (identity : YardOidcIdentityRecord) (nowMs : ℕ) : YardOidcIdentityRecord :=
  { identity with lastAuthenticatedAtMs := max identity.lastAuthenticatedAtMs nowMs }

/-- What a callback answers and leaves behind. -/
inductive Callback (s : SignInStore) (authentication : NewYardOidcAuthentication)
    (audit : YardOidcAuditContext) :
    Except RepositoryError YardOidcIdentityRecord → SignInStore → Prop
  /-- The first callback of an identity whose email stands for one subject. -/
  | bound {scope : YardScope} {email subjectId : String} {identities : Table identityKey}
      {auditEvents : Table AuditEventRecord.sequence}
      (hbindable : Bindable s authentication audit scope email subjectId)
      (hinserted : s.identities.Inserted identities
        (newIdentity authentication email scope.workspaceId subjectId))
      (haudited : Repository.Audited s.repository.auditEvents auditEvents
        (linkEvent audit scope subjectId authentication.authenticatedAtMs)) :
      Callback s authentication audit
        (.ok (newIdentity authentication email scope.workspaceId subjectId))
        { s with repository := { s.repository with auditEvents }, identities }
  /-- A later callback with the email of the identity, whose subject is active. -/
  | returned {scope : YardScope} {identity : YardOidcIdentityRecord}
      {identities : Table identityKey} (hpresented : Presented s authentication audit scope)
      (hidentifies : Identifies identity authentication scope)
      (hemail : authentication.normalizedEmail = some identity.normalizedEmail)
      (hcreated : identity.createdAtMs ≤ authentication.authenticatedAtMs)
      (hactive : s.repository.SubjectActive identity authentication.authenticatedAtMs)
      (hreplaced : s.identities.Replaced identities identity
        (touchedIdentity identity authentication.authenticatedAtMs)) :
      Callback s authentication audit
        (.ok (touchedIdentity identity authentication.authenticatedAtMs)) { s with identities }
  /-- A later callback without the email of the identity, whose sessions are revoked. -/
  | drifted {scope : YardScope} {identity : YardOidcIdentityRecord} {repository : Repository}
      (hpresented : Presented s authentication audit scope) (hmem : identity ∈ s.identities)
      (hidentifies : Identifies identity authentication scope)
      (hemail : authentication.normalizedEmail ≠ some identity.normalizedEmail)
      (hrevoke : s.repository.revokeForUser identity.yardSubjectId
        authentication.authenticatedAtMs = .ok repository) :
      Callback s authentication audit (.error .notFound) { s with repository }
  /-- Anything else changes nothing. -/
  | refused (e : RepositoryError) : Callback s authentication audit (.error e) s

theorem existing_eq_ok {workspaceId : String} {found : Option YardOidcIdentityRecord}
    (h : s.existing authentication workspaceId = .ok found) :
    s.identities.find? (authentication.issuer, authentication.providerSubject, workspaceId) =
      found := by
  unfold existing at h
  cases hfind : s.identities.find?
    (authentication.issuer, authentication.providerSubject, workspaceId) with
  | none =>
    rw [hfind] at h
    exact Except.ok.inj h
  | some identity =>
    simp only [hfind, bind_eq_ok, pure_eq_ok] at h
    obtain ⟨-, -, rfl⟩ := h
    rfl

/-- A callback of a known identity. -/
theorem callback_of_existing {scope : YardScope} {identity : YardOidcIdentityRecord}
    {found : Option YardOidcIdentityRecord} (hpresented : Presented s authentication audit scope)
    (hmem : identity ∈ s.identities) (hidentifies : Identifies identity authentication scope)
    (h : s.authenticateExisting authentication identity = .ok (found, s')) :
    Callback s authentication audit (found.elim (.error .notFound) .ok) s' := by
  unfold authenticateExisting at h
  -- the email of the identity has to be the one presented
  by_cases hemail : authentication.normalizedEmail = some identity.normalizedEmail
  -- and its subject has to be active still
  · by_cases hactive : authentication.authenticatedAtMs < identity.createdAtMs ∨
        ¬s.repository.SubjectActive identity authentication.authenticatedAtMs
    · simp only [hemail, ne_eq, not_true_eq_false, if_false, hactive, if_true, pure_eq_ok,
        Prod.mk.injEq] at h
      obtain ⟨rfl, rfl⟩ := h
      exact .refused .notFound
    · simp only [hemail, ne_eq, not_true_eq_false, if_false, hactive, pure_eq_ok,
        Prod.mk.injEq] at h
      obtain ⟨rfl, rfl⟩ := h
      rw [not_or, not_lt, not_not] at hactive
      refine .returned hpresented hidentifies hemail hactive.1 hactive.2 ?_
      -- the identity is touched, and nothing else
      refine Table.replaced_update hmem fun row hrow => ⟨fun hkey => ?_, fun heq => heq ▸ rfl⟩
      exact Table.eq_of_key hrow hmem hkey
  -- with another email the sessions of the identity are revoked
  · simp only [ne_eq, hemail, not_false_eq_true, if_true, bind_eq_ok, pure_eq_ok,
      Prod.mk.injEq] at h
    obtain ⟨repository, hrevoke, rfl, rfl⟩ := h
    exact .drifted hpresented hmem hidentifies hemail hrevoke

/-- A callback with all it needs binds its identity. -/
theorem Bindable.authenticates {scope : YardScope} {email subjectId : String}
    (h : Bindable s authentication audit scope email subjectId) :
    ∃ identities auditEvents, s.authenticateYardOidcIdentity authentication audit =
        (.ok (newIdentity authentication email scope.workspaceId subjectId),
          { s with repository := { s.repository with auditEvents }, identities }) ∧
      s.identities.Inserted identities
        (newIdentity authentication email scope.workspaceId subjectId) ∧
      Repository.Audited s.repository.auditEvents auditEvents
        (linkEvent audit scope subjectId authentication.authenticatedAtMs) := by
  set identity := newIdentity authentication email scope.workspaceId subjectId with hidentity
  obtain ⟨r, haudit⟩ := h.recorded
  obtain ⟨auditEvents, rfl⟩ := Repository.insertAudit_spec haudit
  -- no row has the key of the identity, and its subject is one of the workspace
  obtain ⟨identities, hinsert⟩ : ∃ identities, s.identities.insert? identity = some identities :=
    Table.insert?_isSome h.unknown
  have hfind : s.identities.find? (authentication.issuer, authentication.providerSubject,
      scope.workspaceId) = none := Table.find?_eq_none.mpr h.unknown
  have hsubject : ∃ subject ∈ s.repository.yardSubjects, subject.id = identity.yardSubjectId ∧
      subject.workspaceId = identity.workspaceId := by
    obtain ⟨subject, hsubject, hid, hrecognised, -⟩ := h.only
    exact ⟨subject, hsubject, hid, hrecognised.scoped.1⟩
  have hstored : s.insertIdentity identity = .ok { s with identities } := by
    simp only [insertIdentity, bind_eq_ok, pure_eq_ok, ensure_eq_ok, insertRow_eq_ok]
    exact ⟨(), ⟨h.issuerLength.1, h.issuerLength.2, h.lowercase, hsubject⟩, identities, hinsert,
      rfl⟩
  have hauthenticate : s.authenticate authentication audit = .ok (some identity,
      { s with repository := { s.repository with auditEvents }, identities }) := by
    have hcandidates := Repository.candidates_eq_singleton.mpr h.only
    have htime : toI64 authentication.authenticatedAtMs = .ok () := toI64_eq_ok.mpr h.presented.time
    simp only [authenticate, h.presented.valid, htime, h.presented.scope, existing, hfind,
      h.verified,
      hcandidates, ← hidentity, hstored, haudit, bind, Except.bind, pure, Except.pure]
  refine ⟨identities, auditEvents, ?_, Table.inserted_of_insert hinsert,
    Repository.insertAudit_audited haudit⟩
  rw [authenticateYardOidcIdentity, hauthenticate]

/-- Every callback is of one of the four kinds. -/
theorem callback_spec (s : SignInStore) (authentication : NewYardOidcAuthentication)
    (audit : YardOidcAuditContext) :
    Callback s authentication audit (s.authenticateYardOidcIdentity authentication audit).1
      (s.authenticateYardOidcIdentity authentication audit).2 := by
  unfold authenticateYardOidcIdentity
  cases h : s.authenticate authentication audit with
  | error e => exact .refused e
  | ok result =>
    obtain ⟨found, s'⟩ := result
    have hcallback : Callback s authentication audit (found.elim (.error .notFound) .ok) s' := by
      simp only [authenticate, bind_eq_ok, toI64_eq_ok] at h
      obtain ⟨_, hvalid, -, htime, scope, hscope, existing, hexisting, h⟩ := h
      have hpresented : Presented s authentication audit scope := ⟨hvalid, htime, hscope⟩
      have hfind := existing_eq_ok hexisting
      cases existing with
      -- a known identity is found by its provider and its subject
      | some identity =>
        obtain ⟨hmem, hkey⟩ := Table.find?_eq_some.mp hfind
        exact callback_of_existing hpresented hmem hkey h
      | none =>
        -- a new one needs an email that is verified
        cases hemail : authentication.normalizedEmail with
        | none =>
          simp only [hemail, pure_eq_ok, Prod.mk.injEq] at h
          obtain ⟨rfl, rfl⟩ := h
          exact .refused .notFound
        | some email =>
          simp only [hemail] at h
          -- bound only when the email stands for one subject
          split at h
          · rename_i subjectId hcandidates
            simp only [bind_eq_ok, pure_eq_ok, Prod.mk.injEq] at h
            obtain ⟨s₁, hinsert, repository, haudit, rfl, rfl⟩ := h
            obtain ⟨identities, rfl, hissuer, hlower, hinserted⟩ := insertIdentity_spec hinsert
            have haudited := Repository.insertAudit_audited haudit
            have hbindable : Bindable s authentication audit scope email subjectId :=
              ⟨hpresented, Table.find?_eq_none.mp hfind, hemail,
                Repository.candidates_eq_singleton.mp hcandidates, hissuer, hlower, _, haudit⟩
            obtain ⟨auditEvents, rfl⟩ := Repository.insertAudit_spec haudit
            exact .bound hbindable hinserted haudited
          -- with none or several candidates it is refused
          · obtain ⟨rfl, rfl⟩ := Prod.mk.inj (Except.ok.inj h)
            exact .refused .notFound
    cases found with
    | none => exact hcallback
    | some identity => exact hcallback

end Callbacks

end SignInStore

end BlobYard
