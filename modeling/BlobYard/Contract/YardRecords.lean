/-
The records of hosted yards: sites, deploys, access, subjects and sessions.

The same conventions as `Records.lean`: one structure for each table of the
schema, under the source's names.
-/
import BlobYard.Contract.Records

namespace BlobYard

/-! ### Yards and deploys -/

/-- Only an active yard is served. -/
inductive WebYardStatus where
  | active
  | suspended
  | deleted
  deriving DecidableEq

/-- The states of a deploy, from its first file to the pruning of its files. -/
inductive YardDeployStatus where
  | uploading
  | finalising
  | live
  | failed
  | superseded
  | pruned
  deriving DecidableEq

/-- A yard to be created, with the host it will be served under. -/
structure NewWebYard where
  id : String
  workspaceId : String
  projectId : String
  name : Slug
  hostLabel : String
  createdAtMs : ℕ
  deriving DecidableEq

/-- A deploy to be started; the client's id makes the start repeatable. -/
structure NewYardDeploy where
  id : String
  yardId : String
  workspaceId : String
  projectId : String
  clientDeployId : String
  manifestRoot : String
  deploymentHostLabel : String
  spa : Bool
  cleanUrls : Bool
  createdAtMs : ℕ
  deriving DecidableEq

/-- A file of a deploy: its path and the version that holds its bytes. -/
structure NewYardFile where
  normalizedPath : String
  versionId : String
  byteSize : ℕ
  deriving DecidableEq

/-- A yard and the deploy that is live on it. -/
structure WebYardRecord where
  id : String
  workspaceId : String
  projectId : String
  name : Slug
  hostLabel : String
  currentDeployId : Option String
  status : WebYardStatus
  createdAtMs : ℕ
  updatedAtMs : ℕ
  deletedAtMs : Option ℕ
  deriving DecidableEq

/-- A row of `yard_deploys`. -/
structure YardDeployRow where
  id : String
  yardId : String
  workspaceId : String
  projectId : String
  clientDeployId : String
  manifestRoot : String
  deploymentHostLabel : String
  spa : Bool
  cleanUrls : Bool
  status : YardDeployStatus
  createdAtMs : ℕ
  finalisedAtMs : Option ℕ
  fileCount : ℕ
  totalBytes : ℕ
  failureCode : Option String
  failureMessage : Option String
  prunedAtMs : Option ℕ
  deriving DecidableEq

/-- The answer to a start. -/
structure YardStartRecord where
  yard : WebYardRecord
  deploy : YardDeployRow

/-- The answer to a finalisation. -/
structure YardDeploymentRecord where
  yard : WebYardRecord
  deploy : YardDeployRow

/-- A row of `yard_deploy_files`; the version reference is cleared on deletion. -/
structure YardDeployFileRow where
  deployId : String
  normalizedPath : String
  versionId : Option String
  byteSize : ℕ
  deriving DecidableEq

/-- The object a request is answered with, and whether it is the page for missing files. -/
structure YardFileTarget where
  object : StoredObjectRecord
  notFoundDocument : Bool
  deriving DecidableEq

/-- The deletion of the files of a pruned deploy. -/
structure YardCleanupPlan where
  yardId : String
  workspaceId : String
  deployId : String
  deletion : DeletionPlan
  deriving DecidableEq

/-- The kinds of environments. -/
inductive YardEnvironmentKind where
  | production
  | staging
  | preview
  deriving DecidableEq

/-- An environment is marked as deleted, not removed. -/
inductive YardEnvironmentStatus where
  | active
  | deleted
  deriving DecidableEq

/-- An environment of a yard. -/
structure YardEnvironmentRecord where
  id : String
  yardId : String
  name : String
  kind : YardEnvironmentKind
  status : YardEnvironmentStatus
  createdAtMs : ℕ
  updatedAtMs : ℕ
  deriving DecidableEq

/-! ### Access policies and grants -/

/-- Who may open a yard. -/
inductive YardVisibility where
  | publicAccess
  | owner
  | selected
  | workspace
  | authenticatedLink
  | anyAuthenticated
  deriving DecidableEq

/-- What a grant may be given to. -/
inductive YardAccessPrincipalKind where
  | user
  | group
  | guestInvite
  | link
  deriving DecidableEq

/-- The visibility of a yard, and who set it. -/
structure YardAccessPolicyRecord where
  yardId : String
  visibility : YardVisibility
  updatedAtMs : ℕ
  updatedByPrincipal : String
  deriving DecidableEq

/-- A grant to a principal: in one environment or in all, with roles of the application. -/
structure YardAccessGrantRecord where
  id : String
  yardId : String
  environmentId : Option String
  principalKind : YardAccessPrincipalKind
  principalId : String
  appRoles : List String
  status : RevocableStatus
  createdAtMs : ℕ
  createdByPrincipal : String
  expiresAtMs : Option ℕ
  revokedAtMs : Option ℕ
  deriving DecidableEq

/-- Revoking a grant keeps its id. -/
theorem YardAccessGrantRecord.revoked_id (nowMs : ℕ) (grant : YardAccessGrantRecord) :
    YardAccessGrantRecord.id { grant with status := .revoked, revokedAtMs := some nowMs } =
      grant.id :=
  rfl

/-- A grant to be made. -/
structure NewYardAccessGrant where
  id : String
  yardId : String
  environmentId : Option String
  principalKind : YardAccessPrincipalKind
  principalId : String
  appRoles : List String
  createdAtMs : ℕ
  createdByPrincipal : String
  expiresAtMs : Option ℕ
  deriving DecidableEq

/-! ### Management roles and application policies -/

/-- The roles in which a user manages a yard. -/
inductive YardManagementRole where
  | owner
  | admin
  | developer
  | auditor
  deriving DecidableEq

/-- The role of one user in one yard. -/
structure YardManagementRoleAssignment where
  yardId : String
  userId : String
  workspaceId : String
  role : YardManagementRole
  createdAtMs : ℕ
  updatedAtMs : ℕ
  deriving DecidableEq

/-- The parents and the own permissions of a role. -/
structure ApplicationRoleDefinition where
  inherits : List String
  permissions : List String
  deriving DecidableEq

/-- The roles of an application by name, in the order of their names. -/
structure ApplicationPolicyGraph where
  defaultRole : Option String
  roles : List (String × ApplicationRoleDefinition)
  deriving DecidableEq

/-- The transitive closure of a policy graph, by role name. -/
structure EffectiveApplicationPolicy where
  effectiveRoles : List (String × List String)
  effectivePermissions : List (String × List String)
  deriving DecidableEq

/-- The approved policy of a yard at one revision, with its closure. -/
structure YardApplicationPolicyRecord where
  yardId : String
  workspaceId : String
  revision : ℕ
  sourceManifestDigest : String
  policy : ApplicationPolicyGraph
  effective : EffectiveApplicationPolicy
  approvedAtMs : ℕ
  approvedByPrincipal : String
  deriving DecidableEq

/-! ### Users, groups and runtime subjects -/

/-- A deactivated user stays on record. -/
inductive LocalUserStatus where
  | active
  | deactivated
  deriving DecidableEq

/-- A user of a workspace. -/
structure LocalUserRecord where
  id : String
  workspaceId : String
  displayName : String
  email : Option String
  status : LocalUserStatus
  createdAtMs : ℕ
  deactivatedAtMs : Option ℕ
  deriving DecidableEq

/-- A login key of a user, of which the hash is stored. -/
structure LocalUserLoginKeyRecord where
  id : String
  userId : String
  tokenPrefix : String
  secretHash : String
  createdAtMs : ℕ
  expiresAtMs : ℕ
  lastUsedAtMs : Option ℕ
  revokedAtMs : Option ℕ
  deriving DecidableEq

/-- A deactivated group stays on record. -/
inductive WorkspaceGroupStatus where
  | active
  | deactivated
  deriving DecidableEq

/-- A group of a workspace, with the number of its members. -/
structure WorkspaceGroupRecord where
  id : String
  workspaceId : String
  name : String
  status : WorkspaceGroupStatus
  memberCount : ℕ
  createdAtMs : ℕ
  deactivatedAtMs : Option ℕ
  deriving DecidableEq

/-- A user in a group. -/
structure WorkspaceGroupMemberRecord where
  groupId : String
  workspaceId : String
  userId : String
  addedAtMs : ℕ
  deriving DecidableEq

/-- Whom an application sees: a member of the workspace or an invited guest. -/
inductive YardSubjectKind where
  | member
  | guest
  deriving DecidableEq

/-- A subject, which stands for one user or for one invitation. -/
structure YardSubjectRecord where
  id : String
  kind : YardSubjectKind
  workspaceId : String
  localUserId : Option String
  invitationId : Option String
  createdAtMs : ℕ
  revokedAtMs : Option ℕ
  deriving DecidableEq

/-- The states of an invitation. -/
inductive YardGuestInviteStatus where
  | pending
  | accepted
  | revoked
  deriving DecidableEq

/-- An invitation by email, with the grant that goes with it. -/
structure NewYardGuestInvite where
  id : String
  workspaceId : String
  projectId : String
  yardId : String
  environmentId : Option String
  email : String
  tokenHash : String
  grantId : String
  createdAtMs : ℕ
  expiresAtMs : ℕ
  deriving DecidableEq

/-- A row of `yard_guest_invitations`. -/
structure YardGuestInvitationRow where
  id : String
  workspaceId : String
  projectId : String
  yardId : String
  environmentId : Option String
  email : String
  tokenHash : Option String
  status : YardGuestInviteStatus
  acceptedSubjectId : Option String
  grantId : String
  createdAtMs : ℕ
  expiresAtMs : ℕ
  acceptedAtMs : Option ℕ
  revokedAtMs : Option ℕ
  deriving DecidableEq

/-- An invitation as it is read back, with the roles of its grant and without its token. -/
structure YardGuestInviteRecord where
  id : String
  workspaceId : String
  projectId : String
  yardId : String
  environmentId : Option String
  email : String
  status : YardGuestInviteStatus
  acceptedSubjectId : Option String
  grantId : String
  appRoles : List String
  createdAtMs : ℕ
  expiresAtMs : ℕ
  acceptedAtMs : Option ℕ
  revokedAtMs : Option ℕ
  deriving DecidableEq

/-- The invitation after which a page begins. -/
structure YardGuestInviteCursor where
  createdAtMs : ℕ
  id : String
  deriving DecidableEq

/-- One page of invitations. -/
structure YardGuestInvitePage where
  items : List YardGuestInviteRecord
  nextCursor : Option YardGuestInviteCursor

/-- An accepted invitation and the subject it made. -/
structure YardGuestAcceptance where
  invitation : YardGuestInviteRecord
  subject : YardSubjectRecord

/-- A login key of a guest, of which the hash is stored. -/
structure YardGuestLoginKeyRecord where
  id : String
  subjectId : String
  invitationId : String
  workspaceId : String
  tokenPrefix : String
  secretHash : String
  createdAtMs : ℕ
  expiresAtMs : ℕ
  lastUsedAtMs : Option ℕ
  revokedAtMs : Option ℕ
  deriving DecidableEq

/-! ### Sessions -/

/-- Lifetime of an exchange code: one minute. -/
def yardExchangeCodeLifetimeMs : ℕ := 60000

/-- Lifetime of a yard session: twelve hours. -/
def yardSessionLifetimeMs : ℕ := 43200000

/-- The yard and the environment that a session is let in to. -/
structure YardAdmission where
  yardId : String
  environmentId : String
  workspaceId : String
  deriving DecidableEq

/-- A login to be continued on the host of a yard, under the hashes of its two secrets. -/
structure NewYardContinuation where
  id : String
  continuationHash : String
  codeHash : String
  yardId : String
  environmentId : String
  hostLabel : String
  userId : String
  returnPath : String
  createdAtMs : ℕ
  expiresAtMs : ℕ
  deriving DecidableEq

/-- A continuation and when it was consumed. -/
structure YardContinuationRecord where
  continuation : NewYardContinuation
  consumedAtMs : Option ℕ
  deriving DecidableEq

/-- A session to be created by an exchange. -/
structure NewYardSession where
  id : String
  tokenHash : String
  createdAtMs : ℕ
  expiresAtMs : ℕ
  deriving DecidableEq

/-- The identifiers of the audit event, which the caller of an exchange draws. -/
structure YardSessionAuditContext where
  id : String
  requestId : String
  deriving DecidableEq

/-- A session on the host of a yard. -/
structure YardSessionRecord where
  id : String
  tokenHash : String
  yardId : String
  environmentId : String
  hostLabel : String
  userId : String
  createdAtMs : ℕ
  expiresAtMs : ℕ
  lastUsedAtMs : Option ℕ
  revokedAtMs : Option ℕ
  deriving DecidableEq

/-- The answer to an exchange. -/
structure YardSessionExchange where
  session : YardSessionRecord
  returnPath : String
  deriving DecidableEq

/-- What an application of a yard learns about the visitor of a session. -/
structure YardIdentity where
  userId : String
  workspaceId : String
  projectId : String
  yardId : String
  environmentId : String
  displayName : Option String
  email : Option String
  groups : List String
  managementRole : Option YardManagementRole
  appRoles : List String
  permissions : List String
  sessionId : String
  deriving DecidableEq

end BlobYard
