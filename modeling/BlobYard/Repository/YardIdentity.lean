/-
The runtime identity of a yard session.

An application behind a yard asks who the visitor is.  The answer is resolved in four queries of
its own: the session with its subject, yard, environment and policy; the grants of a member, in
person and through groups, or the grant of a guest; and the application policy that expands the
roles of those grants.  In between the session must pass the admission of the file server.

* `resolveYardIdentity` — the operation, with its queries;
* `resolveYardIdentity_spec` — what is known once it returns an identity;
* `mem_directRoles`, `mem_groupRows` — which grants the queries look at.
-/
import Mathlib.Data.List.Dedup
import BlobYard.Repository.YardRoles
import BlobYard.Repository.YardSessions

namespace BlobYard

open Outcome

/-! ### The roles an application sees -/

/-- The contents of a `BTreeSet` of texts. -/
def orderedTexts (texts : List String) : List String := orderBy id texts.dedup

@[simp] theorem mem_orderedTexts {texts : List String} {text : String} :
    text ∈ orderedTexts texts ↔ text ∈ texts := by
  simp [orderedTexts]

/-- The roles of the grants together with the default role of the policy. -/
def assignedRoles (policy : YardApplicationPolicyRecord) (roles : List String) : List String :=
  orderedTexts (roles ++ policy.policy.defaultRole.toList)

/-- The expansions of the assigned roles; a role that the policy does not expand is skipped. -/
def expandedRoles (policy : YardApplicationPolicyRecord) (roles : List String) :
    List (List String × List String) :=
  (assignedRoles policy roles).filterMap fun role =>
    (policy.effective.effectiveRoles.lookup role).map fun expanded =>
      (expanded, (policy.effective.effectivePermissions.lookup role).getD [])

/-- `effective_application_authority`. -/
def effectiveApplicationAuthority (policy : Option YardApplicationPolicyRecord)
    (roles : List String) : List String × List String :=
  match policy with
  | none => ([], [])
  | some policy =>
    (orderedTexts ((expandedRoles policy roles).flatMap Prod.fst),
      orderedTexts ((expandedRoles policy roles).flatMap Prod.snd))

namespace Repository

/-! ### The session and its subject -/

/-- `IdentityBase`. -/
structure IdentityBase where
  sessionId : String
  userId : String
  subjectKind : YardSubjectKind
  invitationId : Option String
  workspaceId : String
  projectId : String
  yardId : String
  environmentId : String
  displayName : Option String
  email : Option String
  visibility : YardVisibility

/-- The name and the address behind a subject: those of an active user of its workspace, or the
address its invitation was sent to. -/
def identityPerson (s : Repository) (subject : YardSubjectRecord) :
    Option (String × Option String) :=
  match subject.kind with
  | .member =>
    if subject.invitationId = none then
      ((subject.localUserId.bind s.localUsers.find?).filter fun u =>
        u.workspaceId = subject.workspaceId ∧ u.deactivatedAtMs = none ∧ u.status = .active).map
        fun u => (u.displayName, u.email)
    else none
  | .guest =>
    if subject.localUserId = none then
      ((subject.invitationId.bind s.yardGuestInvitations.find?).filter fun i =>
        i.workspaceId = subject.workspaceId).map fun i => (i.email, some i.email)
    else none

/-- The row that the joins of `base_by_host` make of a session. -/
def identityRow (s : Repository) (hostLabel : String) (session : YardSessionRecord) :
    Option IdentityBase := do
  let subject ← (s.yardSubjects.find? session.userId).filter fun x => x.revokedAtMs = none
  let person ← s.identityPerson subject
  let yard ← (s.webYards.find? session.yardId).filter fun y =>
    y.status = .active ∧ s.HostedAt hostLabel y
  let environment ← (s.yardEnvironments.find? session.environmentId).filter fun e =>
    e.yardId = yard.id ∧ e.status = .active
  let policy ← (s.yardAccessPolicies.find? yard.id).filter fun p =>
    p.visibility ≠ .publicAccess ∧ p.visibility ≠ .owner
  return {
    sessionId := session.id
    userId := subject.id
    subjectKind := subject.kind
    invitationId := subject.invitationId
    workspaceId := subject.workspaceId
    projectId := yard.projectId
    yardId := yard.id
    environmentId := environment.id
    displayName := some person.1
    email := person.2
    visibility := policy.visibility }

/-- The session is the one of the hash and host, and in force. -/
def SessionInForce (tokenHash hostLabel : String) (nowMs : ℕ) (session : YardSessionRecord) :
    Prop :=
  session.tokenHash = tokenHash ∧ session.hostLabel = hostLabel ∧ session.revokedAtMs = none ∧
    nowMs < session.expiresAtMs

instance (tokenHash hostLabel : String) (nowMs : ℕ) :
    DecidablePred (SessionInForce tokenHash hostLabel nowMs) :=
  fun _ => inferInstanceAs (Decidable (_ ∧ _ ∧ _ ∧ _))

/-- `base_by_host`. -/
def baseByHost (s : Repository) (hostLabel tokenHash : String) (nowMs : ℕ) :
    Except RepositoryError IdentityBase :=
  requireRow ((s.yardSessions.select (SessionInForce tokenHash hostLabel nowMs)).findSome?
    (s.identityRow hostLabel))

/-! ### The grants of a member -/

structure IdentityGrantSources where
  groups : List String
  roles : List String

/-- The grants of `direct_roles`: those to the user that are in force for the environment. -/
def directGrants (s : Repository) (yardId environmentId userId : String) (nowMs : ℕ) :
    List YardAccessGrantRecord :=
  orderBy YardAccessGrantRecord.id <| s.yardAccessGrants.select fun grant =>
    grant.yardId = yardId ∧ grant.principalKind = .user ∧ grant.principalId = userId ∧
      GrantInForce grant environmentId nowMs

/-- `direct_roles`; a row holds its roles decoded, and every written row decodes. -/
def directRoles (s : Repository) (yardId environmentId userId : String) (nowMs : ℕ) :
    List String :=
  (s.directGrants yardId environmentId userId nowMs).flatMap YardAccessGrantRecord.appRoles

/-- The member is no active user of the workspace of its row. -/
def Stray (s : Repository) (member : WorkspaceGroupMemberRecord) : Prop :=
  ∀ user ∈ s.localUsers, user.id = member.userId → user.workspaceId = member.workspaceId →
    user.status ≠ .active ∨ user.deactivatedAtMs ≠ none

instance (s : Repository) : DecidablePred s.Stray :=
  fun member => inferInstanceAs (Decidable (∀ user ∈ s.localUsers, user.id = member.userId →
    user.workspaceId = member.workspaceId → user.status ≠ .active ∨ user.deactivatedAtMs ≠ none))

/-- The group conditions of `GROUP_ROLES_SQL`: an active group whose counter is right, without a
stray member, and with a bounded number of active grants. -/
def IntactGroup (s : Repository) (group : WorkspaceGroupRecord) : Prop :=
  group.status = .active ∧ group.deactivatedAtMs = none ∧ group.memberCount ≤ 500 ∧
    group.memberCount = ((s.membersOf group).take 501).length ∧
    ((s.membersOf group).take 501).countP (fun member => s.Stray member) = 0 ∧
    ((s.yardAccessGrants.select fun grant => grant.principalKind = .group ∧
      grant.principalId = group.id ∧ grant.status = .active).take 501).length ≤ 500

instance (s : Repository) (group : WorkspaceGroupRecord) : Decidable (s.IntactGroup group) :=
  inferInstanceAs (Decidable (_ ∧ _ ∧ _ ∧ _ ∧ _ ∧ _))

/-- The joins of `GROUP_ROLES_SQL`: memberships, their groups and the grants of those. -/
def groupGrants (s : Repository) (yardId environmentId workspaceId userId : String)
    (nowMs : ℕ) : List (WorkspaceGroupRecord × YardAccessGrantRecord) :=
  (s.membershipsOf userId workspaceId).flatMap fun member =>
    (s.workspaceGroups.select fun group => group.id = member.groupId ∧
      group.workspaceId = member.workspaceId ∧ s.IntactGroup group).flatMap fun group =>
        (s.yardAccessGrants.select fun grant => grant.principalKind = .group ∧
          grant.principalId = group.id ∧ grant.yardId = yardId ∧
          GrantInForce grant environmentId nowMs).map fun grant => (group, grant)

/-- `group_rows`: the groups with the roles of their grants, in order. -/
def groupRows (s : Repository) (yardId environmentId workspaceId userId : String)
    (nowMs : ℕ) : List (String × List String) :=
  (orderBy (fun row : WorkspaceGroupRecord × YardAccessGrantRecord => toLex (row.1.id, row.2.id))
    (s.groupGrants yardId environmentId workspaceId userId nowMs)).map fun row =>
      (row.1.id, row.2.appRoles)

/-- A group is listed once for its rows, which follow each other. -/
def addGroup (groups : List String) (groupId : String) : List String :=
  if groups.getLast? = some groupId then groups else groups ++ [groupId]

/-- `require_bounded_memberships`. -/
def requireBoundedMemberships (s : Repository) (workspaceId userId : String) :
    Except RepositoryError Unit :=
  ensure (((s.membershipsOf userId workspaceId).take 101).length ≤ maximumUserGroups) .unavailable

/-- `yard_identity_grants::resolve`. -/
def memberGrants (s : Repository) (yardId environmentId workspaceId userId : String)
    (nowMs : ℕ) : Except RepositoryError IdentityGrantSources := do
  validateTexts [yardId, environmentId, workspaceId, userId]
  s.requireBoundedMemberships workspaceId userId
  let rows := s.groupRows yardId environmentId workspaceId userId nowMs
  return {
    groups := (rows.map Prod.fst).foldl addGroup []
    roles := s.directRoles yardId environmentId userId nowMs ++ rows.flatMap Prod.snd }

/-! ### The grant of a guest -/

/-- `yard_guest_identity::resolve`. -/
def guestGrants (s : Repository) (yardId environmentId workspaceId subjectId invitationId : String)
    (nowMs : ℕ) : Except RepositoryError IdentityGrantSources := do
  validateTexts [yardId, environmentId, workspaceId, subjectId, invitationId]
  let subject ← requireRow ((s.yardSubjects.find? subjectId).filter fun x =>
    x.kind = .guest ∧ x.workspaceId = workspaceId ∧ x.invitationId = some invitationId ∧
      x.localUserId = none ∧ x.revokedAtMs = none)
  let invitation ← requireRow ((s.yardGuestInvitations.find? invitationId).filter fun i =>
    i.acceptedSubjectId = some subject.id ∧ i.workspaceId = subject.workspaceId ∧
      i.yardId = yardId ∧ i.status = .accepted ∧ i.revokedAtMs = none ∧ nowMs < i.expiresAtMs ∧
      ∀ id ∈ i.environmentId, id = environmentId)
  let grant ← requireRow ((s.yardAccessGrants.find? invitation.grantId).filter fun g =>
    g.yardId = invitation.yardId ∧ g.principalKind = .guestInvite ∧
      g.principalId = invitation.id ∧ g.status = .active ∧ g.revokedAtMs = none ∧
      g.expiresAtMs = some invitation.expiresAtMs ∧ g.environmentId = invitation.environmentId)
  return { groups := [], roles := grant.appRoles }

/-! ### The identity -/

/-- `authority`: the management role of a member, and where the application roles come from. -/
def authority (s : Repository) (base : IdentityBase) (nowMs : ℕ) :
    Except RepositoryError (Option YardManagementRole × IdentityGrantSources) :=
  match base.subjectKind, base.invitationId with
  | .member, none => do
    let assignment ← s.assignmentByUser base.yardId base.userId
    let sources ← s.memberGrants base.yardId base.environmentId base.workspaceId base.userId nowMs
    return (assignment.map YardManagementRoleAssignment.role, sources)
  | .guest, some invitationId => do
    let sources ← s.guestGrants base.yardId base.environmentId base.workspaceId base.userId
      invitationId nowMs
    return (none, sources)
  | _, _ => .error .unavailable

/-- The identity that the rows make up. -/
def identityOf (s : Repository) (base : IdentityBase)
    (granted : Option YardManagementRole × IdentityGrantSources) : YardIdentity :=
  let effective := effectiveApplicationAuthority (s.yardApplicationPolicies.find? base.yardId)
    granted.2.roles
  { userId := base.userId
    workspaceId := base.workspaceId
    projectId := base.projectId
    yardId := base.yardId
    environmentId := base.environmentId
    displayName := base.displayName
    email := base.email
    groups := granted.2.groups
    managementRole := granted.1
    appRoles := effective.1
    permissions := effective.2
    sessionId := base.sessionId }

/-- `resolve_yard_identity`. -/
def resolveYardIdentity (s : Repository) (hostLabel tokenHash : String) (nowMs : ℕ) :
    Except RepositoryError (YardIdentity × Repository) := do
  toI64 nowMs
  validateHostLabel hostLabel
  validateHash tokenHash
  let base ← s.baseByHost hostLabel tokenHash nowMs
  let admitted ← s.sessionId tokenHash hostLabel base.yardId nowMs
  ensure (admitted = some base.sessionId) .notFound
  let _ ← s.validateState base.yardId
  let granted ← s.authority base nowMs
  let identity := s.identityOf base granted
  let s ← s.touchIdentity base.sessionId nowMs
  return (identity, s)

/-! ### Which grants the queries look at -/

variable {s s' : Repository} {yardId environmentId workspaceId userId role : String} {nowMs : ℕ}

theorem mem_directRoles : role ∈ s.directRoles yardId environmentId userId nowMs ↔
    ∃ grant ∈ s.yardAccessGrants, (grant.yardId = yardId ∧ grant.principalKind = .user ∧
      grant.principalId = userId ∧ GrantInForce grant environmentId nowMs) ∧
      role ∈ grant.appRoles := by
  simp only [directRoles, directGrants, List.mem_flatMap, mem_orderBy, Table.mem_select]
  constructor
  · rintro ⟨grant, ⟨hgrant, hdirect⟩, hrole⟩
    exact ⟨grant, hgrant, hdirect, hrole⟩
  · rintro ⟨grant, hgrant, hdirect, hrole⟩
    exact ⟨grant, ⟨hgrant, hdirect⟩, hrole⟩

/-- The grant reaches the user through a membership of the group. -/
def GrantedBy (s : Repository) (yardId environmentId workspaceId userId : String) (nowMs : ℕ)
    (group : WorkspaceGroupRecord) (grant : YardAccessGrantRecord) : Prop :=
  ∃ member ∈ s.membershipsOf userId workspaceId, group ∈ s.workspaceGroups ∧
    group.id = member.groupId ∧ group.workspaceId = member.workspaceId ∧ s.IntactGroup group ∧
    grant ∈ s.yardAccessGrants ∧ grant.principalKind = .group ∧ grant.principalId = group.id ∧
    grant.yardId = yardId ∧ GrantInForce grant environmentId nowMs

theorem mem_groupGrants {row : WorkspaceGroupRecord × YardAccessGrantRecord} :
    row ∈ s.groupGrants yardId environmentId workspaceId userId nowMs ↔
      s.GrantedBy yardId environmentId workspaceId userId nowMs row.1 row.2 := by
  obtain ⟨group, grant⟩ := row
  simp only [groupGrants, List.mem_flatMap, List.mem_map, Table.mem_select, Prod.mk.injEq]
  constructor
  · rintro ⟨member, hmember, _, ⟨hgroup, hid, hworkspace, hintact⟩, _,
      ⟨hgrant, hkind, hprincipal, hyard, hforce⟩, rfl, rfl⟩
    exact ⟨member, hmember, hgroup, hid, hworkspace, hintact, hgrant, hkind, hprincipal, hyard,
      hforce⟩
  · rintro ⟨member, hmember, hgroup, hid, hworkspace, hintact, hgrant, hkind, hprincipal, hyard,
      hforce⟩
    exact ⟨member, hmember, group, ⟨hgroup, hid, hworkspace, hintact⟩, grant,
      ⟨hgrant, hkind, hprincipal, hyard, hforce⟩, rfl, rfl⟩

theorem mem_groupRows {row : String × List String} :
    row ∈ s.groupRows yardId environmentId workspaceId userId nowMs ↔
      ∃ group grant, s.GrantedBy yardId environmentId workspaceId userId nowMs group grant ∧
        row = (group.id, grant.appRoles) := by
  simp only [groupRows, List.mem_map, mem_orderBy, mem_groupGrants]
  constructor
  · rintro ⟨⟨group, grant⟩, hgranted, rfl⟩
    exact ⟨group, grant, hgranted, rfl⟩
  · rintro ⟨group, grant, hgranted, rfl⟩
    exact ⟨⟨group, grant⟩, hgranted, rfl⟩

/-- The identity query and the admission query have the same conditions on a group. -/
theorem intactGroup_iff {group : WorkspaceGroupRecord} : s.IntactGroup group ↔
    group.status = .active ∧ group.deactivatedAtMs = none ∧ s.SoundGroup group ∧
      s.groupGrantCount group ≤ 500 := by
  have hstray : ∀ member, ¬s.Stray member ↔ ∃ user ∈ s.localUsers, user.id = member.userId ∧
      user.workspaceId = member.workspaceId ∧ user.status = .active ∧
      user.deactivatedAtMs = none := by
    intro member
    simp only [Stray, not_forall, not_or, not_not]
    constructor
    · rintro ⟨user, huser, hid, hworkspace, hactive, hlive⟩
      exact ⟨user, huser, hid, hworkspace, hactive, hlive⟩
    · rintro ⟨user, huser, hid, hworkspace, hactive, hlive⟩
      exact ⟨user, huser, hid, hworkspace, hactive, hlive⟩
  have hcount : ((s.yardAccessGrants.select fun grant => grant.principalKind = .group ∧
      grant.principalId = group.id ∧ grant.status = .active).take 501).length ≤ 500 ↔
      s.groupGrantCount group ≤ 500 := by
    rw [List.length_take, groupGrantCount, Table.count, List.countP_eq_length_filter,
      Table.select]
    omega
  have hmembers : ((s.membersOf group).take 501).countP (fun member => s.Stray member) = 0 ↔
      ∀ member ∈ (s.membersOf group).take 501, ∃ user ∈ s.localUsers, user.id = member.userId ∧
        user.workspaceId = member.workspaceId ∧ user.status = .active ∧
        user.deactivatedAtMs = none := by
    rw [List.countP_eq_zero]
    simp only [decide_eq_true_eq, hstray]
  rw [IntactGroup, hcount, hmembers, List.length_take, SoundGroup]
  constructor
  · rintro ⟨hactive, hlive, hsize, hexact, hall, hgrants⟩
    exact ⟨hactive, hlive, ⟨hsize, hexact, hall⟩, hgrants⟩
  · rintro ⟨hactive, hlive, ⟨hsize, hexact, hall⟩, hgrants⟩
    exact ⟨hactive, hlive, hsize, hexact, hall, hgrants⟩

/-! ### What an identity is made of -/

variable {hostLabel tokenHash : String} {session : YardSessionRecord} {base : IdentityBase}

theorem identityRow_eq_some : s.identityRow hostLabel session = some base ↔
    ∃ subject, ((subject ∈ s.yardSubjects ∧ subject.id = session.userId) ∧
        subject.revokedAtMs = none) ∧
      ∃ person, s.identityPerson subject = some person ∧
      ∃ yard, ((yard ∈ s.webYards ∧ yard.id = session.yardId) ∧
        yard.status = .active ∧ s.HostedAt hostLabel yard) ∧
      ∃ environment, ((environment ∈ s.yardEnvironments ∧ environment.id = session.environmentId) ∧
        environment.yardId = yard.id ∧ environment.status = .active) ∧
      ∃ policy, ((policy ∈ s.yardAccessPolicies ∧ policy.yardId = yard.id) ∧
        policy.visibility ≠ .publicAccess ∧ policy.visibility ≠ .owner) ∧
      { sessionId := session.id, userId := subject.id, subjectKind := subject.kind,
        invitationId := subject.invitationId, workspaceId := subject.workspaceId,
        projectId := yard.projectId, yardId := yard.id, environmentId := environment.id,
        displayName := some person.1, email := person.2,
        visibility := policy.visibility : IdentityBase } = base := by
  simp only [identityRow, Option.bind_eq_bind, Option.bind_eq_some_iff, Option.filter_eq_some_iff,
    Table.find?_eq_some, decide_eq_true_eq, Option.pure_def, Option.some.injEq]

theorem baseByHost_spec (h : s.baseByHost hostLabel tokenHash nowMs = .ok base) :
    ∃ session ∈ s.yardSessions, SessionInForce tokenHash hostLabel nowMs session ∧
      s.identityRow hostLabel session = some base := by
  obtain ⟨session, hsession, hrow⟩ :=
    List.exists_of_findSome?_eq_some (requireRow_eq_ok.mp h)
  obtain ⟨hmem, hforce⟩ := Table.mem_select.mp hsession
  exact ⟨session, hmem, hforce, hrow⟩

/-- With distinct hashes there is no other session whose joins could be returned. -/
theorem baseByHost_of_unique (hunique : s.yardSessions.UniqueOn YardSessionRecord.tokenHash)
    (hsession : session ∈ s.yardSessions) (hforce : SessionInForce tokenHash hostLabel nowMs session)
    (hrow : s.identityRow hostLabel session = some base) :
    s.baseByHost hostLabel tokenHash nowMs = .ok base := by
  refine requireRow_eq_ok.mpr ?_
  cases hfound : (s.yardSessions.select (SessionInForce tokenHash hostLabel nowMs)).findSome?
      (s.identityRow hostLabel) with
  | none =>
    have hnone := List.findSome?_eq_none_iff.mp hfound session (Table.mem_select.mpr ⟨hsession, hforce⟩)
    rw [hrow] at hnone
    cases hnone
  | some other =>
    obtain ⟨session', hmem, hrow'⟩ := List.exists_of_findSome?_eq_some hfound
    obtain ⟨hsession', hforce'⟩ := Table.mem_select.mp hmem
    have hsame : session' = session :=
      hunique session' hsession' session hsession (hforce'.1.trans hforce.1.symm)
    rw [hsame, hrow] at hrow'
    exact hrow'.symm

/-- The rows that an identity was put together from. -/
structure ResolvedFrom (s : Repository) (hostLabel tokenHash : String) (nowMs : ℕ)
    (session : YardSessionRecord) (base : IdentityBase)
    (granted : Option YardManagementRole × IdentityGrantSources) : Prop where
  time : nowMs ≤ i64Max
  hash : ValidChecksum tokenHash
  stored : session ∈ s.yardSessions
  inForce : SessionInForce tokenHash hostLabel nowMs session
  row : s.identityRow hostLabel session = some base
  admitted : s.sessionId tokenHash hostLabel base.yardId nowMs = .ok (some base.sessionId)
  authority : s.authority base nowMs = .ok granted

theorem resolveYardIdentity_spec {identity : YardIdentity}
    (h : s.resolveYardIdentity hostLabel tokenHash nowMs = .ok (identity, s')) :
    ∃ session base granted, s.ResolvedFrom hostLabel tokenHash nowMs session base granted ∧
      identity = s.identityOf base granted ∧ s.touchIdentity base.sessionId nowMs = .ok s' := by
  simp only [resolveYardIdentity, bind_eq_ok, pure_eq_ok, ensure_eq_ok, toI64_eq_ok,
    validateHash_eq_ok, Prod.mk.injEq] at h
  obtain ⟨_, htime, -, -, _, hhash, base, hbase, admitted, hadmitted, -, rfl, -, -, granted, hgranted,
    s₁, htouch, rfl, rfl⟩ := h
  obtain ⟨session, hsession, hforce, hrow⟩ := baseByHost_spec hbase
  exact ⟨session, base, granted, ⟨htime, hhash, hsession, hforce, hrow, hadmitted, hgranted⟩, rfl,
    htouch⟩

end Repository

end BlobYard
