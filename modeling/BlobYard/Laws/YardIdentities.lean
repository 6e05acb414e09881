/-
Identity and admission agree.

The file server admits a session with one query for members and one for guests; the runtime
identity of the same session is resolved with queries of its own.  Both must see the same session
and the same grants.  They do, but for the last step: resolving an identity records its time as
the last use of the session, which the schema refuses before the session was created.

* `Accepts`, `Selects` — what admission says of a session and of a grant;
* `Coherent` — the invariant: distinct hashes, sound roles and groups, grants to principals of the
  yard's workspace;
* `agrees_iff` — in a coherent state the two agree exactly when the clock is not behind the session;
* `agreement_law` — the law over runs.
-/
import BlobYard.Laws.ManagementRoles
import BlobYard.Laws.WorkspaceGroups
import BlobYard.Repository.YardIdentity
import BlobYard.Repository.YardRequests

namespace BlobYard

open Outcome Repository

namespace YardIdentities

/-! ### What admission accepts and selects -/

/-- The file server accepts the session of the hash for the yard through this host. -/
def Accepts (s : Repository) (hostLabel tokenHash : String) (nowMs : ℕ) (yard : WebYardRecord)
    (session : YardSessionRecord) : Prop :=
  nowMs ≤ i64Max ∧ yard ∈ s.webYards ∧ session ∈ s.yardSessions ∧
    s.requiredSession (some tokenHash) hostLabel yard.id nowMs = .ok (some session.id)

/-- The visibility of the yard is neither public nor owner-only. -/
def Shared (s : Repository) (yard : WebYardRecord) : Prop :=
  s.effectiveVisibility yard.id ≠ .publicAccess ∧ s.effectiveVisibility yard.id ≠ .owner

/-- Admission selects the grant to the user in person. -/
def SelectsDirectly (yard : WebYardRecord) (environmentId : String) (user : LocalUserRecord)
    (nowMs : ℕ) (grant : YardAccessGrantRecord) : Prop :=
  grant.yardId = yard.id ∧ grant.principalKind = .user ∧ grant.principalId = user.id ∧
    user.workspaceId = yard.workspaceId ∧ GrantInForce grant environmentId nowMs

/-- Admission selects the grant to a group of the user. -/
def SelectsByGroup (s : Repository) (yard : WebYardRecord) (environmentId : String)
    (user : LocalUserRecord) (nowMs : ℕ) (grant : YardAccessGrantRecord) : Prop :=
  user.workspaceId = yard.workspaceId ∧
    (s.membershipsOf user.id yard.workspaceId).length ≤ 100 ∧
    ∃ member ∈ s.membershipsOf user.id yard.workspaceId, ∃ group ∈ s.workspaceGroups,
      group.id = member.groupId ∧ group.workspaceId = member.workspaceId ∧
      group.status = .active ∧ group.deactivatedAtMs = none ∧ s.SoundGroup group ∧
      (grant.yardId = yard.id ∧ grant.principalKind = .group ∧ grant.principalId = group.id ∧
        GrantInForce grant environmentId nowMs) ∧ s.groupGrantCount group ≤ 500

/-- Admission selects the grant of the guest's invitation. -/
def SelectsForGuest (s : Repository) (yard : WebYardRecord) (environmentId : String)
    (subject : YardSubjectRecord) (nowMs : ℕ) (grant : YardAccessGrantRecord) : Prop :=
  ∃ invitation ∈ s.yardGuestInvitations, subject.invitationId = some invitation.id ∧
    InvitationInForce invitation subject nowMs ∧ invitation.yardId = yard.id ∧
    (∀ id ∈ invitation.environmentId, id = environmentId) ∧ grant.id = invitation.grantId ∧
    GrantOfInvitation grant invitation

/-- Admission selects the grant for the subject. -/
def Selects (s : Repository) (yard : WebYardRecord) (environmentId : String)
    (subject : YardSubjectRecord) (nowMs : ℕ) (grant : YardAccessGrantRecord) : Prop :=
  match subject.kind with
  | .member => ∃ user ∈ s.localUsers, user.id = subject.id ∧
      (SelectsDirectly yard environmentId user nowMs grant ∨
        SelectsByGroup s yard environmentId user nowMs grant)
  | .guest => SelectsForGuest s yard environmentId subject nowMs grant

variable {s s' : Repository} {yard : WebYardRecord} {environmentId hostLabel tokenHash : String}
  {nowMs : ℕ}

/-! ### The invariant -/

/-- The assignments of every yard pass the integrity check, and each of them decodes. -/
structure RolesSound (s : Repository) : Prop where
  bounded : ∀ yardId, (s.rolesOf yardId).length ≤ maximumYardManagementRoles
  owned : ∀ a ∈ s.yardManagementRoles, ∃ o ∈ s.yardManagementRoles,
    o.yardId = a.yardId ∧ o.role = .owner
  valid : ∀ a ∈ s.yardManagementRoles, ValidAssignment a

/-- A grant to a user or a group names one of the yard's workspace. -/
structure PlacedGrant (s : Repository) (grant : YardAccessGrantRecord) : Prop where
  user : grant.principalKind = .user → ∃ y ∈ s.webYards, y.id = grant.yardId ∧
    ∃ u ∈ s.localUsers, u.id = grant.principalId ∧ u.workspaceId = y.workspaceId
  group : grant.principalKind = .group → ∃ y ∈ s.webYards, y.id = grant.yardId ∧
    ∃ g ∈ s.workspaceGroups, g.id = grant.principalId ∧ g.workspaceId = y.workspaceId

/-- The identifiers that the identity queries validate are texts. -/
structure IdsValid (s : Repository) : Prop where
  yards : ∀ y ∈ s.webYards, ValidText y.id
  environments : ∀ e ∈ s.yardEnvironments, ValidText e.id
  subjects : ∀ x ∈ s.yardSubjects, ValidText x.workspaceId
  invitations : ∀ i ∈ s.yardGuestInvitations, ValidText i.id

structure Coherent (s : Repository) : Prop where
  tokens : s.yardSessions.UniqueOn YardSessionRecord.tokenHash
  roles : RolesSound s
  grouped : WorkspaceGroups.Grouped s
  placed : ∀ grant ∈ s.yardAccessGrants, PlacedGrant s grant
  ids : IdsValid s

/-! ### What the checks of the identity need -/

theorem validateState_of_sound (h : RolesSound s) (yardId : String) :
    ∃ state, s.validateState yardId = .ok state := by
  simp only [validateState, bind_eq_ok, pure_eq_ok, ensure_eq_ok]
  have hbound := h.bounded yardId
  have htake : (s.rolesOf yardId).take (maximumYardManagementRoles + 1) = s.rolesOf yardId :=
    List.take_of_length_le (by omega)
  rw [htake]
  refine ⟨_, (), ⟨hbound, ?_, List.countP_le_length⟩, rfl⟩
  rcases Nat.eq_zero_or_pos (s.rolesOf yardId).length with hzero | hpos
  · exact Or.inl hzero
  · obtain ⟨a, ha⟩ := List.exists_mem_of_length_pos hpos
    obtain ⟨hmem, hyard⟩ := mem_rolesOf.mp ha
    obtain ⟨o, ho, hsame, howner⟩ := h.owned a hmem
    refine Or.inr (List.countP_pos_iff.mpr ⟨o, mem_rolesOf.mpr ⟨ho, hsame.trans hyard⟩, ?_⟩)
    exact decide_eq_true howner

theorem assignmentByUser_of_sound (h : RolesSound s) (yardId userId : String) :
    ∃ found, s.assignmentByUser yardId userId = .ok found := by
  unfold assignmentByUser
  split
  · exact ⟨none, rfl⟩
  · rename_i assignment hfound
    have hvalid := h.valid assignment (Table.find?_eq_some.mp hfound).1
    refine ⟨some assignment, ?_⟩
    simp only [bind_eq_ok, pure_eq_ok, ensure_eq_ok]
    exact ⟨(), hvalid, trivial⟩

theorem membershipsOf_le (h : WorkspaceGroups.Grouped s) (userId workspaceId : String) :
    (s.membershipsOf userId workspaceId).length ≤ maximumUserGroups := by
  refine le_trans ?_ (h.memberships userId)
  rw [membershipsOf, Table.select, Table.count, ← List.countP_eq_length_filter]
  refine List.countP_mono_left fun member _ hmember => ?_
  simp only [decide_eq_true_eq] at hmember ⊢
  exact hmember.1

/-! ### The session that admission accepts -/

/-- What the checks of the file server find behind an accepted session. -/
structure Visit (s : Repository) (hostLabel tokenHash : String) (nowMs : ℕ)
    (yard : WebYardRecord) (session : YardSessionRecord) (subject : YardSubjectRecord)
    (environment : YardEnvironmentRecord) : Prop where
  host : validateHostLabel hostLabel = .ok ()
  hash : ValidChecksum tokenHash
  inForce : SessionInForce tokenHash hostLabel nowMs session
  sessionYard : session.yardId = yard.id
  sessionId : s.sessionId tokenHash hostLabel yard.id nowMs = .ok (some session.id)
  subjectRow : subject ∈ s.yardSubjects
  subjectId : subject.id = session.userId
  subjectText : ValidText subject.id
  live : subject.revokedAtMs = none
  active : yard.status = .active
  hosted : s.HostedAt hostLabel yard
  environmentRow : environment ∈ s.yardEnvironments
  environmentId : environment.id = session.environmentId
  production : ServesProduction yard environment
  person : (subject.kind = .member ∧ subject.invitationId = none ∧
      ∃ user ∈ s.localUsers, user.id = subject.id ∧ subject.localUserId = some user.id ∧
        user.workspaceId = subject.workspaceId ∧ user.status = .active ∧
        user.deactivatedAtMs = none) ∨
    (subject.kind = .guest ∧ subject.localUserId = none ∧
      ∃ grant ∈ s.yardAccessGrants,
        SelectsForGuest s yard environment.id subject nowMs grant)

/-- The first session of the hash, host and yard, whose subject is admitted to its environment. -/
theorem sessionId_eq_some {yardId id : String}
    (h : s.sessionId tokenHash hostLabel yardId nowMs = .ok (some id)) :
    ∃ session ∈ s.yardSessions, SessionInForce tokenHash hostLabel nowMs session ∧
      session.yardId = yardId ∧ session.id = id ∧ ∃ admission,
        s.evaluateAdmission hostLabel session.userId nowMs = .ok admission ∧
        admission.yardId = yardId ∧ admission.environmentId = session.environmentId := by
  unfold sessionId at h
  split at h
  · cases h
  · rename_i session hfound
    obtain ⟨hsession, hhash, hhost, hyard, hrevoked, hexpires⟩ :=
      Table.mem_select.mp (List.mem_of_head? hfound)
    simp only [bind_eq_ok, pure_eq_ok] at h
    obtain ⟨admission, hadmission, h⟩ := h
    split at h
    · rename_i hsame
      exact ⟨session, hsession, ⟨hhash, hhost, hrevoked, hexpires⟩, hyard, Option.some.inj h,
        admission, hadmission, hsame.1, hsame.2⟩
    · cases h

theorem requiredSession_eq_some {yardId id : String}
    (h : s.requiredSession (some tokenHash) hostLabel yardId nowMs = .ok (some id)) :
    s.effectiveVisibility yardId ≠ .publicAccess ∧ ValidChecksum tokenHash ∧
      s.sessionId tokenHash hostLabel yardId nowMs = .ok (some id) := by
  unfold requiredSession at h
  split at h
  · cases h
  · rename_i hrestricted
    simp only [bind_eq_ok, pure_eq_ok, requireRow_eq_ok, Option.some.injEq,
      validateHash_eq_ok] at h
    obtain ⟨_, rfl, -, hhash, found, hfound, _, rfl, rfl⟩ := h
    exact ⟨hrestricted, hhash, hfound⟩

/-- An accepted session is one in force whose subject is admitted. -/
theorem visit_of_accepts {session : YardSessionRecord}
    (h : Accepts s hostLabel tokenHash nowMs yard session) :
    ∃ subject environment, Visit s hostLabel tokenHash nowMs yard session subject environment := by
  obtain ⟨-, hyard, hsession, hrequired⟩ := h
  obtain ⟨-, hhash, hid⟩ := requiredSession_eq_some hrequired
  obtain ⟨session', hsession', hforce, hsessionYard, hsame, admission, hadmission, hayard, haenv⟩ :=
    sessionId_eq_some hid
  obtain rfl := Table.eq_of_key hsession' hsession hsame
  -- what admission looked at last: the person behind the subject
  have hevaluate := hadmission
  simp only [evaluateAdmission, bind_eq_ok, requireRow_eq_ok, Option.filter_eq_some_iff,
    validateText_eq_ok] at hevaluate
  obtain ⟨_, hhost, -, htext, found, -, hcase⟩ := hevaluate
  split at hcase
  -- a guest, with the invitation in force and the grant it was given
  · obtain ⟨subject, invitation, grant, yard', environment, hsubject, hsid, hkind, hlocal, hrevoked,
      hinvited, hinvitation, hinForce, hgrant, hgid, hof, ⟨hyard', henvironment, hyid, heid,
      hhosted⟩, hiyard, hactive, -, -, hproduction, hscope⟩ := evaluateGuest_spec hcase
    obtain rfl := Table.eq_of_key hyard' hyard (hyid.trans hayard)
    exact ⟨subject, environment, {
      host := hhost, hash := hhash, inForce := hforce, sessionYard := hsessionYard
      sessionId := hid, subjectRow := hsubject, subjectId := hsid, subjectText := hsid ▸ htext
      live := hrevoked, active := hactive, hosted := hhosted, environmentRow := henvironment
      environmentId := heid.trans haenv, production := hproduction
      person := Or.inr ⟨hkind, hlocal, grant, hgrant, invitation, hinvitation, hinvited, hinForce,
        hiyard, hscope, hgid, hof⟩ }⟩
  -- a member, with an active local user of the workspace
  · obtain ⟨user, subject, yard', environment, huser, huid, hactiveUser, hlive, hsubject, hsid, hkind,
      hlocal, hinvitation, hworkspace, hrevoked, ⟨hyard', henvironment, hyid, heid, hhosted⟩,
      hactive, hproduction, -⟩ := evaluateMember_spec hcase
    obtain rfl := Table.eq_of_key hyard' hyard (hyid.trans hayard)
    exact ⟨subject, environment, {
      host := hhost, hash := hhash, inForce := hforce, sessionYard := hsessionYard
      sessionId := hid, subjectRow := hsubject, subjectId := hsid, subjectText := hsid ▸ htext
      live := hrevoked, active := hactive, hosted := hhosted, environmentRow := henvironment
      environmentId := heid.trans haenv, production := hproduction
      person := Or.inl ⟨hkind, hinvitation, user, huser, huid.trans hsid.symm, hlocal,
        hworkspace.symm, hactiveUser, hlive⟩ }⟩

/-! ### Every accepted session has an identity -/

section Resolution

variable {session : YardSessionRecord} {subject : YardSubjectRecord}
  {environment : YardEnvironmentRecord} {base : IdentityBase}

/-- The row of the base query tells whose session it is and where. -/
structure BaseFor (yard : WebYardRecord) (session : YardSessionRecord)
    (subject : YardSubjectRecord) (base : IdentityBase) : Prop where
  sessionId : base.sessionId = session.id
  userId : base.userId = subject.id
  subjectKind : base.subjectKind = subject.kind
  invitationId : base.invitationId = subject.invitationId
  workspaceId : base.workspaceId = subject.workspaceId
  yardId : base.yardId = yard.id
  environmentId : base.environmentId = session.environmentId

theorem identityPerson_of_visit
    (h : Visit s hostLabel tokenHash nowMs yard session subject environment) :
    ∃ person, s.identityPerson subject = some person := by
  unfold identityPerson
  rcases h.person with ⟨hkind, hnone, user, huser, -, hlocal, hworkspace, hactive, hlive⟩ |
    ⟨hkind, hnone, grant, -, invitation, hinvitation, hinvited, hforce, -⟩
  · have hfind : s.localUsers.find? user.id = some user := Table.find?_key huser
    simp [hkind, hnone, hlocal, hfind, Option.filter, hworkspace, hactive, hlive]
  · have hfind : s.yardGuestInvitations.find? invitation.id = some invitation :=
      Table.find?_key hinvitation
    simp [hkind, hnone, hinvited, hfind, Option.filter, hforce.1]

theorem identityRow_of_visit (hyard : yard ∈ s.webYards) (hshared : Shared s yard)
    (h : Visit s hostLabel tokenHash nowMs yard session subject environment) :
    ∃ base, s.identityRow hostLabel session = some base ∧ BaseFor yard session subject base := by
  obtain ⟨person, hperson⟩ := identityPerson_of_visit h
  -- a yard without a policy is public
  obtain ⟨policy, hpolicy, hpid, hvisibility⟩ : ∃ policy ∈ s.yardAccessPolicies,
      policy.yardId = yard.id ∧ policy.visibility ≠ .publicAccess ∧ policy.visibility ≠ .owner := by
    obtain ⟨hpublic, howner⟩ := hshared
    unfold effectiveVisibility at hpublic howner
    cases hfind : s.yardAccessPolicies.find? yard.id with
    | none => exact absurd (by rw [hfind]; rfl) hpublic
    | some policy =>
      rw [hfind] at hpublic howner
      obtain ⟨hmem, hid⟩ := Table.find?_eq_some.mp hfind
      exact ⟨policy, hmem, hid, hpublic, howner⟩
  refine ⟨_, identityRow_eq_some.mpr ⟨subject, ⟨⟨h.subjectRow, h.subjectId⟩, h.live⟩, person, hperson,
    yard, ⟨⟨hyard, h.sessionYard.symm⟩, h.active, h.hosted⟩, environment,
    ⟨⟨h.environmentRow, h.environmentId⟩, h.production.1, h.production.2.2⟩, policy,
    ⟨⟨hpolicy, hpid⟩, hvisibility⟩, rfl⟩, ?_⟩
  exact ⟨rfl, rfl, rfl, rfl, rfl, rfl, h.environmentId⟩

/-- The guest query returns the grant that admission selected. -/
theorem guestGrants_of_selects (hc : Coherent s)
    (h : Visit s hostLabel tokenHash nowMs yard session subject environment)
    (hyard : yard ∈ s.webYards) (hkind : subject.kind = .guest)
    (hlocal : subject.localUserId = none) {grant : YardAccessGrantRecord}
    (hgrant : grant ∈ s.yardAccessGrants) {invitation : YardGuestInvitationRow}
    (hinvitation : invitation ∈ s.yardGuestInvitations)
    (hinvited : subject.invitationId = some invitation.id)
    (hforce : InvitationInForce invitation subject nowMs) (hiyard : invitation.yardId = yard.id)
    (hscope : ∀ id ∈ invitation.environmentId, id = environment.id)
    (hgid : grant.id = invitation.grantId) (hof : GrantOfInvitation grant invitation) :
    s.guestGrants yard.id session.environmentId subject.workspaceId subject.id invitation.id nowMs =
      .ok { groups := [], roles := grant.appRoles } := by
  obtain ⟨hworkspace, haccepted, hstatus, hrevoked, hexpires⟩ := hforce
  obtain ⟨hgyard, hgkind, hgprincipal, hgactive, hgrevoked, hgexpires, hgenvironment⟩ := hof
  simp only [guestGrants, bind_eq_ok, pure_eq_ok, validateTexts_eq_ok, requireRow_eq_ok,
    Option.filter_eq_some_iff, Table.find?_eq_some, decide_eq_true_eq]
  -- the query asks once more for what the invitation in force and its grant have shown
  refine ⟨(), ?_, subject, ⟨⟨h.subjectRow, rfl⟩, hkind, rfl, hinvited, hlocal, h.live⟩, invitation,
    ⟨⟨hinvitation, rfl⟩, haccepted, hworkspace, hiyard, hstatus, hrevoked, hexpires, ?_⟩, grant,
    ⟨⟨hgrant, hgid⟩, hgyard, hgkind, hgprincipal, hgactive, hgrevoked, hgexpires, hgenvironment⟩,
    rfl⟩
  · simp only [List.forall_mem_cons]
    exact ⟨hc.ids.yards yard hyard, h.environmentId ▸ hc.ids.environments _ h.environmentRow,
      hc.ids.subjects subject h.subjectRow, h.subjectText, hc.ids.invitations _ hinvitation,
      List.forall_mem_nil _⟩
  -- the scope names the environment of the session
  · rw [← h.environmentId]
    exact hscope

/-- The grant queries of the identity answer for every accepted session. -/
theorem authority_of_visit (hc : Coherent s) (hyard : yard ∈ s.webYards)
    (h : Visit s hostLabel tokenHash nowMs yard session subject environment)
    (hbase : BaseFor yard session subject base) : ∃ granted, s.authority base nowMs = .ok granted := by
  unfold authority
  rw [hbase.subjectKind, hbase.invitationId, hbase.yardId, hbase.environmentId, hbase.workspaceId,
    hbase.userId]
  rcases h.person with ⟨hkind, hnone, -⟩ | ⟨hkind, hlocal, grant, hgrant, invitation, hinvitation,
    hinvited, hforce, hiyard, hscope, hgid, hof⟩
  -- a member: the queries could only fail on a text or on too many memberships
  · rw [hkind, hnone]
    obtain ⟨found, hfound⟩ := assignmentByUser_of_sound hc.roles yard.id subject.id
    have hbound := membershipsOf_le hc.grouped subject.id subject.workspaceId
    have htexts : ∀ text ∈ [yard.id, session.environmentId, subject.workspaceId, subject.id],
        ValidText text := by
      simp only [List.forall_mem_cons]
      exact ⟨hc.ids.yards yard hyard, h.environmentId ▸ hc.ids.environments _ h.environmentRow,
        hc.ids.subjects subject h.subjectRow, h.subjectText, List.forall_mem_nil _⟩
    simp only [bind_eq_ok, pure_eq_ok, memberGrants, requireBoundedMemberships, ensure_eq_ok,
      validateTexts_eq_ok, List.length_take]
    exact ⟨_, found, hfound, _, ⟨(), htexts, (), by omega, rfl⟩, rfl⟩
  -- a guest: the grant of the invitation is found again
  · rw [hkind, hinvited]
    have hsources := guestGrants_of_selects hc h hyard hkind hlocal hgrant hinvitation hinvited hforce
      hiyard hscope hgid hof
    simp only [bind_eq_ok, pure_eq_ok]
    exact ⟨_, _, hsources, rfl⟩

theorem touchIdentity_ok (hsession : session ∈ s.yardSessions)
    (hforce : SessionInForce tokenHash hostLabel nowMs session)
    (htime : session.createdAtMs ≤ nowMs) : ∃ s', s.touchIdentity session.id nowMs = .ok s' := by
  obtain ⟨-, -, hrevoked, hexpires⟩ := hforce
  have honly : ∀ x ∈ s.yardSessions, x.id = session.id ∧ x.revokedAtMs = none ∧
      nowMs < x.expiresAtMs ↔ x = session := by
    intro x hx
    constructor
    · rintro ⟨hid, -⟩
      exact Table.eq_of_key hx hsession hid
    · rintro rfl
      exact ⟨rfl, hrevoked, hexpires⟩
  simp only [touchIdentity, bind_eq_ok, pure_eq_ok, ensure_eq_ok, changedOnce_eq_ok]
  refine ⟨_, (), fun x hx hin => ?_, (), Table.count_eq_one hsession honly, rfl⟩
  rw [(honly x hx).mp hin]
  exact htime

/-- Before the session was created its use cannot be recorded. -/
theorem touchIdentity_error (hsession : session ∈ s.yardSessions)
    (hforce : SessionInForce tokenHash hostLabel nowMs session)
    (htime : nowMs < session.createdAtMs) : s.touchIdentity session.id nowMs = .error .conflict := by
  obtain ⟨-, -, hrevoked, hexpires⟩ := hforce
  refine bind_eq_error.mpr (Or.inl (ensure_eq_error.mpr ⟨fun hall => ?_, rfl⟩))
  have hle := hall session hsession ⟨rfl, hrevoked, hexpires⟩
  omega

/-- Everything but the last step of the resolution succeeds for an accepted session. -/
theorem steps_of_accepts (hc : Coherent s) (hshared : Shared s yard)
    (h : Accepts s hostLabel tokenHash nowMs yard session) :
    ∃ base granted state, SessionInForce tokenHash hostLabel nowMs session ∧
      validateHostLabel hostLabel = .ok () ∧ ValidChecksum tokenHash ∧
      s.baseByHost hostLabel tokenHash nowMs = .ok base ∧ base.sessionId = session.id ∧
      base.yardId = yard.id ∧
      s.sessionId tokenHash hostLabel base.yardId nowMs = .ok (some base.sessionId) ∧
      s.validateState base.yardId = .ok state ∧ s.authority base nowMs = .ok granted := by
  obtain ⟨subject, environment, hvisit⟩ := visit_of_accepts h
  obtain ⟨base, hrow, hbase⟩ := identityRow_of_visit h.2.1 hshared hvisit
  obtain ⟨state, hstate⟩ := validateState_of_sound hc.roles base.yardId
  obtain ⟨granted, hgranted⟩ := authority_of_visit hc h.2.1 hvisit hbase
  refine ⟨base, granted, state, hvisit.inForce, hvisit.host, hvisit.hash,
    baseByHost_of_unique hc.tokens h.2.2.1 hvisit.inForce hrow, hbase.sessionId, hbase.yardId, ?_,
    hstate, hgranted⟩
  rw [hbase.yardId, hbase.sessionId]
  exact hvisit.sessionId

/-- An accepted session that was created by now has an identity. -/
theorem resolve_of_accepts (hc : Coherent s) (hshared : Shared s yard)
    (h : Accepts s hostLabel tokenHash nowMs yard session) (htime : session.createdAtMs ≤ nowMs) :
    ∃ identity s', s.resolveYardIdentity hostLabel tokenHash nowMs = .ok (identity, s') ∧
      identity.yardId = yard.id ∧ identity.sessionId = session.id := by
  obtain ⟨base, granted, state, hforce, hhost, hhash, hbase, hid, hyard, hadmitted, hstate,
    hgranted⟩ := steps_of_accepts hc hshared h
  obtain ⟨s', htouch⟩ := touchIdentity_ok h.2.2.1 hforce htime
  rw [← hid] at htouch
  refine ⟨s.identityOf base granted, s', ?_, hyard, hid⟩
  simp only [resolveYardIdentity, bind_eq_ok, pure_eq_ok, ensure_eq_ok, toI64_eq_ok,
    validateHash_eq_ok]
  exact ⟨(), h.1, (), hhost, (), hhash, base, hbase, _, hadmitted, (), rfl, state, hstate, granted,
    hgranted, s', htouch, rfl⟩

/-- An accepted session that was created later is in conflict with the time. -/
theorem resolve_conflict (hc : Coherent s) (hshared : Shared s yard)
    (h : Accepts s hostLabel tokenHash nowMs yard session) (htime : nowMs < session.createdAtMs) :
    s.resolveYardIdentity hostLabel tokenHash nowMs = .error .conflict := by
  obtain ⟨base, granted, state, hforce, hhost, hhash, hbase, hid, -, hadmitted, hstate,
    hgranted⟩ := steps_of_accepts hc hshared h
  have htouch := touchIdentity_error h.2.2.1 hforce htime
  rw [← hid] at htouch
  refine bind_eq_error.mpr (Or.inr ⟨(), toI64_eq_ok.mpr h.1, ?_⟩)
  refine bind_eq_error.mpr (Or.inr ⟨(), hhost, ?_⟩)
  refine bind_eq_error.mpr (Or.inr ⟨(), validateHash_eq_ok.mpr hhash, ?_⟩)
  refine bind_eq_error.mpr (Or.inr ⟨base, hbase, ?_⟩)
  refine bind_eq_error.mpr (Or.inr ⟨_, hadmitted, ?_⟩)
  refine bind_eq_error.mpr (Or.inr ⟨(), ensure_eq_ok.mpr rfl, ?_⟩)
  refine bind_eq_error.mpr (Or.inr ⟨state, hstate, ?_⟩)
  refine bind_eq_error.mpr (Or.inr ⟨granted, hgranted, ?_⟩)
  exact bind_eq_error.mpr (Or.inl htouch)

/-! ### Every identity is of an accepted session -/

theorem accepts_of_resolved {granted : Option YardManagementRole × IdentityGrantSources}
    (h : s.ResolvedFrom hostLabel tokenHash nowMs session base granted) :
    ∃ yard, Accepts s hostLabel tokenHash nowMs yard session ∧ Shared s yard ∧
      ∃ subject environment, Visit s hostLabel tokenHash nowMs yard session subject environment ∧
        BaseFor yard session subject base := by
  obtain ⟨subject, ⟨⟨hsubject, hsid⟩, -⟩, person, -, yard, ⟨⟨hyard, hyid⟩, -⟩, environment,
    ⟨⟨-, heid⟩, -⟩, policy, ⟨⟨hpolicy, hpid⟩, hpublic, howner⟩, rfl⟩ := identityRow_eq_some.mp h.row
  have hvisibility : s.effectiveVisibility yard.id = policy.visibility := by
    rw [effectiveVisibility, Table.find?_eq_some.mpr ⟨hpolicy, hpid⟩]
    rfl
  have hshared : Shared s yard := ⟨hvisibility ▸ hpublic, hvisibility ▸ howner⟩
  -- the resolver and the file server let the session in by the same check
  have haccepts : Accepts s hostLabel tokenHash nowMs yard session := by
    refine ⟨h.time, hyard, h.stored, ?_⟩
    unfold requiredSession
    rw [if_neg hshared.1]
    simp only [bind_eq_ok, pure_eq_ok, requireRow_eq_ok, validateHash_eq_ok]
    exact ⟨tokenHash, rfl, (), h.hash, _, h.admitted, session.id, rfl, rfl⟩
  -- both have looked at the subject of the session
  obtain ⟨subject', environment', hvisit⟩ := visit_of_accepts haccepts
  have hsame : subject' = subject :=
    Table.eq_of_key hvisit.subjectRow hsubject (hvisit.subjectId.trans hsid.symm)
  subst hsame
  exact ⟨yard, haccepts, hshared, subject', environment', hvisit,
    ⟨rfl, rfl, rfl, rfl, rfl, rfl, heid⟩⟩

/-! ### The roles of an identity are those of the selected grants -/

/-- In person, the identity query looks at the grants that admission selects. -/
theorem direct_iff (hc : Coherent s) (hyard : yard ∈ s.webYards) {user : LocalUserRecord}
    (huser : user ∈ s.localUsers) {grant : YardAccessGrantRecord}
    (hgrant : grant ∈ s.yardAccessGrants) :
    (grant.yardId = yard.id ∧ grant.principalKind = .user ∧ grant.principalId = user.id ∧
      GrantInForce grant environmentId nowMs) ↔
    SelectsDirectly yard environmentId user nowMs grant := by
  constructor
  · rintro ⟨hgyard, hkind, hprincipal, hforce⟩
    obtain ⟨y, hy, hyid, u, hu, huid, hworkspace⟩ := (hc.placed grant hgrant).user hkind
    obtain rfl := Table.eq_of_key hy hyard (hyid.trans hgyard)
    obtain rfl := Table.eq_of_key hu huser (huid.trans hprincipal)
    exact ⟨hgyard, hkind, hprincipal, hworkspace, hforce⟩
  · rintro ⟨hgyard, hkind, hprincipal, -, hforce⟩
    exact ⟨hgyard, hkind, hprincipal, hforce⟩

/-- Through groups, the identity query looks at the grants that admission selects. -/
theorem group_iff (hc : Coherent s) (hyard : yard ∈ s.webYards) {user : LocalUserRecord}
    {grant : YardAccessGrantRecord} (hgrant : grant ∈ s.yardAccessGrants) :
    (∃ group, s.GrantedBy yard.id environmentId user.workspaceId user.id nowMs group grant) ↔
      SelectsByGroup s yard environmentId user nowMs grant := by
  constructor
  · rintro ⟨group, member, hmember, hgroup, hid, hsame, hintact, -, hkind, hprincipal, hgyard,
      hforce⟩
    obtain ⟨hactive, hlive, hsound, hcount⟩ := intactGroup_iff.mp hintact
    obtain ⟨-, -, hmworkspace⟩ := Table.mem_select.mp hmember
    obtain ⟨y, hy, hyid, g, hg, hgid, hworkspace⟩ := (hc.placed grant hgrant).group hkind
    obtain rfl := Table.eq_of_key hy hyard (hyid.trans hgyard)
    obtain rfl := Table.eq_of_key hg hgroup (hgid.trans hprincipal)
    -- the group is of the user's workspace and of the yard's
    have huser : user.workspaceId = y.workspaceId :=
      hmworkspace.symm.trans (hsame.symm.trans hworkspace)
    rw [huser] at hmember
    exact ⟨huser, membershipsOf_le hc.grouped _ _, member, hmember, g, hgroup, hid, hsame, hactive,
      hlive, hsound, ⟨hgyard, hkind, hprincipal, hforce⟩, hcount⟩
  · rintro ⟨huser, -, member, hmember, group, hgroup, hid, hsame, hactive, hlive, hsound,
      ⟨hgyard, hkind, hprincipal, hforce⟩, hcount⟩
    rw [← huser] at hmember
    exact ⟨group, member, hmember, hgroup, hid, hsame,
      intactGroup_iff.mpr ⟨hactive, hlive, hsound, hcount⟩, hgrant, hkind, hprincipal, hgyard, hforce⟩

/-- The roles handed to the policy are exactly those of the grants that admission selects. -/
theorem roles_of_visit (hc : Coherent s) (hyard : yard ∈ s.webYards)
    (h : Visit s hostLabel tokenHash nowMs yard session subject environment)
    (hbase : BaseFor yard session subject base)
    {granted : Option YardManagementRole × IdentityGrantSources}
    (hgranted : s.authority base nowMs = .ok granted) (role : String) :
    role ∈ granted.2.roles ↔ ∃ grant ∈ s.yardAccessGrants,
      Selects s yard session.environmentId subject nowMs grant ∧ role ∈ grant.appRoles := by
  unfold authority at hgranted
  rw [hbase.subjectKind, hbase.invitationId, hbase.yardId, hbase.environmentId, hbase.workspaceId,
    hbase.userId] at hgranted
  unfold Selects
  rcases h.person with ⟨hkind, hnone, user, huser, huid, -, hworkspace, -⟩ |
    ⟨hkind, hlocal, grant, hgrant, invitation, hinvitation, hinvited, hforce, hiyard, hscope, hgid,
      hof⟩
  -- a member: the direct grants and those of the groups, which are two queries
  · rw [hkind, hnone] at hgranted
    simp only [bind_eq_ok, pure_eq_ok, memberGrants] at hgranted
    obtain ⟨_, -, sources, ⟨-, -, -, -, rfl⟩, rfl⟩ := hgranted
    rw [hkind, ← huid, ← hworkspace]
    simp only [List.mem_append, mem_directRoles, List.mem_flatMap, mem_groupRows]
    constructor
    · rintro (⟨grant, hgrant, hdirect, hrole⟩ | ⟨_, ⟨group, grant, hby, rfl⟩, hrole⟩)
      · exact ⟨grant, hgrant, ⟨user, huser, rfl, Or.inl ((direct_iff hc hyard huser hgrant).mp hdirect)⟩,
          hrole⟩
      -- whatever is behind the group, the grant is a stored one
      · have hgrant : grant ∈ s.yardAccessGrants := by
          obtain ⟨_, -, -, -, -, -, hgrant, -⟩ := hby
          exact hgrant
        exact ⟨grant, hgrant, ⟨user, huser, rfl, Or.inr ((group_iff hc hyard hgrant).mp ⟨group, hby⟩)⟩,
          hrole⟩
    · rintro ⟨grant, hgrant, ⟨user', huser', huid', hselects⟩, hrole⟩
      obtain rfl := Table.eq_of_key huser' huser huid'
      rcases hselects with hdirect | hgroup
      · exact Or.inl ⟨grant, hgrant, (direct_iff hc hyard huser hgrant).mpr hdirect, hrole⟩
      · obtain ⟨group, hby⟩ := (group_iff hc hyard hgrant).mpr hgroup
        exact Or.inr ⟨_, ⟨group, grant, hby, rfl⟩, hrole⟩
  -- a guest: the one grant of the invitation
  · rw [hkind, hinvited] at hgranted
    have hsources := guestGrants_of_selects hc h hyard hkind hlocal hgrant hinvitation hinvited hforce
      hiyard hscope hgid hof
    simp only [hsources, bind_eq_ok, pure_eq_ok, Except.ok.injEq] at hgranted
    obtain ⟨sources, rfl, rfl⟩ := hgranted
    rw [hkind]
    constructor
    · intro hrole
      rw [h.environmentId] at hscope
      exact ⟨grant, hgrant, ⟨invitation, hinvitation, hinvited, hforce, hiyard, hscope, hgid, hof⟩,
        hrole⟩
    · rintro ⟨grant', hgrant', ⟨invitation', hinvitation', hinvited', -, -, -, hgid', -⟩, hrole⟩
      -- a subject has one invitation, and an invitation one grant
      have hsame : invitation' = invitation := Table.eq_of_key hinvitation' hinvitation
        (Option.some.inj (hinvited'.symm.trans hinvited))
      rw [hsame] at hgid'
      obtain rfl := Table.eq_of_key hgrant' hgrant (hgid'.trans hgid.symm)
      exact hrole

/-! ### Agreement -/

/-- Identity and admission agree on the session of the hash for this host and time. -/
structure Agrees (s : Repository) (hostLabel tokenHash : String) (nowMs : ℕ) : Prop where
  /-- An identity is resolved only for an accepted session. -/
  accepted : ∀ identity s', s.resolveYardIdentity hostLabel tokenHash nowMs = .ok (identity, s') →
    ∃ yard session, Accepts s hostLabel tokenHash nowMs yard session ∧
      identity.yardId = yard.id ∧ identity.sessionId = session.id ∧
      identity.environmentId = session.environmentId ∧ identity.userId = session.userId
  /-- An accepted session of a shared yard has an identity. -/
  resolved : ∀ yard session, Accepts s hostLabel tokenHash nowMs yard session → Shared s yard →
    ∃ identity s', s.resolveYardIdentity hostLabel tokenHash nowMs = .ok (identity, s') ∧
      identity.yardId = yard.id ∧ identity.sessionId = session.id
  /-- Its roles are made of exactly the grants that admission selects for the subject. -/
  roles : ∀ identity s', s.resolveYardIdentity hostLabel tokenHash nowMs = .ok (identity, s') →
    ∃ yard ∈ s.webYards, yard.id = identity.yardId ∧
      ∃ subject ∈ s.yardSubjects, subject.id = identity.userId ∧
      ∃ roles : List String,
        (∀ role, role ∈ roles ↔ ∃ grant ∈ s.yardAccessGrants,
          Selects s yard identity.environmentId subject nowMs grant ∧ role ∈ grant.appRoles) ∧
        (identity.appRoles, identity.permissions) =
          effectiveApplicationAuthority (s.yardApplicationPolicies.find? yard.id) roles

/-- The clock is not behind the creation of a session that is accepted for a shared yard. -/
def ClockReached (s : Repository) (hostLabel tokenHash : String) (nowMs : ℕ) : Prop :=
  ∀ yard session, Accepts s hostLabel tokenHash nowMs yard session → Shared s yard →
    session.createdAtMs ≤ nowMs

theorem agrees_iff (hc : Coherent s) :
    Agrees s hostLabel tokenHash nowMs ↔ ClockReached s hostLabel tokenHash nowMs := by
  constructor
  -- before its creation a session cannot be marked as used, so nothing is resolved
  · intro h yard session haccepts hshared
    by_contra hlater
    obtain ⟨identity, s', hok, -⟩ := h.resolved yard session haccepts hshared
    rw [resolve_conflict hc hshared haccepts (by omega)] at hok
    cases hok
  -- with the clock reached, resolving and serving see the same session and the same subject
  · intro hclock
    refine ⟨fun identity s' hok => ?_, fun yard session haccepts hshared => ?_,
      fun identity s' hok => ?_⟩
    · obtain ⟨session, base, granted, hfrom, rfl, -⟩ := resolveYardIdentity_spec hok
      obtain ⟨yard, haccepts, -, subject, environment, hvisit, hbase⟩ := accepts_of_resolved hfrom
      exact ⟨yard, session, haccepts, hbase.yardId, hbase.sessionId, hbase.environmentId,
        hbase.userId.trans hvisit.subjectId⟩
    · exact resolve_of_accepts hc hshared haccepts (hclock yard session haccepts hshared)
    · obtain ⟨session, base, granted, hfrom, rfl, -⟩ := resolveYardIdentity_spec hok
      obtain ⟨yard, haccepts, -, subject, environment, hvisit, hbase⟩ := accepts_of_resolved hfrom
      refine ⟨yard, haccepts.2.1, hbase.yardId.symm, subject, hvisit.subjectRow, hbase.userId.symm,
        granted.2.roles, fun role => ?_, ?_⟩
      · have hroles := roles_of_visit hc haccepts.2.1 hvisit hbase hfrom.authority role
        rw [← hbase.environmentId] at hroles
        exact hroles
      · rw [← hbase.yardId]
        rfl

end Resolution

/-! ### Requests and runs -/

/-- The operations that write sessions. -/
inductive SessionRequest where
  | exchange (codeHash hostLabel : String) (session : NewYardSession)
    (audit : YardSessionAuditContext) (nowMs : ℕ)
  | revoke (yardId sessionId : String) (nowMs : ℕ) (event : NewAuditEvent)
  | revokeByToken (tokenHash hostLabel : String) (nowMs : ℕ)
  | revokeForUser (userId : String) (nowMs : ℕ)
  | serve (hostLabel path : String) (tokenHash : Option String) (nowMs : ℕ)
  | identify (hostLabel tokenHash : String) (nowMs : ℕ)
  | purge (nowMs : ℕ)

def SessionRequest.run (s : Repository) : SessionRequest → Except RepositoryError Repository
  | .exchange codeHash hostLabel session audit nowMs =>
    Prod.snd <$> s.exchangeYardSessionCode codeHash hostLabel session audit nowMs
  | .revoke yardId sessionId nowMs event =>
    Prod.snd <$> s.revokeYardSession yardId sessionId nowMs event
  | .revokeByToken tokenHash hostLabel nowMs =>
    Prod.snd <$> s.revokeYardSessionByToken tokenHash hostLabel nowMs
  | .revokeForUser userId nowMs => s.revokeForUser userId nowMs
  | .serve hostLabel path tokenHash nowMs =>
    Prod.snd <$> s.yardFileByHost hostLabel path tokenHash nowMs
  | .identify hostLabel tokenHash nowMs =>
    Prod.snd <$> s.resolveYardIdentity hostLabel tokenHash nowMs
  | .purge nowMs => s.purgeYardSessionHistory nowMs

/-- Continuations, sessions and the audit trail change at most. -/
def SessionsOnly (s s' : Repository) : Prop :=
  ∃ yardContinuations yardSessions auditEvents,
    s' = { s with yardContinuations, yardSessions, auditEvents }

theorem SessionsOnly.refl (s : Repository) : SessionsOnly s s := ⟨_, _, _, rfl⟩

theorem touchIdentity_only {sessionId : String} (h : s.touchIdentity sessionId nowMs = .ok s') :
    SessionsOnly s s' := by
  simp only [touchIdentity, bind_eq_ok, pure_eq_ok] at h
  obtain ⟨-, -, -, -, rfl⟩ := h
  exact ⟨_, _, _, rfl⟩

theorem SessionRequest.only {request : SessionRequest} (h : request.run s = .ok s') :
    SessionsOnly s s' := by
  cases request with
  | exchange codeHash hostLabel session audit nowMs =>
    obtain ⟨⟨_, _⟩, hrun, rfl⟩ := map_eq_ok.mp h
    -- a new session: the continuation is consumed, and the session and its event are inserted
    simp only [exchangeYardSessionCode, consumeContinuation, insertSession, bind_eq_ok, pure_eq_ok,
      insertRow_eq_ok, requireRow_eq_ok, Prod.mk.injEq] at hrun
    obtain ⟨-, -, -, -, -, -, -, -, -, ⟨-, -, row, -, rfl⟩, admission, -, -, -, s₁,
      ⟨-, -, -, -, -, -, sessions, -, rfl⟩, s₂, haudit, -, rfl⟩ := hrun
    obtain ⟨auditEvents, rfl⟩ := insertAudit_spec haudit
    exact ⟨_, _, _, rfl⟩
  | revoke yardId sessionId nowMs event =>
    obtain ⟨⟨_, _⟩, hrun, rfl⟩ := map_eq_ok.mp h
    simp only [revokeYardSession, bind_eq_ok] at hrun
    obtain ⟨-, -, -, -, session, -, -, -, hrun⟩ := hrun
    -- a session that is revoked already stays as it is
    split at hrun
    · simp only [pure_eq_ok, Prod.mk.injEq] at hrun
      exact hrun.2 ▸ SessionsOnly.refl s
    · simp only [revokeSessions, bind_eq_ok, pure_eq_ok, Prod.mk.injEq] at hrun
      obtain ⟨-, -, -, -, s₁, ⟨-, -, rfl⟩, s₂, haudit, -, rfl⟩ := hrun
      obtain ⟨auditEvents, rfl⟩ := insertAudit_spec haudit
      exact ⟨_, _, _, rfl⟩
  | revokeByToken tokenHash hostLabel nowMs =>
    obtain ⟨⟨_, _⟩, hrun, rfl⟩ := map_eq_ok.mp h
    simp only [revokeYardSessionByToken, revokeSessions, bind_eq_ok, pure_eq_ok,
      Prod.mk.injEq] at hrun
    obtain ⟨-, -, -, -, -, -, s₁, ⟨-, -, rfl⟩, -, rfl⟩ := hrun
    exact ⟨_, _, _, rfl⟩
  | revokeForUser userId nowMs =>
    simp only [SessionRequest.run, Repository.revokeForUser, revokeSessions, bind_eq_ok,
      pure_eq_ok] at h
    obtain ⟨-, -, rfl⟩ := h
    exact ⟨_, _, _, rfl⟩
  | serve hostLabel path tokenHash nowMs =>
    obtain ⟨⟨_, _⟩, hrun, rfl⟩ := map_eq_ok.mp h
    obtain ⟨_, _, -, -, ⟨-, rfl⟩ | ⟨_, _, -, -, _, rfl⟩⟩ := yardFileByHost_spec hrun
    · exact ⟨_, _, _, rfl⟩
    · exact ⟨_, _, _, rfl⟩
  | identify hostLabel tokenHash nowMs =>
    obtain ⟨⟨_, _⟩, hrun, rfl⟩ := map_eq_ok.mp h
    obtain ⟨_, _, _, -, -, htouch⟩ := resolveYardIdentity_spec hrun
    exact touchIdentity_only htouch
  | purge nowMs =>
    simp only [SessionRequest.run, purgeYardSessionHistory, bind_eq_ok, pure_eq_ok] at h
    obtain ⟨-, -, rfl⟩ := h
    exact ⟨_, _, _, rfl⟩

/-- Marking sessions leaves their hashes alone. -/
theorem tokens_of_marked (h : s.yardSessions.UniqueOn YardSessionRecord.tokenHash)
    {sessions : Table YardSessionRecord.id} {f : YardSessionRecord → YardSessionRecord}
    (hmapped : s.yardSessions.Mapped sessions f)
    (hsame : ∀ x ∈ s.yardSessions, issuedRow (f x) = issuedRow x) :
    sessions.UniqueOn YardSessionRecord.tokenHash :=
  h.mapped hmapped fun x hx =>
    (YardSessionRecord.mk.inj (hsame x hx)).2.1

/-- A new session has a fresh hash, and no other request changes one. -/
theorem SessionRequest.tokens {request : SessionRequest}
    (h : s.yardSessions.UniqueOn YardSessionRecord.tokenHash) (hrun : request.run s = .ok s') :
    -- a new session: its hash is looked for first
    s'.yardSessions.UniqueOn YardSessionRecord.tokenHash := by
  have hmarked : SessionsMarked s s' → s'.yardSessions.UniqueOn YardSessionRecord.tokenHash := by
    rintro ⟨-, f, hmapped, hsame⟩
    exact tokens_of_marked h hmapped hsame
  cases request with
  | exchange codeHash hostLabel session audit nowMs =>
    obtain ⟨⟨_, _⟩, hdone, rfl⟩ := map_eq_ok.mp hrun
    obtain ⟨row, -, -, -, -, hinserted⟩ := exchangeYardSessionCode_spec hdone
    refine h.insert hinserted ?_
    simp only [exchangeYardSessionCode, consumeContinuation, insertSession, bind_eq_ok, pure_eq_ok,
      ensure_eq_ok, insertRow_eq_ok, requireRow_eq_ok, Prod.mk.injEq] at hdone
    obtain ⟨-, -, -, -, -, -, -, -, -, ⟨-, -, row', -, rfl⟩, _, -, -, -, s₁,
      ⟨-, -, -, -, -, hfresh, -⟩, -⟩ := hdone
    exact hfresh
  | revoke yardId sessionId nowMs event =>
    obtain ⟨⟨_, _⟩, hdone, rfl⟩ := map_eq_ok.mp hrun
    exact hmarked (revokeYardSession_spec hdone)
  | revokeByToken tokenHash hostLabel nowMs =>
    obtain ⟨⟨_, _⟩, hdone, rfl⟩ := map_eq_ok.mp hrun
    exact hmarked (revokeYardSessionByToken_spec hdone)
  | revokeForUser userId nowMs => exact hmarked (revokeSessions_spec hrun)
  | serve hostLabel path tokenHash nowMs =>
    obtain ⟨⟨_, _⟩, hdone, rfl⟩ := map_eq_ok.mp hrun
    exact hmarked (yardFileByHost_marks hdone)
  | identify hostLabel tokenHash nowMs =>
    obtain ⟨⟨_, _⟩, hdone, rfl⟩ := map_eq_ok.mp hrun
    obtain ⟨_, _, _, -, -, htouch⟩ := resolveYardIdentity_spec hdone
    exact hmarked (touchIdentity_spec htouch)
  | purge nowMs =>
    obtain ⟨-, hsessions⟩ := purgeYardSessionHistory_spec hrun
    rw [hsessions]
    exact h.erase

/-- The operations that write what admission and identity read, or any other change of the
remaining tables. -/
inductive Request where
  | group (request : WorkspaceGroups.GroupRequest)
  | createUser (user : LocalUserRecord) (key : LocalUserLoginKeyRecord) (event : NewAuditEvent)
  | deactivateUser (userId : String) (nowMs : ℕ) (event : NewAuditEvent)
  | access (request : GrantRequest)
  | createInvite (invitation : NewYardGuestInvite) (grant : NewYardAccessGrant)
    (event : NewAuditEvent)
  | acceptInvite (tokenHash : String) (subject : YardSubjectRecord)
    (key : YardGuestLoginKeyRecord) (continuation : NewYardContinuation) (event : NewAuditEvent)
    (nowMs : ℕ)
  | revokeInvite (yardId invitationId : String) (nowMs : ℕ) (event : NewAuditEvent)
  | yard (request : YardRequest)
  | setRole (yardId userId : String) (role : YardManagementRole) (nowMs : ℕ)
    (event : NewAuditEvent)
  | revokeRole (yardId userId : String) (nowMs : ℕ) (event : NewAuditEvent)
  | session (request : SessionRequest)
  | environment (other : Repository)

section Requests

variable [Unicode] [JsonWriter]

def Request.run (s : Repository) : Request → Except RepositoryError Repository
  | .group request => request.run s
  | .createUser user key event => s.createLocalUser user key event
  | .deactivateUser userId nowMs event => s.deactivateLocalUser userId nowMs event
  | .access request => request.run s
  | .createInvite invitation grant event =>
    Prod.snd <$> s.createYardGuestInvite invitation grant event
  | .acceptInvite tokenHash subject key continuation event nowMs =>
    Prod.snd <$> s.acceptYardGuestInvite tokenHash subject key continuation event nowMs
  | .revokeInvite yardId invitationId nowMs event =>
    Prod.snd <$> s.revokeYardGuestInvite yardId invitationId nowMs event
  | .yard request => request.run s
  | .setRole yardId userId role nowMs event =>
    Prod.snd <$> s.setYardManagementRole yardId userId role nowMs event
  | .revokeRole yardId userId nowMs event => s.revokeYardManagementRole yardId userId nowMs event
  | .session request => request.run s
  | .environment other =>
    .ok { other with
      webYards := s.webYards, yardEnvironments := s.yardEnvironments
      yardAccessGrants := s.yardAccessGrants, yardManagementRoles := s.yardManagementRoles
      localUsers := s.localUsers, workspaceGroups := s.workspaceGroups
      workspaceGroupMembers := s.workspaceGroupMembers, yardSubjects := s.yardSubjects
      yardGuestInvitations := s.yardGuestInvitations, yardSessions := s.yardSessions }

/-- A request that fails leaves everything as it was. -/
def exec (s : Repository) (request : Request) : Repository :=
  match request.run s with
  | .ok s' => s'
  | .error _ => s

/-- Requests in any order, from an empty repository. -/
def system : System Repository Request where
  init := Repository.empty
  step s request s' := s' = exec s request

end Requests

/-! ### What requests do to the parts of the invariant -/

theorem RolesSound.congr (h : RolesSound s) (hs : s'.yardManagementRoles = s.yardManagementRoles) :
    RolesSound s' where
  bounded yardId := by
    rw [rolesOf, hs]
    exact h.bounded yardId
  owned := by
    rw [hs]
    exact h.owned
  valid := by
    rw [hs]
    exact h.valid

/-- A new assignment below the limit, which is an owner when it is the first. -/
theorem RolesSound.insert {a : YardManagementRoleAssignment}
    {roles : Table fun a : YardManagementRoleAssignment => (a.yardId, a.userId)}
    (h : RolesSound s) (hroles : s.yardManagementRoles.Inserted roles a)
    (hs : s'.yardManagementRoles = roles) (hvalid : ValidAssignment a)
    (hlimit : (s.rolesOf a.yardId).length < maximumYardManagementRoles)
    (hfirst : (s.rolesOf a.yardId).length = 0 → a.role = .owner) : RolesSound s' := by
  have hlength : ∀ yardId, (s'.rolesOf yardId).length =
      (s.rolesOf yardId).length + if a.yardId = yardId then 1 else 0 := by
    intro yardId
    rw [ManagementRoles.length_rolesOf, ManagementRoles.length_rolesOf, hs]
    exact hroles.sum fun b => if b.yardId = yardId then 1 else 0
  refine ⟨fun yardId => ?_, ?_, ?_⟩
  -- the first assignments are below the limit, and one more is within it
  · rw [hlength]
    have hbound := h.bounded yardId
    by_cases hyard : a.yardId = yardId
    · rw [if_pos hyard]
      rw [hyard] at hlimit
      omega
    · rw [if_neg hyard]
      omega
  -- a yard with assignments has an owner: it keeps one, or this first one is it
  · rw [hs]
    have hold : ∀ c ∈ s.yardManagementRoles, ∃ o ∈ roles, o.yardId = c.yardId ∧ o.role = .owner := by
      intro c hc
      obtain ⟨o, ho, hyard, howner⟩ := h.owned c hc
      exact ⟨o, hroles.mem_of_mem ho, hyard, howner⟩
    intro b hb
    rcases (hroles.mem b).mp hb with hbs | rfl
    · exact hold b hbs
    · rcases Nat.eq_zero_or_pos (s.rolesOf b.yardId).length with hzero | hpos
      · exact ⟨b, hb, rfl, hfirst hzero⟩
      · obtain ⟨c, hc⟩ := List.exists_mem_of_length_pos hpos
        obtain ⟨hmem, hyard⟩ := mem_rolesOf.mp hc
        exact hyard ▸ hold c hmem
  · rw [hs]
    intro b hb
    rcases (hroles.mem b).mp hb with hb | rfl
    · exact h.valid b hb
    · exact hvalid

/-- An assignment whose role changes, where another owner is left when it was one. -/
theorem RolesSound.replace {previous a : YardManagementRoleAssignment}
    {roles : Table fun a : YardManagementRoleAssignment => (a.yardId, a.userId)}
    (h : RolesSound s) (hroles : s.yardManagementRoles.Replaced roles previous a)
    (hs : s'.yardManagementRoles = roles) (hvalid : ValidAssignment a)
    (hkeeps : previous.role = .owner → a.role ≠ .owner →
      ∃ b ∈ s.yardManagementRoles, b.yardId = a.yardId ∧ b.role = .owner ∧ b.userId ≠ a.userId) :
    RolesSound s' := by
  obtain ⟨hyardId, huserId⟩ := Prod.ext_iff.mp hroles.key_eq
  simp only at hyardId huserId
  refine ⟨fun yardId => ?_, ?_, ?_⟩
  · have hsum := hroles.sum fun b => if b.yardId = yardId then 1 else 0
    have hbound := h.bounded yardId
    rw [ManagementRoles.length_rolesOf] at hbound ⊢
    rw [hyardId] at hsum
    rw [hs]
    omega
  -- the owner of the yard stays, unless the assignment that changes was the owner
  · rw [hs]
    intro b hb
    obtain ⟨c, hc, hcb⟩ : ∃ c ∈ s.yardManagementRoles, c.yardId = b.yardId := by
      rcases (hroles.mem b).mp hb with ⟨hb, -⟩ | rfl
      · exact ⟨b, hb, rfl⟩
      · exact ⟨previous, hroles.mem_old, hyardId.symm⟩
    obtain ⟨o, ho, hoc, howner⟩ := h.owned c hc
    by_cases hprevious : o = previous
    -- the owner is the assignment that changes
    · subst hprevious
      have hsame : a.yardId = b.yardId := hyardId.trans (hoc.trans hcb)
      by_cases hrole : a.role = .owner
      · exact ⟨a, hroles.mem_new, hsame, hrole⟩
      · obtain ⟨o', ho', hyard', howner', hne⟩ := hkeeps howner hrole
        refine ⟨o', (hroles.mem o').mpr (Or.inl ⟨ho', ?_⟩), hyard'.trans hsame, howner'⟩
        rintro rfl
        exact hne huserId.symm
    · exact ⟨o, (hroles.mem o).mpr (Or.inl ⟨ho, hprevious⟩), hoc.trans hcb, howner⟩
  · rw [hs]
    intro b hb
    rcases (hroles.mem b).mp hb with ⟨hb, -⟩ | rfl
    · exact h.valid b hb
    · exact hvalid

/-- An assignment that goes, where another owner is left when it was one. -/
theorem RolesSound.erase {previous : YardManagementRoleAssignment} {yardId userId : String}
    (h : RolesSound s) (hmem : previous ∈ s.yardManagementRoles) (hyard : previous.yardId = yardId)
    (huser : previous.userId = userId)
    (hs : s'.yardManagementRoles = s.yardManagementRoles.erase fun a =>
      a.yardId = yardId ∧ a.userId = userId)
    (hkeeps : previous.role = .owner →
      ∃ b ∈ s.yardManagementRoles, b.yardId = yardId ∧ b.role = .owner ∧ b.userId ≠ userId) :
    RolesSound s' := by
  refine ⟨fun yardId' => ?_, ?_, ?_⟩
  · refine le_trans (List.Sublist.length_le ?_) (h.bounded yardId')
    rw [rolesOf, hs]
    exact List.filter_sublist.filter _
  -- the owner of the yard stays, unless it is the one that goes
  · rw [hs]
    intro b hb
    obtain ⟨o, ho, hob, howner⟩ := h.owned b (Table.mem_erase.mp hb).1
    by_cases hgone : o.yardId = yardId ∧ o.userId = userId
    · have hprevious : o = previous :=
        Table.eq_of_key ho hmem (Prod.ext (hgone.1.trans hyard.symm) (hgone.2.trans huser.symm))
      obtain ⟨o', ho', hyard', howner', hne⟩ := hkeeps (hprevious ▸ howner)
      exact ⟨o', Table.mem_erase.mpr ⟨ho', fun hg => hne hg.2⟩,
        hyard'.trans (hgone.1.symm.trans hob), howner'⟩
    · exact ⟨o, Table.mem_erase.mpr ⟨ho, hgone⟩, hob, howner⟩
  · rw [hs]
    intro b hb
    exact h.valid b (Table.mem_erase.mp hb).1

/-- Yards, users and groups are still there in their workspaces. -/
structure DirectoryKept (s s' : Repository) : Prop where
  yards : YardsKept s.webYards s'.webYards
  users : ∀ u ∈ s.localUsers, ∃ u' ∈ s'.localUsers, u'.id = u.id ∧ u'.workspaceId = u.workspaceId
  groups : ∀ g ∈ s.workspaceGroups,
    ∃ g' ∈ s'.workspaceGroups, g'.id = g.id ∧ g'.workspaceId = g.workspaceId

theorem DirectoryKept.of_eq (hyards : s'.webYards = s.webYards) (husers : s'.localUsers = s.localUsers)
    (hgroups : s'.workspaceGroups = s.workspaceGroups) : DirectoryKept s s' where
  yards := YardsKept.of_eq hyards
  users u hu := ⟨u, husers ▸ hu, rfl, rfl⟩
  groups g hg := ⟨g, hgroups ▸ hg, rfl, rfl⟩

/-- The grants have the same yard and principal. -/
def SameGrantee (g g' : YardAccessGrantRecord) : Prop :=
  g'.yardId = g.yardId ∧ g'.principalKind = g.principalKind ∧ g'.principalId = g.principalId

theorem PlacedGrant.kept {g g' : YardAccessGrantRecord} (h : PlacedGrant s g)
    (hkept : DirectoryKept s s') (hsame : SameGrantee g g') : PlacedGrant s' g' := by
  obtain ⟨hyard, hkind, hprincipal⟩ := hsame
  refine ⟨fun huser => ?_, fun hgroup => ?_⟩
  · obtain ⟨y, hy, hyid, u, hu, huid, hworkspace⟩ := h.user (hkind ▸ huser)
    obtain ⟨y', hy', hyid', hyworkspace, -⟩ := hkept.yards y hy
    obtain ⟨u', hu', huid', huworkspace⟩ := hkept.users u hu
    exact ⟨y', hy', hyid'.trans (hyid.trans hyard.symm), u', hu',
      huid'.trans (huid.trans hprincipal.symm), huworkspace.trans (hworkspace.trans hyworkspace.symm)⟩
  · obtain ⟨y, hy, hyid, p, hp, hpid, hworkspace⟩ := h.group (hkind ▸ hgroup)
    obtain ⟨y', hy', hyid', hyworkspace, -⟩ := hkept.yards y hy
    obtain ⟨p', hp', hpid', hpworkspace⟩ := hkept.groups p hp
    exact ⟨y', hy', hyid'.trans (hyid.trans hyard.symm), p', hp',
      hpid'.trans (hpid.trans hprincipal.symm), hpworkspace.trans (hworkspace.trans hyworkspace.symm)⟩

/-- The grants after a request are old ones or placed themselves. -/
theorem placed_kept (h : ∀ grant ∈ s.yardAccessGrants, PlacedGrant s grant)
    (hkept : DirectoryKept s s')
    (hgrants : ∀ g' ∈ s'.yardAccessGrants, (∃ g ∈ s.yardAccessGrants, SameGrantee g g') ∨
      PlacedGrant s g') : ∀ grant ∈ s'.yardAccessGrants, PlacedGrant s' grant := by
  intro g' hg'
  rcases hgrants g' hg' with ⟨g, hg, hsame⟩ | hplaced
  · exact (h g hg).kept hkept hsame
  · exact hplaced.kept hkept ⟨rfl, rfl, rfl⟩

theorem IdsValid.congr (h : IdsValid s) (hyards : s'.webYards = s.webYards)
    (henvironments : s'.yardEnvironments = s.yardEnvironments)
    (hsubjects : s'.yardSubjects = s.yardSubjects)
    (hinvitations : s'.yardGuestInvitations = s.yardGuestInvitations) : IdsValid s' where
  yards := hyards ▸ h.yards
  environments := henvironments ▸ h.environments
  subjects := hsubjects ▸ h.subjects
  invitations := hinvitations ▸ h.invitations

/-! ### Every request keeps the invariant -/

/-- A replaced row is still there with what the replacement leaves alone. -/
theorem kept_of_replaced {ρ κ γ : Type} {key : ρ → κ} {t t' : Table key} {r r' : ρ} (f : ρ → γ)
    (h : t.Replaced t' r r') (hf : f r' = f r) :
    ∀ x ∈ t, ∃ x' ∈ t', key x' = key x ∧ f x' = f x := by
  intro x hx
  by_cases hxr : x = r
  · subst hxr
    exact ⟨r', h.mem_new, h.key_eq, hf⟩
  · exact ⟨x, (h.mem x).mpr (Or.inl ⟨hx, hxr⟩), rfl, rfl⟩

theorem kept_of_inserted {ρ κ γ : Type} {key : ρ → κ} {t t' : Table key} {r : ρ} (f : ρ → γ)
    (h : t.Inserted t' r) : ∀ x ∈ t, ∃ x' ∈ t', key x' = key x ∧ f x' = f x :=
  fun x hx => ⟨x, h.mem_of_mem hx, rfl, rfl⟩

theorem kept_of_mapped {ρ κ γ : Type} {key : ρ → κ} {t t' : Table key} {g : ρ → ρ} (f : ρ → γ)
    (h : t.Mapped t' g) (hf : ∀ x ∈ t, f (g x) = f x) :
    ∀ x ∈ t, ∃ x' ∈ t', key x' = key x ∧ f x' = f x :=
  fun x hx => ⟨g x, h.mem_of_mem hx, h.key_eq x hx, hf x hx⟩

theorem same_of_replaced {grants : Table YardAccessGrantRecord.id} {g g' : YardAccessGrantRecord}
    (h : s.yardAccessGrants.Replaced grants g g') (hsame : SameGrantee g g') :
    ∀ x ∈ grants, ∃ x₀ ∈ s.yardAccessGrants, SameGrantee x₀ x := by
  intro x hx
  rcases (h.mem x).mp hx with ⟨hx, -⟩ | rfl
  · exact ⟨x, hx, rfl, rfl, rfl⟩
  · exact ⟨g, h.mem_old, hsame⟩

theorem same_of_mapped {grants : Table YardAccessGrantRecord.id}
    {f : YardAccessGrantRecord → YardAccessGrantRecord} (h : s.yardAccessGrants.Mapped grants f)
    (hsame : ∀ g ∈ s.yardAccessGrants, SameGrantee g (f g)) :
    ∀ x ∈ grants, ∃ x₀ ∈ s.yardAccessGrants, SameGrantee x₀ x := by
  intro x hx
  obtain ⟨g, hg, rfl⟩ := h.mem_iff.mp hx
  exact ⟨g, hg, hsame g hg⟩

theorem coherent_init : Coherent Repository.empty where
  tokens _ hx := absurd hx Table.not_mem_empty
  roles := ⟨fun _ => Nat.zero_le _, fun _ h => absurd h Table.not_mem_empty,
    fun _ h => absurd h Table.not_mem_empty⟩
  grouped := WorkspaceGroups.grouped_init
  placed _ h := absurd h Table.not_mem_empty
  ids := ⟨fun _ h => absurd h Table.not_mem_empty, fun _ h => absurd h Table.not_mem_empty,
    fun _ h => absurd h Table.not_mem_empty, fun _ h => absurd h Table.not_mem_empty⟩

section Preservation

variable [Unicode] [JsonWriter]

theorem grouped_of_run (request : WorkspaceGroups.Request) (h : WorkspaceGroups.Grouped s)
    (hrun : request.run s = .ok s') : WorkspaceGroups.Grouped s' := by
  have hgrouped : WorkspaceGroups.Grouped (WorkspaceGroups.exec s request) :=
    WorkspaceGroups.grouped_exec h
  rwa [WorkspaceGroups.exec, hrun] at hgrouped

omit [JsonWriter] in
/-- Changes of groups and members, and the grants that go with a group. -/
theorem coherent_group {request : WorkspaceGroups.GroupRequest} (h : Coherent s)
    (hrun : request.run s = .ok s') : Coherent s' := by
  have hgrouped := WorkspaceGroups.grouped_group h.grouped hrun
  cases request with
  | create group event =>
    obtain ⟨groups, audits, rfl, hgroups, -⟩ := createWorkspaceGroup_spec hrun
    exact ⟨h.tokens, h.roles.congr rfl, hgrouped, placed_kept h.placed
      ⟨.of_eq rfl, fun u hu => ⟨u, hu, rfl, rfl⟩, kept_of_inserted _ hgroups⟩
      fun g hg => Or.inl ⟨g, hg, rfl, rfl, rfl⟩, h.ids.congr rfl rfl rfl rfl⟩
  | rename workspaceId groupId name event =>
    simp only [WorkspaceGroups.GroupRequest.run, map_eq_ok] at hrun
    obtain ⟨⟨_, _⟩, hrun, rfl⟩ := hrun
    obtain ⟨group, groups, audits, rfl, -, hgroups, -⟩ := renameWorkspaceGroup_spec hrun
    exact ⟨h.tokens, h.roles.congr rfl, hgrouped, placed_kept h.placed
      ⟨.of_eq rfl, fun u hu => ⟨u, hu, rfl, rfl⟩, kept_of_replaced _ hgroups rfl⟩
      fun g hg => Or.inl ⟨g, hg, rfl, rfl, rfl⟩, h.ids.congr rfl rfl rfl rfl⟩
  | deactivate workspaceId groupId nowMs event =>
    obtain ⟨group, groups, audits, rfl, -, -, -, hgroups, -⟩ := deactivateWorkspaceGroup_spec hrun
    refine ⟨h.tokens, h.roles.congr rfl, hgrouped, placed_kept h.placed
      ⟨.of_eq rfl, fun u hu => ⟨u, hu, rfl, rfl⟩, kept_of_replaced _ hgroups rfl⟩
      -- a deactivated group keeps its workspace, and its grants what they are for
      fun g hg => Or.inl (same_of_mapped Table.mapped_update (fun g _ => ?_) g hg),
      h.ids.congr rfl rfl rfl rfl⟩
    split <;> exact ⟨rfl, rfl, rfl⟩
  | addMember member event =>
    obtain ⟨group, groups, members, audits, rfl, -, -, -, -, hgroups, -⟩ :=
      addWorkspaceGroupMember_spec hrun
    exact ⟨h.tokens, h.roles.congr rfl, hgrouped, placed_kept h.placed
      ⟨.of_eq rfl, fun u hu => ⟨u, hu, rfl, rfl⟩, kept_of_replaced _ hgroups rfl⟩
      fun g hg => Or.inl ⟨g, hg, rfl, rfl, rfl⟩, h.ids.congr rfl rfl rfl rfl⟩
  | removeMember workspaceId groupId userId event =>
    obtain ⟨group, groups, audits, rfl, -, -, hgroups, -⟩ := removeWorkspaceGroupMember_spec hrun
    exact ⟨h.tokens, h.roles.congr rfl, hgrouped, placed_kept h.placed
      ⟨.of_eq rfl, fun u hu => ⟨u, hu, rfl, rfl⟩, kept_of_replaced _ hgroups rfl⟩
      fun g hg => Or.inl ⟨g, hg, rfl, rfl, rfl⟩, h.ids.congr rfl rfl rfl rfl⟩

/-- Grants are inserted for principals of the yard's workspace and keep them. -/
theorem coherent_access {request : GrantRequest} (h : Coherent s)
    (hrun : request.run s = .ok s') : Coherent s' := by
  cases request with
  | insert grant event =>
    have hgrouped := grouped_of_run (.insertGrant grant event) h.grouped hrun
    obtain ⟨⟨record, _⟩, hdone, rfl⟩ := map_eq_ok.mp hrun
    obtain ⟨yard, grants, _, rfl, hyard, hid, -, -, hprincipal, hgrants⟩ :=
      insertYardAccessGrant_spec hdone
    refine ⟨h.tokens, h.roles.congr rfl, hgrouped, placed_kept h.placed (.of_eq rfl rfl rfl)
      fun g hg => ?_, h.ids.congr rfl rfl rfl rfl⟩
    -- a new grant is for a user or a group of the workspace; the others are as before
    rcases (hgrants.mem g).mp hg with hg | rfl
    · exact Or.inl ⟨g, hg, rfl, rfl, rfl⟩
    · refine Or.inr ⟨fun hkind => ?_, fun hkind => ?_⟩
      · obtain ⟨u, hu, huid, hworkspace, -⟩ := hprincipal.user hkind
        exact ⟨yard, hyard, hid, u, hu, huid, hworkspace⟩
      · obtain ⟨⟨p, hp, hpid, hworkspace, -⟩, -⟩ := hprincipal.group hkind
        exact ⟨yard, hyard, hid, p, hp, hpid, hworkspace⟩
  | revoke yardId grantId revokedAtMs event =>
    have hgrouped := grouped_of_run (.revokeGrant yardId grantId revokedAtMs event) h.grouped hrun
    obtain ⟨⟨_, _⟩, hdone, rfl⟩ := map_eq_ok.mp hrun
    rcases revokeYardAccessGrant_spec hdone with rfl | ⟨grant, grants, _, rfl, -, -, -, hgrants⟩
    · exact h
    · exact ⟨h.tokens, h.roles.congr rfl, hgrouped, placed_kept h.placed (.of_eq rfl rfl rfl)
        fun g hg => Or.inl (same_of_replaced hgrants ⟨rfl, rfl, rfl⟩ g hg),
        h.ids.congr rfl rfl rfl rfl⟩
  | setRoles yardId grantId appRoles nowMs event =>
    have hgrouped := grouped_of_run (.setRoles yardId grantId appRoles nowMs event) h.grouped hrun
    obtain ⟨⟨_, _⟩, hdone, rfl⟩ := map_eq_ok.mp hrun
    obtain ⟨grant, roles, grants, _, rfl, -, rfl, -, hgrants⟩ := setYardAccessRoles_spec hdone
    exact ⟨h.tokens, h.roles.congr rfl, hgrouped, placed_kept h.placed (.of_eq rfl rfl rfl)
      fun g hg => Or.inl (same_of_replaced hgrants ⟨rfl, rfl, rfl⟩ g hg),
      h.ids.congr rfl rfl rfl rfl⟩

/-- A new user and its subject. -/
theorem coherent_createUser {user : LocalUserRecord} {key : LocalUserLoginKeyRecord}
    {event : NewAuditEvent} (h : Coherent s) (hrun : s.createLocalUser user key event = .ok s') :
    Coherent s' := by
  have htext : ValidText user.workspaceId := by
    simp only [createLocalUser, validateNewUser, bind_eq_ok, validateText_eq_ok] at hrun
    exact hrun.choose_spec.1.choose_spec.2.choose_spec.1
  have hgrouped := grouped_of_run (.createUser user key event) h.grouped hrun
  obtain ⟨_, _, _, _, rfl, -, husers, hsubjects, -⟩ := createLocalUser_spec hrun
  refine ⟨h.tokens, h.roles.congr rfl, hgrouped, placed_kept h.placed
    ⟨.of_eq rfl, kept_of_inserted _ husers, fun g hg => ⟨g, hg, rfl, rfl⟩⟩
    fun g hg => Or.inl ⟨g, hg, rfl, rfl, rfl⟩,
    ⟨h.ids.yards, h.ids.environments, fun x hx => ?_, h.ids.invitations⟩⟩
  rcases (hsubjects.mem x).mp hx with hx | rfl
  · exact h.ids.subjects x hx
  · exact htext

/-- Deactivating a user takes its memberships and revokes its sessions. -/
theorem coherent_deactivateUser {userId : String} {event : NewAuditEvent} (h : Coherent s)
    (hrun : s.deactivateLocalUser userId nowMs event = .ok s') : Coherent s' := by
  have hgrouped := grouped_of_run (.deactivateUser userId nowMs event) h.grouped hrun
  obtain ⟨user, _, _, _, _, _, rfl, -, -, husers, -, -, ⟨f, hsessions, hsame⟩, hsubjects⟩ :=
    deactivateLocalUser_spec hrun
  refine ⟨tokens_of_marked h.tokens hsessions hsame, h.roles.congr rfl, hgrouped,
    placed_kept h.placed ⟨.of_eq rfl, kept_of_replaced _ husers rfl,
      kept_of_mapped _ Table.mapped_update fun g _ => ?_⟩ fun g hg => Or.inl ⟨g, hg, rfl, rfl, rfl⟩,
    ⟨h.ids.yards, h.ids.environments, fun x hx => ?_, h.ids.invitations⟩⟩
  · split <;> rfl
  · obtain ⟨y, hy, rfl⟩ := hsubjects.mem_iff.mp hx
    have hold := h.ids.subjects y hy
    split <;> exact hold

/-- An invitation comes with a grant of its own kind. -/
theorem coherent_createInvite {invitation : NewYardGuestInvite} {grant : NewYardAccessGrant}
    {event : NewAuditEvent} {record : YardGuestInviteRecord} (h : Coherent s)
    (hrun : s.createYardGuestInvite invitation grant event = .ok (record, s')) : Coherent s' := by
  have hgrouped := grouped_of_run (.createInvite invitation grant event) h.grouped
    (map_eq_ok.mpr ⟨_, hrun, rfl⟩)
  obtain ⟨_, roles, grants, _, _, rfl, -, -, -, -, -, hvalid, -, hgrants, hinvitations, -⟩ :=
    createYardGuestInvite_spec hrun
  refine ⟨h.tokens, h.roles.congr rfl, hgrouped, placed_kept h.placed (.of_eq rfl rfl rfl)
    fun g hg => ?_, ⟨h.ids.yards, h.ids.environments, h.ids.subjects, fun i hi => ?_⟩⟩
  · rcases (hgrants.mem g).mp hg with hg | rfl
    · exact Or.inl ⟨g, hg, rfl, rfl, rfl⟩
    · have hkind : (grantRow grant roles).principalKind = .guestInvite := hvalid.scope.kind
      refine Or.inr ⟨fun huser => ?_, fun hgroup => ?_⟩
      · rw [hkind] at huser
        cases huser
      · rw [hkind] at hgroup
        cases hgroup
  · rcases (hinvitations.mem i).mp hi with hi | rfl
    · exact h.ids.invitations i hi
    · exact hvalid.texts _ (by simp [invitationTexts])

omit [JsonWriter] in
/-- Accepting an invitation adds the subject of its guest. -/
theorem coherent_acceptInvite {subject : YardSubjectRecord} {key : YardGuestLoginKeyRecord}
    {continuation : NewYardContinuation} {event : NewAuditEvent} {acceptance : YardGuestAcceptance}
    (h : Coherent s)
    (hrun : s.acceptYardGuestInvite tokenHash subject key continuation event nowMs =
      .ok (acceptance, s')) : Coherent s' := by
  obtain ⟨row, _, _, _, _, _, rfl, -, -, hinvitations, -, -, -, hvalid, hsubjects, -⟩ :=
    acceptYardGuestInvite_spec hrun
  refine ⟨h.tokens, h.roles.congr rfl,
    WorkspaceGroups.grouped_grants h.grouped (fun _ => le_rfl) ⟨rfl, rfl, rfl, rfl⟩,
    placed_kept h.placed (.of_eq rfl rfl rfl) fun g hg => Or.inl ⟨g, hg, rfl, rfl, rfl⟩,
    ⟨h.ids.yards, h.ids.environments, fun x hx => ?_, fun i hi => ?_⟩⟩
  · rcases (hsubjects.mem x).mp hx with hx | rfl
    · exact h.ids.subjects x hx
    · exact hvalid.2.1
  · rcases (hinvitations.mem i).mp hi with ⟨hi, -⟩ | rfl
    · exact h.ids.invitations i hi
    · exact h.ids.invitations row hinvitations.mem_old

/-- Revoking an invitation revokes its grant. -/
theorem coherent_revokeInvite {yardId invitationId : String} {event : NewAuditEvent}
    {record : YardGuestInviteRecord} (h : Coherent s)
    (hrun : s.revokeYardGuestInvite yardId invitationId nowMs event = .ok (record, s')) :
    Coherent s' := by
  have hgrouped := grouped_of_run (.revokeInvite yardId invitationId nowMs event) h.grouped
    (map_eq_ok.mpr ⟨_, hrun, rfl⟩)
  obtain ⟨row, grant, _, grants, _, _, rfl, -, -, -, -, hinvitations, -, -, hgrants, -⟩ :=
    revokeYardGuestInvite_spec hrun
  refine ⟨h.tokens, h.roles.congr rfl, hgrouped, placed_kept h.placed (.of_eq rfl rfl rfl)
    fun g hg => Or.inl (same_of_replaced hgrants ⟨rfl, rfl, rfl⟩ g hg),
    ⟨h.ids.yards, h.ids.environments, h.ids.subjects, fun i hi => ?_⟩⟩
  rcases (hinvitations.mem i).mp hi with ⟨hi, -⟩ | rfl
  · exact h.ids.invitations i hi
  · exact h.ids.invitations row hinvitations.mem_old

omit [Unicode] [JsonWriter] in
/-- A role that is set decodes again. -/
theorem coherent_setRole {yardId userId : String} {role : YardManagementRole}
    {event : NewAuditEvent} {assignment : YardManagementRoleAssignment} (h : Coherent s)
    (hrun : s.setYardManagementRole yardId userId role nowMs event = .ok (assignment, s')) :
    Coherent s' := by
  have hvalid := setYardManagementRole_valid hrun
  obtain ⟨yard, roles, _, rfl, -, -, -, -, hyard, huser, hrole, hroles⟩ :=
    setYardManagementRole_spec hrun
  have hsound : RolesSound { s with yardManagementRoles := roles } := by
    rcases hroles with ⟨hinserted, -, hlimit, hfirst⟩ | ⟨previous, hreplaced, -, hkeeps⟩
    · exact h.roles.insert hinserted rfl hvalid (hyard ▸ hlimit)
        fun hzero => hrole.trans (hfirst (hyard ▸ hzero))
    · refine h.roles.replace hreplaced rfl hvalid fun howner hnot => ?_
      rw [hyard, huser]
      exact hkeeps howner (hrole ▸ hnot)
  exact ⟨h.tokens, hsound.congr rfl,
    WorkspaceGroups.grouped_grants h.grouped (fun _ => le_rfl) ⟨rfl, rfl, rfl, rfl⟩,
    placed_kept h.placed (.of_eq rfl rfl rfl) fun g hg => Or.inl ⟨g, hg, rfl, rfl, rfl⟩,
    h.ids.congr rfl rfl rfl rfl⟩

omit [Unicode] [JsonWriter] in
theorem coherent_revokeRole {yardId userId : String} {event : NewAuditEvent} (h : Coherent s)
    (hrun : s.revokeYardManagementRole yardId userId nowMs event = .ok s') : Coherent s' := by
  obtain ⟨previous, _, rfl, hmem, hyard, huser, hkeeps, -⟩ := revokeYardManagementRole_spec hrun
  exact ⟨h.tokens, h.roles.erase hmem hyard huser rfl hkeeps,
    WorkspaceGroups.grouped_grants h.grouped (fun _ => le_rfl) ⟨rfl, rfl, rfl, rfl⟩,
    placed_kept h.placed (.of_eq rfl rfl rfl) fun g hg => Or.inl ⟨g, hg, rfl, rfl, rfl⟩,
    h.ids.congr rfl rfl rfl rfl⟩

omit [Unicode] [JsonWriter] in
/-- Yards stay in their workspaces, and new ones have identifiers that are texts. -/
theorem coherent_yard {request : YardRequest} (h : Coherent s) (hrun : request.run s = .ok s') :
    Coherent s' := by
  have hyards := request.yardsKept hrun
  have htexts := request.yardTexts hrun h.ids.yards
  obtain ⟨_, _, _, _, _, _, _, rfl, henvironments⟩ := request.hosting hrun
  refine ⟨h.tokens, h.roles.congr rfl,
    WorkspaceGroups.grouped_grants h.grouped (fun _ => le_rfl) ⟨rfl, rfl, rfl, rfl⟩,
    placed_kept h.placed ⟨hyards, fun u hu => ⟨u, hu, rfl, rfl⟩, fun g hg => ⟨g, hg, rfl, rfl⟩⟩
      fun g hg => Or.inl ⟨g, hg, rfl, rfl, rfl⟩,
    ⟨htexts, fun e he => ?_, h.ids.subjects, h.ids.invitations⟩⟩
  rcases henvironments e he with he | hid
  · exact h.ids.environments e he
  · exact hid

omit [Unicode] [JsonWriter] in
theorem coherent_session {request : SessionRequest} (h : Coherent s)
    (hrun : request.run s = .ok s') : Coherent s' := by
  have htokens := request.tokens h.tokens hrun
  obtain ⟨_, _, _, rfl⟩ := request.only hrun
  exact ⟨htokens, h.roles.congr rfl,
    WorkspaceGroups.grouped_grants h.grouped (fun _ => le_rfl) ⟨rfl, rfl, rfl, rfl⟩,
    placed_kept h.placed (.of_eq rfl rfl rfl) fun g hg => Or.inl ⟨g, hg, rfl, rfl, rfl⟩,
    h.ids.congr rfl rfl rfl rfl⟩

/-- Every request keeps the invariant. -/
theorem coherent_exec {request : Request} (h : Coherent s) : Coherent (exec s request) := by
  unfold exec
  cases hrun : request.run s with
  | error e => exact h
  | ok s' =>
    -- every kind of request has its lemma above
    cases request with
    | group request => exact coherent_group h hrun
    | createUser user key event => exact coherent_createUser h hrun
    | deactivateUser userId nowMs event => exact coherent_deactivateUser h hrun
    | access request => exact coherent_access h hrun
    | createInvite invitation grant event =>
      obtain ⟨⟨_, _⟩, hdone, rfl⟩ := map_eq_ok.mp hrun
      exact coherent_createInvite h hdone
    | acceptInvite tokenHash subject key continuation event nowMs =>
      obtain ⟨⟨_, _⟩, hdone, rfl⟩ := map_eq_ok.mp hrun
      exact coherent_acceptInvite h hdone
    | revokeInvite yardId invitationId nowMs event =>
      obtain ⟨⟨_, _⟩, hdone, rfl⟩ := map_eq_ok.mp hrun
      exact coherent_revokeInvite h hdone
    | yard request => exact coherent_yard h hrun
    | setRole yardId userId role nowMs event =>
      obtain ⟨⟨_, _⟩, hdone, rfl⟩ := map_eq_ok.mp hrun
      exact coherent_setRole h hdone
    | revokeRole yardId userId nowMs event => exact coherent_revokeRole h hrun
    | session request => exact coherent_session h hrun
    | environment other =>
      obtain rfl := Except.ok.inj hrun
      exact ⟨h.tokens, h.roles.congr rfl,
        WorkspaceGroups.grouped_grants h.grouped (fun _ => le_rfl) ⟨rfl, rfl, rfl, rfl⟩,
        placed_kept h.placed (.of_eq rfl rfl rfl) fun g hg => Or.inl ⟨g, hg, rfl, rfl, rfl⟩,
        h.ids.congr rfl rfl rfl rfl⟩

/-! ### The law over runs -/

theorem coherent_run (h : Run system (fun _ _ => True) s) : Coherent s :=
  h.inv coherent_init fun _ _ _ hi _ hstep => hstep ▸ coherent_exec hi

/-- In every reachable state identity and admission agree on the session of a hash exactly when
the clock is not behind a session that is accepted for a shared yard. -/
theorem agreement_law (h : Run system (fun _ _ => True) s) (hostLabel tokenHash : String)
    (nowMs : ℕ) :
    Agrees s hostLabel tokenHash nowMs ↔ ClockReached s hostLabel tokenHash nowMs :=
  agrees_iff (coherent_run h)

end Preservation

/-! ### A clock that is set back -/

attribute [local instance] asciiUnicode compactWriter

/-- The yard of the press for its colleagues, one of them, and a code issued to her. -/
def colleaguesPress : Repository :=
  match startPress.run pressProject with
  | .ok s =>
    let policy : YardAccessPolicyRecord :=
      { yardId := "y", visibility := .workspace, updatedAtMs := 20, updatedByPrincipal := "owner" }
    let code : YardContinuationRecord :=
      { continuation :=
          { id := "c", continuationHash := repeatedDigit '1', codeHash := repeatedDigit '2',
            yardId := "y", environmentId := "yardenv_y", hostLabel := "front-press", userId := "ua",
            returnPath := "/", createdAtMs := 30, expiresAtMs := 30 + yardExchangeCodeLifetimeMs }
        consumedAtMs := none }
    { s with
      yardAccessPolicies := ⟨[policy], List.nodup_singleton _⟩
      yardContinuations := ⟨[code], List.nodup_singleton _⟩ }
  | .error _ => pressProject

/-- The colleague redeems the code at time 40, and uses the session at once. -/
def redeem : List Request :=
  [.environment pressProject, .yard startPress,
    .createUser
      { id := "ua", workspaceId := "w", displayName := "Ada", email := none, status := .active,
        createdAtMs := 5, deactivatedAtMs := none }
      { id := "ka", userId := "ua", tokenPrefix := "key", secretHash := repeatedDigit 'a',
        createdAtMs := 5, expiresAtMs := 900, lastUsedAtMs := none, revokedAtMs := none }
      (workspaceEvent "ua-created" "user.created" "local_user" 5 [("userId", .string "ua")]),
    .environment colleaguesPress,
    .session (.exchange (repeatedDigit '2') "front-press"
      { id := "s", tokenHash := repeatedDigit '3', createdAtMs := 40,
        expiresAtMs := 40 + yardSessionLifetimeMs }
      { id := "issued", requestId := "r" } 40),
    .session (.identify "front-press" (repeatedDigit '3') 40)]

/-- The state after the login and the first use. -/
def loggedIn : Repository := redeem.foldl exec Repository.empty

/-- The session of the colleague resolves at the time of its creation, and the two agree there. -/
theorem agrees_loggedIn :
    (loggedIn.resolveYardIdentity "front-press" (repeatedDigit '3') 40).isOk = true ∧
      (Agrees loggedIn "front-press" (repeatedDigit '3') 40 ↔
        ClockReached loggedIn "front-press" (repeatedDigit '3') 40) :=
  ⟨by decide +kernel, agreement_law (Run.ofList_true (fun _ _ => rfl) Run.init redeem) _ _ _⟩

/-- At time 30 the file server accepts the used session and keeps the time of its use, but to
resolve its identity fails. -/
theorem identity_conflicts_before_creation :
    Run system (fun _ _ => True) loggedIn ∧
      (∃ yard session, Accepts loggedIn "front-press" (repeatedDigit '3') 30 yard session ∧
        Shared loggedIn yard ∧ (loggedIn.touchSession session.id 30).isOk = true) ∧
      (∀ result, loggedIn.resolveYardIdentity "front-press" (repeatedDigit '3') 30 ≠ .ok result) ∧
      ¬Agrees loggedIn "front-press" (repeatedDigit '3') 30 := by
  have haccepted : ∃ yard ∈ loggedIn.webYards, ∃ session ∈ loggedIn.yardSessions, 30 ≤ i64Max ∧
      loggedIn.requiredSession (some (repeatedDigit '3')) "front-press" yard.id 30 =
        .ok (some session.id) ∧
      loggedIn.effectiveVisibility yard.id ≠ .publicAccess ∧
      loggedIn.effectiveVisibility yard.id ≠ .owner ∧
      (loggedIn.touchSession session.id 30).isOk = true := by decide +kernel
  have hfails : (loggedIn.resolveYardIdentity "front-press" (repeatedDigit '3') 30).isOk = false := by
    decide +kernel
  obtain ⟨yard, hyard, session, hsession, htime, hrequired, hpublic, howner, htouched⟩ :=
    haccepted
  have haccepts : Accepts loggedIn "front-press" (repeatedDigit '3') 30 yard session :=
    ⟨htime, hyard, hsession, hrequired⟩
  -- the file server accepts the session, so an agreement would have to resolve it
  have hnone : ∀ result,
      loggedIn.resolveYardIdentity "front-press" (repeatedDigit '3') 30 ≠ .ok result := by
    intro result hok
    rw [hok] at hfails
    cases hfails
  refine ⟨Run.ofList_true (fun _ _ => rfl) Run.init redeem,
    ⟨yard, session, haccepts, ⟨hpublic, howner⟩, htouched⟩, hnone, fun hagrees => ?_⟩
  obtain ⟨identity, s', hok, -⟩ := hagrees.resolved yard session haccepts ⟨hpublic, howner⟩
  exact hnone _ hok

end YardIdentities

end BlobYard
