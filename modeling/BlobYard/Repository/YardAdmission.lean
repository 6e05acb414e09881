/-
Admission to a hosted yard.

A member or guest is admitted to the production environment of the yard behind a host
label by the yard's access policy together with the grants in force.  The member query
bounds how many memberships, group members and group grants it looks at, and refuses
beyond those bounds; the guest query joins the invitation, its grant and a login key.

* `evaluateAdmission` — the query, as the server runs it;
* `Admits` — what a policy with its grants means, without the bounds;
* `evaluateAdmission_sound` — whoever the query admits, the policy admits.
-/
import BlobYard.Repository.YardDeploys

namespace BlobYard

open Outcome

/-- `yard_session_rows::validate_host_label`. -/
def validateHostLabel (value : String) : Except RepositoryError Unit := do
  validateText value
  ensure (ValidHostLabel value) .invalidInput

/-- The grant is in force at `nowMs` for the environment. -/
def GrantInForce (grant : YardAccessGrantRecord) (environmentId : String) (nowMs : ℕ) : Prop :=
  grant.status = .active ∧ grant.revokedAtMs = none ∧
    (∀ expiresAtMs ∈ grant.expiresAtMs, nowMs < expiresAtMs) ∧
    ∀ id ∈ grant.environmentId, id = environmentId

instance (grant : YardAccessGrantRecord) (environmentId : String) (nowMs : ℕ) :
    Decidable (GrantInForce grant environmentId nowMs) :=
  inferInstanceAs (Decidable (_ ∧ _ ∧ _ ∧ _))

namespace Repository

/-- The host label is the stable label of the yard or the label of a deploy it serves. -/
def HostedAt (s : Repository) (hostLabel : String) (yard : WebYardRecord) : Prop :=
  yard.hostLabel = hostLabel ∨ ∃ d ∈ s.yardDeploys, d.yardId = yard.id ∧
    d.deploymentHostLabel = hostLabel ∧ (d.status = .live ∨ d.status = .superseded)

instance (s : Repository) (hostLabel : String) (yard : WebYardRecord) :
    Decidable (s.HostedAt hostLabel yard) :=
  inferInstanceAs (Decidable (_ ∨ ∃ d ∈ s.yardDeploys, _))

/-- The environment is the active production environment of the yard. -/
def ServesProduction (yard : WebYardRecord) (environment : YardEnvironmentRecord) : Prop :=
  environment.yardId = yard.id ∧ environment.kind = .production ∧ environment.status = .active

instance (yard : WebYardRecord) (environment : YardEnvironmentRecord) :
    Decidable (ServesProduction yard environment) :=
  inferInstanceAs (Decidable (_ ∧ _ ∧ _))

/-! ### Members -/

/-- A grant to the user. -/
def DirectlyGranted (s : Repository) (yard : WebYardRecord) (environmentId : String)
    (user : LocalUserRecord) (nowMs : ℕ) : Prop :=
  ∃ grant ∈ s.yardAccessGrants, grant.yardId = yard.id ∧ grant.principalKind = .user ∧
    grant.principalId = user.id ∧ user.workspaceId = yard.workspaceId ∧
    GrantInForce grant environmentId nowMs

instance (s : Repository) (yard : WebYardRecord) (environmentId : String)
    (user : LocalUserRecord) (nowMs : ℕ) :
    Decidable (s.DirectlyGranted yard environmentId user nowMs) :=
  inferInstanceAs (Decidable (∃ grant ∈ s.yardAccessGrants, _))

/-- The memberships of a user in the yard's workspace. -/
def membershipsOf (s : Repository) (userId workspaceId : String) :
    List WorkspaceGroupMemberRecord :=
  s.workspaceGroupMembers.select fun member =>
    member.userId = userId ∧ member.workspaceId = workspaceId

/-- The members of a group. -/
def membersOf (s : Repository) (group : WorkspaceGroupRecord) : List WorkspaceGroupMemberRecord :=
  s.workspaceGroupMembers.select fun member =>
    member.groupId = group.id ∧ member.workspaceId = group.workspaceId

/-- The group row agrees with its members: the recorded count is right and within its bound,
and every member is an active user of the workspace. -/
def SoundGroup (s : Repository) (group : WorkspaceGroupRecord) : Prop :=
  group.memberCount ≤ 500 ∧ group.memberCount = min 501 (s.membersOf group).length ∧
    ∀ member ∈ (s.membersOf group).take 501, ∃ user ∈ s.localUsers, user.id = member.userId ∧
      user.workspaceId = member.workspaceId ∧ user.status = .active ∧ user.deactivatedAtMs = none

instance (s : Repository) (group : WorkspaceGroupRecord) : Decidable (s.SoundGroup group) :=
  inferInstanceAs (Decidable (_ ∧ _ ∧ _))

/-- A grant to the group. -/
def GroupGranted (s : Repository) (yard : WebYardRecord) (environmentId : String)
    (group : WorkspaceGroupRecord) (nowMs : ℕ) : Prop :=
  ∃ grant ∈ s.yardAccessGrants, grant.yardId = yard.id ∧ grant.principalKind = .group ∧
    grant.principalId = group.id ∧ GrantInForce grant environmentId nowMs

instance (s : Repository) (yard : WebYardRecord) (environmentId : String)
    (group : WorkspaceGroupRecord) (nowMs : ℕ) :
    Decidable (s.GroupGranted yard environmentId group nowMs) :=
  inferInstanceAs (Decidable (∃ grant ∈ s.yardAccessGrants, _))

/-- The number of active grants of a group, over all yards. -/
def groupGrantCount (s : Repository) (group : WorkspaceGroupRecord) : ℕ :=
  s.yardAccessGrants.count fun grant =>
    grant.principalKind = .group ∧ grant.principalId = group.id ∧ grant.status = .active

/-- A grant to a group of the user, found within the query's bounds. -/
def GrantedThroughGroup (s : Repository) (yard : WebYardRecord) (environmentId : String)
    (user : LocalUserRecord) (nowMs : ℕ) : Prop :=
  user.workspaceId = yard.workspaceId ∧
    (s.membershipsOf user.id yard.workspaceId).length ≤ 100 ∧
    ∃ member ∈ s.membershipsOf user.id yard.workspaceId, ∃ group ∈ s.workspaceGroups,
      group.id = member.groupId ∧ group.workspaceId = member.workspaceId ∧
      group.status = .active ∧ group.deactivatedAtMs = none ∧ s.SoundGroup group ∧
      s.GroupGranted yard environmentId group nowMs ∧ s.groupGrantCount group ≤ 500

instance (s : Repository) (yard : WebYardRecord) (environmentId : String)
    (user : LocalUserRecord) (nowMs : ℕ) :
    Decidable (s.GrantedThroughGroup yard environmentId user nowMs) :=
  inferInstanceAs (Decidable (_ ∧ _ ∧ ∃ member ∈ s.membershipsOf user.id yard.workspaceId,
    ∃ group ∈ s.workspaceGroups, _))

/-- The policy admits a member, with the grants looked at within the query's bounds. -/
def PolicyAdmitsMember (s : Repository) (yard : WebYardRecord) (environmentId : String)
    (user : LocalUserRecord) (nowMs : ℕ) : Prop :=
  match (s.yardAccessPolicies.find? yard.id).map YardAccessPolicyRecord.visibility with
  | none => True
  | some .publicAccess => True
  | some .anyAuthenticated => True
  | some .workspace => user.workspaceId = yard.workspaceId
  | some .selected | some .authenticatedLink =>
    s.DirectlyGranted yard environmentId user nowMs ∨
      s.GrantedThroughGroup yard environmentId user nowMs
  | some .owner => False

instance (s : Repository) (yard : WebYardRecord) (environmentId : String)
    (user : LocalUserRecord) (nowMs : ℕ) :
    Decidable (s.PolicyAdmitsMember yard environmentId user nowMs) := by
  unfold PolicyAdmitsMember
  split <;> infer_instance

/-- `yard_session_admission::evaluate` for a member; the row that `LIMIT 1` keeps is the first
one in table order. -/
def evaluateMember (s : Repository) (hostLabel subjectId : String) (nowMs : ℕ) :
    Except RepositoryError YardAdmission := do
  let user ← requireRow ((s.localUsers.find? subjectId).filter fun u =>
    u.status = .active ∧ u.deactivatedAtMs = none)
  let _ ← requireRow ((s.yardSubjects.find? subjectId).filter fun x =>
    x.kind = .member ∧ x.localUserId = some user.id ∧ x.invitationId = none ∧
      x.workspaceId = user.workspaceId ∧ x.revokedAtMs = none)
  requireRow <| (s.webYards.rows.flatMap fun yard =>
    (s.yardEnvironments.select fun environment =>
      ServesProduction yard environment ∧ yard.status = .active ∧ s.HostedAt hostLabel yard ∧
        s.PolicyAdmitsMember yard environment.id user nowMs).map fun environment =>
          { yardId := yard.id, environmentId := environment.id,
            workspaceId := yard.workspaceId }).head?

/-! ### Guests -/

/-- The invitation is accepted by the subject and still in force. -/
def InvitationInForce (invitation : YardGuestInvitationRow) (subject : YardSubjectRecord)
    (nowMs : ℕ) : Prop :=
  invitation.workspaceId = subject.workspaceId ∧
    invitation.acceptedSubjectId = some subject.id ∧ invitation.status = .accepted ∧
    invitation.revokedAtMs = none ∧ nowMs < invitation.expiresAtMs

instance (invitation : YardGuestInvitationRow) (subject : YardSubjectRecord) (nowMs : ℕ) :
    Decidable (InvitationInForce invitation subject nowMs) :=
  inferInstanceAs (Decidable (_ ∧ _ ∧ _ ∧ _ ∧ _))

/-- The grant that the invitation carries. -/
def GrantOfInvitation (grant : YardAccessGrantRecord) (invitation : YardGuestInvitationRow) :
    Prop :=
  grant.yardId = invitation.yardId ∧ grant.principalKind = .guestInvite ∧
    grant.principalId = invitation.id ∧ grant.status = .active ∧ grant.revokedAtMs = none ∧
    grant.expiresAtMs = some invitation.expiresAtMs ∧
    grant.environmentId = invitation.environmentId

instance (grant : YardAccessGrantRecord) (invitation : YardGuestInvitationRow) :
    Decidable (GrantOfInvitation grant invitation) :=
  inferInstanceAs (Decidable (_ ∧ _ ∧ _ ∧ _ ∧ _ ∧ _ ∧ _))

/-- A login key of the guest is in force. -/
def HasLoginKey (s : Repository) (subject : YardSubjectRecord) (invitationId : String)
    (nowMs : ℕ) : Prop :=
  ∃ loginKey ∈ s.yardGuestLoginKeys, loginKey.subjectId = subject.id ∧
    loginKey.invitationId = invitationId ∧ loginKey.workspaceId = subject.workspaceId ∧
    loginKey.revokedAtMs = none ∧ nowMs < loginKey.expiresAtMs

instance (s : Repository) (subject : YardSubjectRecord) (invitationId : String) (nowMs : ℕ) :
    Decidable (s.HasLoginKey subject invitationId nowMs) :=
  inferInstanceAs (Decidable (∃ loginKey ∈ s.yardGuestLoginKeys, _))

/-- The yard's policy admits guests. -/
def AdmitsGuests (s : Repository) (yardId : String) : Prop :=
  ∃ policy ∈ s.yardAccessPolicies, policy.yardId = yardId ∧
    (policy.visibility = .selected ∨ policy.visibility = .authenticatedLink)

instance (s : Repository) (yardId : String) : Decidable (s.AdmitsGuests yardId) :=
  inferInstanceAs (Decidable (∃ policy ∈ s.yardAccessPolicies, _))

/-- `yard_guest_admission::evaluate`. -/
def evaluateGuest (s : Repository) (hostLabel subjectId : String) (nowMs : ℕ) :
    Except RepositoryError YardAdmission := do
  let subject ← requireRow ((s.yardSubjects.find? subjectId).filter fun x =>
    x.kind = .guest ∧ x.localUserId = none ∧ x.revokedAtMs = none)
  let invitation ← requireRow ((subject.invitationId.bind s.yardGuestInvitations.find?).filter
    fun i => InvitationInForce i subject nowMs)
  let _ ← requireRow ((s.yardAccessGrants.find? invitation.grantId).filter fun g =>
    GrantOfInvitation g invitation)
  let yard ← requireRow ((s.webYards.find? invitation.yardId).filter fun y =>
    y.projectId = invitation.projectId ∧ y.workspaceId = invitation.workspaceId ∧
      y.status = .active ∧ s.HostedAt hostLabel y ∧ s.AdmitsGuests y.id ∧
      s.HasLoginKey subject invitation.id nowMs)
  let environment ← requireRow (s.yardEnvironments.select fun e =>
    ServesProduction yard e ∧ ∀ id ∈ invitation.environmentId, id = e.id).head?
  return { yardId := yard.id, environmentId := environment.id, workspaceId := yard.workspaceId }

/-- `evaluate_yard_admission`. -/
def evaluateAdmission (s : Repository) (hostLabel subjectId : String) (nowMs : ℕ) :
    Except RepositoryError YardAdmission := do
  validateHostLabel hostLabel
  validateText subjectId
  let subject ← requireRow ((s.yardSubjects.find? subjectId).filter fun x => x.revokedAtMs = none)
  match subject.kind with
  | .guest => s.evaluateGuest hostLabel subjectId nowMs
  | .member => s.evaluateMember hostLabel subjectId nowMs

/-! ### What admission means -/

/-- The visibility of a yard; a yard without a policy is public (`effective_visibility`). -/
def effectiveVisibility (s : Repository) (yardId : String) : YardVisibility :=
  ((s.yardAccessPolicies.find? yardId).map YardAccessPolicyRecord.visibility).getD .publicAccess

/-- The policy and grants admit the user to the environment: everybody to a public yard or one
for any authenticated user, colleagues to a workspace yard, and to a selected one whoever has a
grant in force, in person or through an active group. -/
def AdmitsUser (s : Repository) (yard : WebYardRecord) (environmentId : String)
    (user : LocalUserRecord) (nowMs : ℕ) : Prop :=
  match s.effectiveVisibility yard.id with
  | .publicAccess | .anyAuthenticated => True
  | .workspace => user.workspaceId = yard.workspaceId
  | .selected | .authenticatedLink =>
    user.workspaceId = yard.workspaceId ∧
      ∃ grant ∈ s.yardAccessGrants, grant.yardId = yard.id ∧
        GrantInForce grant environmentId nowMs ∧
        ((grant.principalKind = .user ∧ grant.principalId = user.id) ∨
          (grant.principalKind = .group ∧ ∃ group ∈ s.workspaceGroups,
            group.id = grant.principalId ∧ group.status = .active ∧
            ∃ member ∈ s.workspaceGroupMembers, member.groupId = group.id ∧
              member.userId = user.id))
  | .owner => False

/-- The policy, the invitation and its grant admit the guest to the environment. -/
def AdmitsGuest (s : Repository) (yard : WebYardRecord) (environmentId : String)
    (subject : YardSubjectRecord) (nowMs : ℕ) : Prop :=
  (s.effectiveVisibility yard.id = .selected ∨
    s.effectiveVisibility yard.id = .authenticatedLink) ∧
  ∃ invitation ∈ s.yardGuestInvitations, InvitationInForce invitation subject nowMs ∧
    subject.invitationId = some invitation.id ∧ invitation.yardId = yard.id ∧
    s.HasLoginKey subject invitation.id nowMs ∧
    ∃ grant ∈ s.yardAccessGrants, grant.id = invitation.grantId ∧ grant.yardId = yard.id ∧
      GrantInForce grant environmentId nowMs

/-- The subject is admitted at `nowMs` to the environment of the yard. -/
def Admits (s : Repository) (yard : WebYardRecord) (environment : YardEnvironmentRecord)
    (subjectId : String) (nowMs : ℕ) : Prop :=
  yard.status = .active ∧ ServesProduction yard environment ∧
    ∃ subject ∈ s.yardSubjects, subject.id = subjectId ∧ subject.revokedAtMs = none ∧
      match subject.kind with
      | .member => ∃ user ∈ s.localUsers, user.id = subjectId ∧ user.status = .active ∧
          subject.workspaceId = user.workspaceId ∧ s.AdmitsUser yard environment.id user nowMs
      | .guest => s.AdmitsGuest yard environment.id subject nowMs

/-! ### Soundness -/

section Soundness

variable {s : Repository} {hostLabel subjectId : String} {nowMs : ℕ} {admission : YardAdmission}

/-- What the bounded query finds is there without the bounds. -/
theorem admitsUser_of_policy {yard : WebYardRecord} {environmentId : String}
    {user : LocalUserRecord} (h : s.PolicyAdmitsMember yard environmentId user nowMs) :
    s.AdmitsUser yard environmentId user nowMs := by
  have hselected : s.DirectlyGranted yard environmentId user nowMs ∨
      s.GrantedThroughGroup yard environmentId user nowMs →
      user.workspaceId = yard.workspaceId ∧
        ∃ grant ∈ s.yardAccessGrants, grant.yardId = yard.id ∧
          GrantInForce grant environmentId nowMs ∧
          ((grant.principalKind = .user ∧ grant.principalId = user.id) ∨
            (grant.principalKind = .group ∧ ∃ group ∈ s.workspaceGroups,
              group.id = grant.principalId ∧ group.status = .active ∧
              ∃ member ∈ s.workspaceGroupMembers, member.groupId = group.id ∧
                member.userId = user.id)) := by
    rintro (⟨grant, hgrant, hyard, hkind, hprincipal, hworkspace, hforce⟩ |
      ⟨hworkspace, -, member, hmember, group, hgroup, hid, -, hactive, -, -,
        ⟨grant, hgrant, hyard, hkind, hprincipal, hforce⟩, -⟩)
    · exact ⟨hworkspace, grant, hgrant, hyard, hforce, Or.inl ⟨hkind, hprincipal⟩⟩
    · obtain ⟨hmember, huser, -⟩ := Table.mem_select.mp hmember
      exact ⟨hworkspace, grant, hgrant, hyard, hforce, Or.inr ⟨hkind, group, hgroup,
        hprincipal.symm, hactive, member, hmember, hid.symm, huser⟩⟩
  unfold PolicyAdmitsMember at h
  unfold AdmitsUser effectiveVisibility
  cases hpolicy : s.yardAccessPolicies.find? yard.id with
  | none => exact trivial
  | some policy =>
    rw [hpolicy] at h
    simp only [Option.map_some, Option.getD_some] at h ⊢
    cases hvisibility : policy.visibility <;> rw [hvisibility] at h
    · exact trivial
    · exact h
    · exact hselected h
    · exact h
    · exact hselected h
    · exact trivial

/-- The yard and the environment that an admission names. -/
def Names (s : Repository) (hostLabel : String) (admission : YardAdmission)
    (yard : WebYardRecord) (environment : YardEnvironmentRecord) : Prop :=
  yard ∈ s.webYards ∧ environment ∈ s.yardEnvironments ∧ yard.id = admission.yardId ∧
    environment.id = admission.environmentId ∧ s.HostedAt hostLabel yard

/-- The member query admits an active user with a live subject by the policy of a hosted yard. -/
theorem evaluateMember_spec (h : s.evaluateMember hostLabel subjectId nowMs = .ok admission) :
    ∃ user subject yard environment, user ∈ s.localUsers ∧ user.id = subjectId ∧
      user.status = .active ∧ user.deactivatedAtMs = none ∧ subject ∈ s.yardSubjects ∧
      subject.id = subjectId ∧ subject.kind = .member ∧ subject.localUserId = some user.id ∧
      subject.invitationId = none ∧ subject.workspaceId = user.workspaceId ∧
      subject.revokedAtMs = none ∧ s.Names hostLabel admission yard environment ∧
      yard.status = .active ∧ ServesProduction yard environment ∧
      s.PolicyAdmitsMember yard environment.id user nowMs := by
  simp only [evaluateMember, bind_eq_ok, requireRow_eq_ok, Option.filter_eq_some_iff,
    Table.find?_eq_some, decide_eq_true_eq] at h
  obtain ⟨user, ⟨⟨huser, hid⟩, hactive, hlive⟩, subject, ⟨⟨hsubject, hsid⟩, hkind, hlocal,
    hinvitation, hworkspace, hrevoked⟩, hhead⟩ := h
  obtain ⟨yard, hyard, hrow⟩ := List.mem_flatMap.mp (List.mem_of_head? hhead)
  obtain ⟨environment, henvironment, rfl⟩ := List.mem_map.mp hrow
  obtain ⟨henvironment, hproduction, hstatus, hhosted, hpolicy⟩ :=
    Table.mem_select.mp henvironment
  exact ⟨user, subject, yard, environment, huser, hid, hactive, hlive, hsubject, hsid, hkind,
    hlocal, hinvitation, hworkspace, hrevoked, ⟨hyard, henvironment, rfl, rfl, hhosted⟩, hstatus,
    hproduction, hpolicy⟩

theorem evaluateMember_sound (h : s.evaluateMember hostLabel subjectId nowMs = .ok admission) :
    ∃ yard environment, s.Names hostLabel admission yard environment ∧
      s.Admits yard environment subjectId nowMs := by
  obtain ⟨user, subject, yard, environment, huser, hid, hactive, -, hsubject, hsid, hkind, -, -,
    hworkspace, hrevoked, hnames, hstatus, hproduction, hpolicy⟩ := evaluateMember_spec h
  refine ⟨yard, environment, hnames, hstatus, hproduction, subject, hsubject, hsid, hrevoked, ?_⟩
  rw [hkind]
  exact ⟨user, huser, hid, hactive, hworkspace, admitsUser_of_policy hpolicy⟩

/-- The guest query admits a live guest subject by its invitation, the grant of that and a login
key. -/
theorem evaluateGuest_spec (h : s.evaluateGuest hostLabel subjectId nowMs = .ok admission) :
    ∃ subject invitation grant yard environment, subject ∈ s.yardSubjects ∧
      subject.id = subjectId ∧ subject.kind = .guest ∧ subject.localUserId = none ∧
      subject.revokedAtMs = none ∧ subject.invitationId = some invitation.id ∧
      invitation ∈ s.yardGuestInvitations ∧ InvitationInForce invitation subject nowMs ∧
      grant ∈ s.yardAccessGrants ∧ grant.id = invitation.grantId ∧
      GrantOfInvitation grant invitation ∧ s.Names hostLabel admission yard environment ∧
      invitation.yardId = yard.id ∧ yard.status = .active ∧ s.AdmitsGuests yard.id ∧
      s.HasLoginKey subject invitation.id nowMs ∧ ServesProduction yard environment ∧
      ∀ id ∈ invitation.environmentId, id = environment.id := by
  simp only [evaluateGuest, bind_eq_ok, pure_eq_ok, requireRow_eq_ok, Option.filter_eq_some_iff,
    Option.bind_eq_some_iff, Table.find?_eq_some, decide_eq_true_eq] at h
  obtain ⟨subject, ⟨⟨hsubject, hsid⟩, hkind, hlocal, hrevoked⟩, invitation, ⟨⟨_, hinvited,
    hinvitation, rfl⟩, hforce⟩, grant, ⟨⟨hgrant, hgid⟩, hof⟩, yard, ⟨⟨hyard, hyid⟩, -, -, hstatus,
    hhosted, hguests, hloginKey⟩, environment, hhead, rfl⟩ := h
  obtain ⟨henvironment, hproduction, hscope⟩ := Table.mem_select.mp (List.mem_of_head? hhead)
  exact ⟨subject, invitation, grant, yard, environment, hsubject, hsid, hkind, hlocal, hrevoked,
    hinvited, hinvitation, hforce, hgrant, hgid, hof, ⟨hyard, henvironment, rfl, rfl, hhosted⟩,
    hyid.symm, hstatus, hguests, hloginKey, hproduction, hscope⟩

theorem evaluateGuest_sound (h : s.evaluateGuest hostLabel subjectId nowMs = .ok admission) :
    ∃ yard environment, s.Names hostLabel admission yard environment ∧
      s.Admits yard environment subjectId nowMs := by
  obtain ⟨subject, invitation, grant, yard, environment, hsubject, hsid, hkind, -, hrevoked,
    hinvited, hinvitation, hforce, hgrant, hgid, ⟨hgyard, -, -, hgactive, hgrevoked, hgexpires,
    hgenvironment⟩, hnames, hyid, hstatus, hguests, hloginKey, hproduction, hscope⟩ :=
    evaluateGuest_spec h
  refine ⟨yard, environment, hnames, hstatus, hproduction, subject, hsubject, hsid, hrevoked, ?_⟩
  rw [hkind]
  refine ⟨?_, invitation, hinvitation, hforce, hinvited, hyid, hloginKey, grant, hgrant, hgid,
    hgyard.trans hyid, hgactive, hgrevoked, ?_, ?_⟩
  · obtain ⟨policy, hpolicy, hpid, hvisibility⟩ := hguests
    rw [effectiveVisibility, Table.find?_eq_some.mpr ⟨hpolicy, hpid⟩]
    exact hvisibility
  -- the grant expires with the invitation
  · intro expiresAtMs hexpires
    rw [hgexpires, Option.mem_some_iff] at hexpires
    exact hexpires ▸ hforce.2.2.2.2
  · rw [hgenvironment]
    exact hscope

/-- **Admission is sound**: whoever the query admits to an environment, the access policy and
the grants in force admit to it. -/
theorem evaluateAdmission_sound
    (h : s.evaluateAdmission hostLabel subjectId nowMs = .ok admission) :
    ∃ yard environment, s.Names hostLabel admission yard environment ∧
      s.Admits yard environment subjectId nowMs := by
  simp only [evaluateAdmission, bind_eq_ok] at h
  obtain ⟨-, -, -, -, subject, -, h⟩ := h
  split at h
  · exact evaluateGuest_sound h
  · exact evaluateMember_sound h

end Soundness

end Repository

end BlobYard
