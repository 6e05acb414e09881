/-
The rows of the paged listings are rows that their decoders take.

A listing checks every row that it reads, and answers with an error where one is not what the
operations write.  No operation leaves such a row behind.

* `StoredGroups`, `storedGroups_exec` — groups and members;
* `StoredInvites`, `storedInvites_exec` — guest invitations with their grants;
* `StoredRoles`, `storedRoles_exec` — the management roles of a yard, with an owner among them.
-/
import BlobYard.Laws.GuestInvitations
import BlobYard.Laws.ManagementRoles
import BlobYard.Laws.WorkspaceGroups
import BlobYard.Repository.Listings

namespace BlobYard

open Outcome Repository

namespace StoredRows

variable {s s' : Repository}

/-! ### Groups and members -/

/-- `validate_member`: what the decoder of a member row requires. -/
def ValidMember (member : WorkspaceGroupMemberRecord) : Prop :=
  ValidPrefixedHexId member.groupId "group_" ∧ ValidText member.workspaceId ∧
    ValidText member.userId

theorem validateMember_eq_ok {member : WorkspaceGroupMemberRecord} {u : Unit} :
    validateMember member = .ok u ↔ ValidMember member := by
  simp only [validateMember, validateGroupId, bind_eq_ok, ensure_eq_ok, validateText_eq_ok,
    ValidMember, exists_const]

section Groups

variable [Unicode]

/-- Every group and every member can be read, and their times are numbers of the database. -/
structure StoredGroups (s : Repository) : Prop where
  groups : ∀ g ∈ s.workspaceGroups, ValidStoredGroup g ∧ g.createdAtMs ≤ i64Max
  members : ∀ m ∈ s.workspaceGroupMembers, ValidMember m ∧ m.addedAtMs ≤ i64Max

theorem storedGroups_init : StoredGroups Repository.empty where
  groups _ h := absurd h Table.not_mem_empty
  members _ h := absurd h Table.not_mem_empty

/-- A group that keeps its identity and creation time after a rewriting. -/
theorem StoredGroups.replace {group group' : WorkspaceGroupRecord}
    {groups : Table WorkspaceGroupRecord.id} (h : StoredGroups s)
    (hgroups : s.workspaceGroups.Replaced groups group group')
    (hvalid : ValidStoredGroup group → ValidStoredGroup group')
    (hcreated : group'.createdAtMs = group.createdAtMs) :
    ∀ g ∈ groups, ValidStoredGroup g ∧ g.createdAtMs ≤ i64Max := by
  intro g hg
  rcases (hgroups.mem g).mp hg with ⟨hold, -⟩ | rfl
  · exact h.groups g hold
  · obtain ⟨hstored, htime⟩ := h.groups group hgroups.mem_old
    exact ⟨hvalid hstored, hcreated ▸ htime⟩

/-- A counter may take any value up to the limit while the group is active, and any value below
its own. -/
theorem validStoredGroup_count {group : WorkspaceGroupRecord} (h : ValidStoredGroup group)
    {count : ℕ} (hlimit : count ≤ maximumGroupMembers)
    (hcount : group.status = .active ∨ count ≤ group.memberCount) :
    ValidStoredGroup { group with memberCount := count } := by
  obtain ⟨hid, hworkspace, hname, -, hlife⟩ := h
  obtain ⟨id, workspaceId, name, status, memberCount, createdAtMs, deactivatedAtMs⟩ := group
  cases status with
  | active => exact ⟨hid, hworkspace, hname, hlimit, hlife⟩
  | deactivated =>
    obtain ⟨hzero, hlater⟩ := hlife
    refine ⟨hid, hworkspace, hname, hlimit, ?_, hlater⟩
    rcases hcount with hactive | hle
    · cases hactive
    · exact Nat.le_zero.mp (hle.trans hzero.le)

variable {workspaceId groupId userId : String} {event : NewAuditEvent}

theorem createWorkspaceGroup_stored {group : WorkspaceGroupRecord}
    (h : s.createWorkspaceGroup group event = .ok s') :
    ValidStoredGroup group ∧ group.createdAtMs ≤ i64Max := by
  simp only [createWorkspaceGroup, validateGroup, validateGroupId, validateGroupEvent,
    validateActionEvent, bind_eq_ok, ensure_eq_ok, validateText_eq_ok, toI64_eq_ok] at h
  obtain ⟨-, ⟨-, hid, -, hworkspace, name, hname, hsame, hactive, hempty, hnone⟩, -, -, -, -, -, -,
    -, ⟨-, -, htime⟩, -⟩ := h
  refine ⟨⟨hid, hworkspace, ?_, ?_, ?_⟩, htime⟩
  · rw [hname, hsame]
    rfl
  · rw [hempty]
    exact Nat.zero_le _
  · rw [hactive]
    exact hnone

theorem renameWorkspaceGroup_stored {name : String} {renamed : WorkspaceGroupRecord}
    (h : s.renameWorkspaceGroup workspaceId groupId name event = .ok (renamed, s')) :
    (normalizeGroupName name).toOption = some name := by
  simp only [renameWorkspaceGroup, bind_eq_ok, ensure_eq_ok] at h
  obtain ⟨-, -, -, -, normalized, hname, -, hsame, -⟩ := h
  rw [hname, hsame]
  rfl

theorem addWorkspaceGroupMember_stored {member : WorkspaceGroupMemberRecord}
    (h : s.addWorkspaceGroupMember member event = .ok s') :
    ValidMember member ∧ member.addedAtMs ≤ i64Max := by
  simp only [addWorkspaceGroupMember, validateGroupEvent, validateActionEvent, bind_eq_ok,
    toI64_eq_ok, validateMember_eq_ok] at h
  obtain ⟨-, hvalid, -, -, -, -, -, -, -, -, -, ⟨-, -, htime⟩, -⟩ := h
  exact ⟨hvalid, htime⟩

theorem deactivateWorkspaceGroup_stored {nowMs : ℕ}
    (h : s.deactivateWorkspaceGroup workspaceId groupId nowMs event = .ok s') :
    ∀ g ∈ s.workspaceGroups, g.id = groupId → g.createdAtMs ≤ nowMs := by
  simp only [deactivateWorkspaceGroup, bind_eq_ok, ensure_eq_ok] at h
  obtain ⟨-, -, -, -, group, hgroup, -, -, -, -, -, -, -, htime, -⟩ := h
  obtain ⟨hmem, hid, -, -⟩ := activeGroup_spec hgroup
  intro g hg hgid
  rwa [Table.eq_of_key hg hmem (hgid.trans hid.symm)]

/-- The operations on groups leave rows that can be read. -/
theorem storedGroups_group {request : WorkspaceGroups.GroupRequest} (h : StoredGroups s)
    (hrun : request.run s = .ok s') : StoredGroups s' := by
  cases request with
  | create group event =>
    obtain ⟨groups, audits, rfl, hgroups, -⟩ := createWorkspaceGroup_spec hrun
    refine ⟨fun g hg => ?_, h.members⟩
    rcases (hgroups.mem g).mp hg with hold | rfl
    · exact h.groups g hold
    · exact createWorkspaceGroup_stored hrun
  -- the checks of the request are those of the reader
  | rename workspaceId groupId name event =>
    simp only [WorkspaceGroups.GroupRequest.run, map_eq_ok] at hrun
    obtain ⟨⟨_, _⟩, hrun, rfl⟩ := hrun
    obtain ⟨group, groups, audits, rfl, -, hgroups, -⟩ := renameWorkspaceGroup_spec hrun
    refine ⟨h.replace hgroups (fun hvalid => ?_) rfl, h.members⟩
    exact ⟨hvalid.1, hvalid.2.1, renameWorkspaceGroup_stored hrun, hvalid.2.2.2⟩
  | deactivate workspaceId groupId nowMs event =>
    have htime := deactivateWorkspaceGroup_stored hrun
    obtain ⟨group, groups, audits, rfl, hid, -, -, hgroups, -⟩ := deactivateWorkspaceGroup_spec hrun
    refine ⟨h.replace hgroups (fun hvalid => ?_) rfl, fun m hm => h.members m (Table.mem_erase.mp hm).1⟩
    -- a deactivated group is empty, and was not deactivated before it was created
    refine ⟨hvalid.1, hvalid.2.1, hvalid.2.2.1, Nat.zero_le _, rfl, ?_⟩
    exact decide_eq_true (htime group hgroups.mem_old hid)
  | addMember member event =>
    obtain ⟨group, groups, members, audits, rfl, -, -, hactive, hroom, hgroups, hmembers, -⟩ :=
      addWorkspaceGroupMember_spec hrun
    refine ⟨h.replace hgroups (fun hvalid => ?_) rfl, fun m hm => ?_⟩
    · exact validStoredGroup_count hvalid hroom (Or.inl hactive)
    · rcases (hmembers.mem m).mp hm with hold | rfl
      · exact h.members m hold
      · exact addWorkspaceGroupMember_stored hrun
  | removeMember workspaceId groupId userId event =>
    obtain ⟨group, groups, audits, rfl, -, -, hgroups, -⟩ := removeWorkspaceGroupMember_spec hrun
    refine ⟨h.replace hgroups (fun hvalid => ?_) rfl, fun m hm => h.members m (Table.mem_erase.mp hm).1⟩
    have hless : group.memberCount - 1 ≤ group.memberCount := Nat.sub_le _ _
    exact validStoredGroup_count hvalid (hless.trans hvalid.2.2.2.1) (Or.inr hless)

/-- Groups are counted down and members go. -/
theorem storedGroups_leave {p : WorkspaceGroupRecord → Prop} [DecidablePred p] (h : StoredGroups s)
    (hg : s'.workspaceGroups =
      s.workspaceGroups.update p fun g => { g with memberCount := g.memberCount - 1 })
    (hm : ∀ m ∈ s'.workspaceGroupMembers, m ∈ s.workspaceGroupMembers) : StoredGroups s' := by
  refine ⟨?_, fun m hmem => h.members m (hm m hmem)⟩
  rw [hg]
  intro g hmem
  obtain ⟨old, hold, rfl⟩ := Table.mem_update.mp hmem
  obtain ⟨hvalid, htime⟩ := h.groups old hold
  split
  · have hless : old.memberCount - 1 ≤ old.memberCount := Nat.sub_le _ _
    exact ⟨validStoredGroup_count hvalid (hless.trans hvalid.2.2.2.1) (Or.inr hless), htime⟩
  · exact ⟨hvalid, htime⟩

/-- So do the other requests. -/
theorem storedGroups_exec [JsonWriter] {request : WorkspaceGroups.Request} (h : StoredGroups s) :
    StoredGroups (WorkspaceGroups.exec s request) := by
  unfold WorkspaceGroups.exec
  cases hrun : request.run s with
  | error e => exact h
  | ok s' =>
    cases request with
    | group request => exact storedGroups_group h hrun
    -- users and grants are in other tables; a user that goes leaves the groups
    | createUser user key event =>
      obtain ⟨_, _, _, _, rfl, -⟩ := createLocalUser_spec hrun
      exact ⟨h.groups, h.members⟩
    | deactivateUser userId nowMs event =>
      obtain ⟨_, _, _, _, _, _, rfl, -⟩ := deactivateLocalUser_spec hrun
      exact storedGroups_leave h rfl fun m hm => (Table.mem_erase.mp hm).1
    | insertGrant grant event =>
      simp only [WorkspaceGroups.Request.run, map_eq_ok] at hrun
      obtain ⟨⟨_, _⟩, hrun, rfl⟩ := hrun
      obtain ⟨_, _, _, rfl, -⟩ := insertYardAccessGrant_spec hrun
      exact ⟨h.groups, h.members⟩
    | revokeGrant yardId grantId revokedAtMs event =>
      simp only [WorkspaceGroups.Request.run, map_eq_ok] at hrun
      obtain ⟨⟨_, _⟩, hrun, rfl⟩ := hrun
      rcases revokeYardAccessGrant_spec hrun with rfl | ⟨_, _, _, rfl, -⟩
      · exact h
      · exact ⟨h.groups, h.members⟩
    | setRoles yardId grantId appRoles nowMs event =>
      simp only [WorkspaceGroups.Request.run, map_eq_ok] at hrun
      obtain ⟨⟨_, _⟩, hrun, rfl⟩ := hrun
      obtain ⟨_, _, _, _, rfl, -⟩ := setYardAccessRoles_spec hrun
      exact ⟨h.groups, h.members⟩
    | createInvite invitation grant event =>
      simp only [WorkspaceGroups.Request.run, map_eq_ok] at hrun
      obtain ⟨⟨_, _⟩, hrun, rfl⟩ := hrun
      obtain ⟨_, _, _, _, _, rfl, -⟩ := createYardGuestInvite_spec hrun
      exact ⟨h.groups, h.members⟩
    | revokeInvite yardId invitationId nowMs event =>
      simp only [WorkspaceGroups.Request.run, map_eq_ok] at hrun
      obtain ⟨⟨_, _⟩, hrun, rfl⟩ := hrun
      obtain ⟨_, _, _, _, _, _, rfl, -⟩ := revokeYardGuestInvite_spec hrun
      exact ⟨h.groups, h.members⟩
    | environment other =>
      simp only [WorkspaceGroups.Request.run, Except.ok.injEq] at hrun
      subst hrun
      exact ⟨h.groups, h.members⟩

end Groups

/-! ### Guest invitations -/

section Invites

variable [Unicode] {event : NewAuditEvent}

/-- Every invitation agrees with its grant and can be read. -/
structure StoredInvites (s : Repository) : Prop where
  invited : GuestInvitations.Invited s
  rows : ∀ row ∈ s.yardGuestInvitations, (∀ text ∈ invitationTexts row, ValidText text) ∧
    row.createdAtMs < row.expiresAtMs ∧ NormalizedEmail row.email ∧
    ValidPrefixedHexId row.id "ygi_" ∧ row.createdAtMs ≤ i64Max

theorem storedInvites_init : StoredInvites Repository.empty where
  invited := GuestInvitations.invited_init
  rows _ h := absurd h Table.not_mem_empty

/-- The grant of a stored invitation is found with it, and the two are valid. -/
theorem StoredInvites.grantOf (h : StoredInvites s) {row : YardGuestInvitationRow}
    (hrow : row ∈ s.yardGuestInvitations) :
    ∃ grant, s.grantOf row = some grant ∧ ValidInvitation row grant := by
  obtain ⟨grant, hgrant, hscope, hlife⟩ := h.invited.grants row hrow
  obtain ⟨htexts, hlifetime, hemail, -, -⟩ := h.rows row hrow
  refine ⟨grant, ?_, htexts, hscope, hlife, hlifetime, hemail⟩
  rw [Repository.grantOf, Table.find?_eq_some.mpr ⟨hgrant, hscope.id⟩, Option.filter_some,
    if_pos (decide_eq_true hscope.yard)]

theorem createYardGuestInvite_stored {invitation : NewYardGuestInvite} {grant : NewYardAccessGrant}
    {record : YardGuestInviteRecord}
    (h : s.createYardGuestInvite invitation grant event = .ok (record, s')) :
    ValidPrefixedHexId invitation.id "ygi_" ∧ invitation.createdAtMs ≤ i64Max := by
  simp only [createYardGuestInvite, validateGuestInvite, validateGuestEvent, validateActionEvent,
    bind_eq_ok, ensure_eq_ok, toI64_eq_ok] at h
  obtain ⟨-, ⟨-, -, -, -, -, -, -, ⟨hid, -⟩, -⟩, -, ⟨-, -, htime⟩, -⟩ := h
  exact ⟨hid, htime⟩

/-- A rewritten invitation keeps what the operations do not write. -/
theorem StoredInvites.replace {row row' : YardGuestInvitationRow}
    {rows : Table YardGuestInvitationRow.id} (h : StoredInvites s)
    (hrows : s.yardGuestInvitations.Replaced rows row row')
    (hsame : invitationTexts row' = invitationTexts row ∧ row'.email = row.email ∧
      row'.createdAtMs = row.createdAtMs ∧ row'.expiresAtMs = row.expiresAtMs) :
    ∀ r ∈ rows, (∀ text ∈ invitationTexts r, ValidText text) ∧ r.createdAtMs < r.expiresAtMs ∧
      NormalizedEmail r.email ∧ ValidPrefixedHexId r.id "ygi_" ∧ r.createdAtMs ≤ i64Max := by
  intro r hr
  rcases (hrows.mem r).mp hr with ⟨hold, -⟩ | rfl
  · exact h.rows r hold
  · obtain ⟨htexts, hemail, hcreated, hexpires⟩ := hsame
    have hid : r.id = row.id := (List.cons.inj htexts).1
    rw [htexts, hemail, hcreated, hexpires, hid]
    exact h.rows row hrows.mem_old

/-- The requests on invitations, grants, groups and users leave rows that can be read. -/
theorem storedInvites_exec [JsonWriter] {l : GuestInvitations.Ledger}
    {request : GuestInvitations.Request} (h : StoredInvites l.repository) :
    StoredInvites (GuestInvitations.exec l request).repository := by
  -- most requests leave the invitations as they are
  have hundisturbed : ∀ s', ¬GuestInvitations.Writes request →
      request.run l.repository = .ok s' → StoredInvites s' := by
    intro s' hnot hrun
    have hsame := GuestInvitations.undisturbed_of_run hnot hrun
    refine ⟨GuestInvitations.invited_of_undisturbed h.invited hsame, ?_⟩
    rw [hsame.invitations]
    exact h.rows
  unfold GuestInvitations.exec
  cases hrun : request.run l.repository with
  | error e => exact h
  | ok s' =>
    cases request with
    | create invitation grant event =>
      simp only [GuestInvitations.Request.run, map_eq_ok] at hrun
      obtain ⟨⟨_, _⟩, hrun, rfl⟩ := hrun
      obtain ⟨hid, htime⟩ := createYardGuestInvite_stored hrun
      obtain ⟨_, roles, grants, invitations, audits, rfl, -, -, -, -, -, hvalid, -, hgrants, hrows,
        -⟩ := createYardGuestInvite_spec hrun
      -- a new row passes the checks of its reader, and agrees with its grant
      refine ⟨GuestInvitations.invited_create h.invited hvalid hgrants hrows ⟨rfl, rfl, rfl, rfl⟩, ?_⟩
      intro row hrow
      rcases (hrows.mem row).mp hrow with hold | rfl
      · exact h.rows row hold
      · exact ⟨hvalid.texts, hvalid.lifetime, hvalid.email, hid, htime⟩
    | accept tokenHash subject key continuation event nowMs =>
      simp only [GuestInvitations.Request.run, map_eq_ok] at hrun
      obtain ⟨⟨_, _⟩, hrun, rfl⟩ := hrun
      obtain ⟨row, rows, subjects, keys, continuations, audits, rfl, hpending, -, hrows, hkind,
        hinvitation, -, -, hsubjects, hksubject, hkinvitation, -, hkexpires, hkeys, hsecret, -⟩ :=
        acceptYardGuestInvite_spec hrun
      refine ⟨GuestInvitations.invited_accept h.invited hpending.2.1 hrows hkind hinvitation
        hsubjects hksubject hkinvitation hkexpires hkeys hsecret ⟨rfl, rfl, rfl, rfl⟩, ?_⟩
      -- accepted or revoked, the row keeps the columns that are checked
      exact h.replace hrows ⟨rfl, rfl, rfl, rfl⟩
    | revoke yardId invitationId nowMs event =>
      simp only [GuestInvitations.Request.run, map_eq_ok] at hrun
      obtain ⟨⟨_, _⟩, hrun, rfl⟩ := hrun
      obtain ⟨row, grant, rows, grants, keys, audits, rfl, -, -, -, -, hrows, hgid, -, hgrants, hkeys,
        -⟩ := revokeYardGuestInvite_spec hrun
      refine ⟨GuestInvitations.invited_revoke h.invited hrows hgid hgrants hkeys
        ⟨rfl, rfl, rfl, rfl⟩, ?_⟩
      exact h.replace hrows ⟨rfl, rfl, rfl, rfl⟩
    | authenticate secretHash nowMs => exact hundisturbed s' id hrun
    | access request => exact hundisturbed s' id hrun
    | deactivateGroup workspaceId groupId nowMs event => exact hundisturbed s' id hrun
    | createUser user key event => exact hundisturbed s' id hrun
    | deactivateUser userId nowMs event => exact hundisturbed s' id hrun
    | environment other => exact hundisturbed s' id hrun

end Invites

/-! ### Management roles -/

section Roles

/-- Every assignment can be read, and the check of the assignments of a yard succeeds: they are
within the limit, and an owner is among them. -/
structure StoredRoles (s : Repository) : Prop where
  rows : ∀ a ∈ s.yardManagementRoles, ValidAssignment a
  owned : ∀ a ∈ s.yardManagementRoles, ∃ o ∈ s.yardManagementRoles, o.yardId = a.yardId ∧
    o.role = .owner
  bounded : ∀ yardId, (s.rolesOf yardId).length ≤ maximumYardManagementRoles

theorem storedRoles_init : StoredRoles Repository.empty where
  rows _ h := absurd h Table.not_mem_empty
  owned _ h := absurd h Table.not_mem_empty
  bounded _ := Nat.zero_le _

theorem StoredRoles.congr (h : StoredRoles s)
    (hsame : s'.yardManagementRoles = s.yardManagementRoles) : StoredRoles s' := by
  refine ⟨?_, ?_, fun yardId => ?_⟩
  · rw [hsame]
    exact h.rows
  · rw [hsame]
    exact h.owned
  · rw [rolesOf, hsame]
    exact h.bounded yardId

/-- The check of the assignments succeeds. -/
theorem StoredRoles.validateState (h : StoredRoles s) (yardId : String) :
    ∃ state, s.validateState yardId = .ok state := by
  have hbound := h.bounded yardId
  have htake : (s.rolesOf yardId).take (maximumYardManagementRoles + 1) = s.rolesOf yardId :=
    List.take_of_length_le (by omega)
  have howners : (s.rolesOf yardId).length = 0 ∨
      0 < (s.rolesOf yardId).countP fun a => decide (a.role = .owner) := by
    cases hroles : s.rolesOf yardId with
    | nil => exact Or.inl rfl
    | cons a rest =>
      obtain ⟨hmem, hyard⟩ := mem_rolesOf.mp (hroles ▸ List.mem_cons_self : a ∈ s.rolesOf yardId)
      obtain ⟨o, ho, hoyard, howner⟩ := h.owned a hmem
      refine Or.inr (List.countP_pos_iff.mpr ⟨o, ?_, decide_eq_true howner⟩)
      rw [← hroles]
      exact mem_rolesOf.mpr ⟨ho, hoyard.trans hyard⟩
  simp only [Repository.validateState, htake, bind_eq_ok, pure_eq_ok, ensure_eq_ok]
  exact ⟨_, (), ⟨hbound, howners, List.countP_le_length⟩, rfl⟩

/-- A new assignment within the limit, which is an owner when it is the first of its yard. -/
theorem storedRoles_insert {a : YardManagementRoleAssignment}
    {roles : Table fun a : YardManagementRoleAssignment => (a.yardId, a.userId)}
    (h : StoredRoles s) (hroles : s.yardManagementRoles.Inserted roles a)
    (hvalid : ValidAssignment a)
    (hlimit : (s.rolesOf a.yardId).length < maximumYardManagementRoles)
    (hfirst : (s.rolesOf a.yardId).length = 0 → a.role = .owner)
    (hs : s'.yardManagementRoles = roles) : StoredRoles s' := by
  subst hs
  refine ⟨fun b hb => ?_, fun b hb => ?_, fun yardId => ?_⟩
  -- the new row was validated
  · rcases (hroles.mem b).mp hb with hold | rfl
    · exact h.rows b hold
    · exact hvalid
  -- the yard has an owner already, or this first assignment is one
  · rcases (hroles.mem b).mp hb with hold | rfl
    · obtain ⟨o, ho, hyard, howner⟩ := h.owned b hold
      exact ⟨o, hroles.mem_of_mem ho, hyard, howner⟩
    · rcases Nat.eq_zero_or_pos (s.rolesOf b.yardId).length with hnone | hsome
      · exact ⟨b, hroles.mem_new, rfl, hfirst hnone⟩
      · obtain ⟨c, hc⟩ := List.exists_mem_of_length_pos hsome
        obtain ⟨hmem, hyard⟩ := mem_rolesOf.mp hc
        obtain ⟨o, ho, hoyard, howner⟩ := h.owned c hmem
        exact ⟨o, hroles.mem_of_mem ho, hoyard.trans hyard, howner⟩
  -- one more assignment, below the limit
  · have hsum := hroles.sum fun b => if b.yardId = yardId then 1 else 0
    have hbound := h.bounded yardId
    rw [ManagementRoles.length_rolesOf] at hbound ⊢
    rw [ManagementRoles.length_rolesOf] at hlimit
    rw [hsum]
    split
    · rename_i hyard
      rw [hyard] at hlimit
      exact hlimit
    · exact hbound

/-- An assignment whose role changes, where an owner besides it is left or it is one. -/
theorem storedRoles_change {previous a : YardManagementRoleAssignment}
    {roles : Table fun a : YardManagementRoleAssignment => (a.yardId, a.userId)}
    (h : StoredRoles s) (hroles : s.yardManagementRoles.Replaced roles previous a)
    (hvalid : ValidAssignment a)
    (hother : previous.role = .owner → a.role ≠ .owner →
      ∃ b ∈ s.yardManagementRoles, b.yardId = a.yardId ∧ b.role = .owner ∧ b.userId ≠ a.userId)
    (hs : s'.yardManagementRoles = roles) : StoredRoles s' := by
  subst hs
  obtain ⟨hyardId, huserId⟩ := Prod.ext_iff.mp hroles.key_eq
  simp only at hyardId huserId
  -- an owner of the yard before the change leads to one after it
  have howner : ∀ o ∈ s.yardManagementRoles, o.role = .owner →
      ∃ o' ∈ s'.yardManagementRoles, o'.yardId = o.yardId ∧ o'.role = .owner := by
    intro o ho hrole
    by_cases hprevious : o = previous
    · subst hprevious
      by_cases hkept : a.role = .owner
      · exact ⟨a, hroles.mem_new, hyardId, hkept⟩
      · obtain ⟨b, hb, hbyard, hbowner, hne⟩ := hother hrole hkept
        refine ⟨b, (hroles.mem b).mpr (Or.inl ⟨hb, ?_⟩), hbyard.trans hyardId, hbowner⟩
        rintro rfl
        exact hne huserId.symm
    · exact ⟨o, (hroles.mem o).mpr (Or.inl ⟨ho, hprevious⟩), rfl, hrole⟩
  refine ⟨fun b hb => ?_, fun b hb => ?_, fun yardId => ?_⟩
  · rcases (hroles.mem b).mp hb with ⟨hold, -⟩ | rfl
    · exact h.rows b hold
    · exact hvalid
  · obtain ⟨c, hc, hcb⟩ : ∃ c ∈ s.yardManagementRoles, c.yardId = b.yardId := by
      rcases (hroles.mem b).mp hb with ⟨hold, -⟩ | rfl
      · exact ⟨b, hold, rfl⟩
      · exact ⟨previous, hroles.mem_old, hyardId.symm⟩
    obtain ⟨o, ho, hoyard, hrole⟩ := h.owned c hc
    obtain ⟨o', ho', hoyard', hrole'⟩ := howner o ho hrole
    exact ⟨o', ho', hoyard'.trans (hoyard.trans hcb), hrole'⟩
  · have hsum := hroles.sum fun b => if b.yardId = yardId then 1 else 0
    have hbound := h.bounded yardId
    rw [ManagementRoles.length_rolesOf] at hbound ⊢
    rw [hyardId] at hsum
    omega

/-- An assignment that goes, where an owner besides it is left if it is one. -/
theorem storedRoles_remove {previous : YardManagementRoleAssignment} {yardId userId : String}
    (h : StoredRoles s) (hmem : previous ∈ s.yardManagementRoles)
    (hyard : previous.yardId = yardId) (huser : previous.userId = userId)
    (hother : previous.role = .owner →
      ∃ b ∈ s.yardManagementRoles, b.yardId = yardId ∧ b.role = .owner ∧ b.userId ≠ userId)
    (hs : s'.yardManagementRoles = s.yardManagementRoles.erase fun a =>
      a.yardId = yardId ∧ a.userId = userId) : StoredRoles s' := by
  have hmem' : ∀ b, b ∈ s'.yardManagementRoles ↔
      b ∈ s.yardManagementRoles ∧ ¬(b.yardId = yardId ∧ b.userId = userId) := by
    intro b
    rw [hs, Table.mem_erase]
  refine ⟨fun b hb => h.rows b ((hmem' b).mp hb).1, fun b hb => ?_, fun yardId' => ?_⟩
  · obtain ⟨o, ho, hob, howner⟩ := h.owned b ((hmem' b).mp hb).1
    by_cases hgone : o.yardId = yardId ∧ o.userId = userId
    · have hprevious : o = previous :=
        Table.eq_of_key ho hmem (Prod.ext (hgone.1.trans hyard.symm) (hgone.2.trans huser.symm))
      obtain ⟨o', ho', hoy', howner', hne⟩ := hother (hprevious ▸ howner)
      exact ⟨o', (hmem' o').mpr ⟨ho', fun hg => hne hg.2⟩, hoy'.trans (hgone.1.symm.trans hob),
        howner'⟩
    · exact ⟨o, (hmem' o).mpr ⟨ho, hgone⟩, hob, howner⟩
  · refine le_trans (List.Sublist.length_le ?_) (h.bounded yardId')
    rw [rolesOf, hs]
    exact List.filter_sublist.filter _

/-- The requests on users, roles and yards leave assignments that can be read. -/
theorem storedRoles_exec [Unicode] {request : ManagementRoles.Request} (h : StoredRoles s) :
    StoredRoles (ManagementRoles.exec s request) := by
  unfold ManagementRoles.exec
  cases hrun : request.run s with
  | error e => exact h
  | ok s' =>
    cases request with
    | createUser user key event =>
      obtain ⟨_, _, _, _, rfl, -⟩ := createLocalUser_spec hrun
      -- the roles are in none of the tables of users and keys
      exact h.congr rfl
    | resetKey key nowMs event =>
      obtain ⟨_, _, rfl, -⟩ := resetLocalUserLoginKey_spec hrun
      exact h.congr rfl
    | authenticateUser secretHash nowMs =>
      simp only [ManagementRoles.Request.run, map_eq_ok] at hrun
      obtain ⟨⟨_, _⟩, hrun, rfl⟩ := hrun
      obtain ⟨_, rfl⟩ := authenticateLocalUserKey_spec hrun
      exact h.congr rfl
    | deactivateUser userId nowMs event =>
      obtain ⟨_, _, _, _, _, _, rfl, -⟩ := deactivateLocalUser_spec hrun
      exact h.congr rfl
    | setRole yardId userId role nowMs event =>
      simp only [ManagementRoles.Request.run, map_eq_ok] at hrun
      obtain ⟨⟨a, _⟩, hrun, rfl⟩ := hrun
      have hvalid := setYardManagementRole_valid hrun
      obtain ⟨yard, _, _, rfl, -, -, -, -, rfl, rfl, rfl, hcases⟩ := setYardManagementRole_spec hrun
      -- set for the first time, or changed
      rcases hcases with ⟨hroles, -, hlimit, hfirst⟩ | ⟨previous, hroles, -, hother⟩
      · exact storedRoles_insert h hroles hvalid hlimit hfirst rfl
      · exact storedRoles_change h hroles hvalid hother rfl
    | revokeRole yardId userId nowMs event =>
      obtain ⟨previous, _, rfl, hmem, hyard, huser, hother, -⟩ := revokeYardManagementRole_spec hrun
      exact storedRoles_remove h hmem hyard huser hother rfl
    | yard request =>
      obtain ⟨_, _, _, _, _, _, _, rfl, -⟩ := YardRequest.hosting hrun
      exact h.congr rfl
    | environment other =>
      simp only [ManagementRoles.Request.run, Except.ok.injEq] at hrun
      subst hrun
      exact h.congr rfl

end Roles

end StoredRows

end BlobYard
