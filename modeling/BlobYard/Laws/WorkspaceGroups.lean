/-
Counters and limits of the workspace groups.

Four components change what a group amounts to: the group operations, the grants, the guest
invitations and the deactivation of a user.  The counter of a group is never recomputed, so each
of them has to move it by exactly the rows it touches.

* `Grouped` — the invariant: counters, memberships and the five limits;
* `grouped_exec` — every request keeps it;
* `GroupRequest.Applied` — the row changes and the audit event of a group operation;
* `group_law` — the law over runs.
-/
import BlobYard.Lib.Run
import BlobYard.Repository.YardGuests
import BlobYard.Repository.YardRequests
import BlobYard.Repository.LocalUsers

namespace BlobYard

open Outcome Repository

namespace WorkspaceGroups

/-! ### Requests and runs -/

/-- The group operations. -/
inductive GroupRequest where
  | create (group : WorkspaceGroupRecord) (event : NewAuditEvent)
  | rename (workspaceId groupId name : String) (event : NewAuditEvent)
  | deactivate (workspaceId groupId : String) (nowMs : ℕ) (event : NewAuditEvent)
  | addMember (member : WorkspaceGroupMemberRecord) (event : NewAuditEvent)
  | removeMember (workspaceId groupId userId : String) (event : NewAuditEvent)

/-- The requests on groups, users, grants and invitations, or any other change of the remaining
tables. -/
inductive Request where
  | group (request : GroupRequest)
  | createUser (user : LocalUserRecord) (key : LocalUserLoginKeyRecord) (event : NewAuditEvent)
  | deactivateUser (userId : String) (nowMs : ℕ) (event : NewAuditEvent)
  | insertGrant (grant : NewYardAccessGrant) (event : NewAuditEvent)
  | revokeGrant (yardId grantId : String) (revokedAtMs : ℕ) (event : NewAuditEvent)
  | setRoles (yardId grantId : String) (appRoles : List String) (nowMs : ℕ)
    (event : NewAuditEvent)
  | createInvite (invitation : NewYardGuestInvite) (grant : NewYardAccessGrant)
    (event : NewAuditEvent)
  | revokeInvite (yardId invitationId : String) (nowMs : ℕ) (event : NewAuditEvent)
  | environment (other : Repository)

section Requests

variable [Unicode] [JsonWriter]

def GroupRequest.run (s : Repository) : GroupRequest → Except RepositoryError Repository
  | .create group event => s.createWorkspaceGroup group event
  | .rename workspaceId groupId name event =>
    Prod.snd <$> s.renameWorkspaceGroup workspaceId groupId name event
  | .deactivate workspaceId groupId nowMs event =>
    s.deactivateWorkspaceGroup workspaceId groupId nowMs event
  | .addMember member event => s.addWorkspaceGroupMember member event
  | .removeMember workspaceId groupId userId event =>
    s.removeWorkspaceGroupMember workspaceId groupId userId event

def Request.run (s : Repository) : Request → Except RepositoryError Repository
  | .group request => request.run s
  | .createUser user key event => s.createLocalUser user key event
  | .deactivateUser userId nowMs event => s.deactivateLocalUser userId nowMs event
  | .insertGrant grant event => Prod.snd <$> s.insertYardAccessGrant grant event
  | .revokeGrant yardId grantId revokedAtMs event =>
    Prod.snd <$> s.revokeYardAccessGrant yardId grantId revokedAtMs event
  | .setRoles yardId grantId appRoles nowMs event =>
    Prod.snd <$> s.setYardAccessRoles yardId grantId appRoles nowMs event
  | .createInvite invitation grant event =>
    Prod.snd <$> s.createYardGuestInvite invitation grant event
  | .revokeInvite yardId invitationId nowMs event =>
    Prod.snd <$> s.revokeYardGuestInvite yardId invitationId nowMs event
  | .environment other =>
    .ok { other with
      localUsers := s.localUsers, workspaceGroups := s.workspaceGroups
      workspaceGroupMembers := s.workspaceGroupMembers, yardAccessGrants := s.yardAccessGrants }

/-- A request that fails leaves everything as it was. -/
def exec (s : Repository) (request : Request) : Repository :=
  match request.run s with
  | .ok s' => s'
  | .error _ => s

/-- Requests in any order, from an empty repository. -/
def system : System Repository Request where
  init := Repository.empty
  step s request s' := s' = exec s request

end Requests

/-! ### The invariant -/

/-- The row is a member of the group. -/
def MemberOf (groupId : String) (m : WorkspaceGroupMemberRecord) : Prop := m.groupId = groupId

/-- The row is a membership of the user. -/
def MembershipOf (userId : String) (m : WorkspaceGroupMemberRecord) : Prop := m.userId = userId

/-- The row is an active group of the workspace. -/
def ActiveIn (workspaceId : String) (g : WorkspaceGroupRecord) : Prop :=
  g.workspaceId = workspaceId ∧ g.status = .active

instance (groupId : String) : DecidablePred (MemberOf groupId) :=
  fun m => inferInstanceAs (Decidable (m.groupId = groupId))

instance (userId : String) : DecidablePred (MembershipOf userId) :=
  fun m => inferInstanceAs (Decidable (m.userId = userId))

instance (workspaceId : String) : DecidablePred (ActiveIn workspaceId) :=
  fun g => inferInstanceAs (Decidable (g.workspaceId = workspaceId ∧ g.status = .active))

/-- Counters count, members are active users of active groups, and the five limits hold. -/
structure Grouped (s : Repository) : Prop where
  counted : ∀ g ∈ s.workspaceGroups, g.memberCount = s.workspaceGroupMembers.count (MemberOf g.id)
  sized : ∀ g ∈ s.workspaceGroups, g.memberCount ≤ maximumGroupMembers
  active : ∀ m ∈ s.workspaceGroupMembers,
    ∃ g ∈ s.workspaceGroups, g.id = m.groupId ∧ ActiveIn m.workspaceId g
  users : ∀ m ∈ s.workspaceGroupMembers, s.ActiveUser m.workspaceId m.userId
  memberships : ∀ userId,
    s.workspaceGroupMembers.count (MembershipOf userId) ≤ maximumUserGroups
  groups : ∀ workspaceId, s.workspaceGroups.count (ActiveIn workspaceId) ≤ maximumActiveGroups
  grants : ∀ groupId, s.yardAccessGrants.count (ActiveGroupGrant groupId) ≤ maximumActiveGroupGrants
  closed : ∀ g ∈ s.workspaceGroups, g.status = .deactivated →
    s.yardAccessGrants.count (ActiveGroupGrant g.id) = 0

theorem grouped_init : Grouped Repository.empty where
  counted _ h := absurd h Table.not_mem_empty
  sized _ h := absurd h Table.not_mem_empty
  active _ h := absurd h Table.not_mem_empty
  users _ h := absurd h Table.not_mem_empty
  memberships _ := Nat.zero_le _
  groups _ := Nat.zero_le _
  grants _ := Nat.zero_le _
  closed _ h := absurd h Table.not_mem_empty

variable {s s' : Repository}

/-- A user stays active when users come. -/
theorem activeUser_mono (hu : ∀ u ∈ s.localUsers, u ∈ s'.localUsers) {workspaceId userId : String}
    (h : s.ActiveUser workspaceId userId) : s'.ActiveUser workspaceId userId := by
  obtain ⟨u, hmem, hactive⟩ := h
  exact ⟨u, hu u hmem, hactive⟩

/-! ### Users and grants -/

/-- Users come without harm. -/
theorem grouped_createUser (h : Grouped s) (hu : ∀ u ∈ s.localUsers, u ∈ s'.localUsers)
    (hs : s'.workspaceGroups = s.workspaceGroups ∧
      s'.workspaceGroupMembers = s.workspaceGroupMembers ∧
      s'.yardAccessGrants = s.yardAccessGrants) : Grouped s' := by
  obtain ⟨hg, hm, ha⟩ := hs
  refine ⟨?_, ?_, ?_, ?_, ?_, ?_, ?_, ?_⟩
  · rw [hg, hm]
    exact h.counted
  · rw [hg]
    exact h.sized
  · rw [hg, hm]
    exact h.active
  · rw [hm]
    exact fun m hmem => activeUser_mono hu (h.users m hmem)
  · rw [hm]
    exact h.memberships
  · rw [hg]
    exact h.groups
  · rw [ha]
    exact h.grants
  · rw [hg, ha]
    exact h.closed

/-- A change of the grants that adds no active grant to a group. -/
theorem grouped_grants {grants : Table YardAccessGrantRecord.id} (h : Grouped s)
    (hle : ∀ groupId, grants.count (ActiveGroupGrant groupId) ≤
      s.yardAccessGrants.count (ActiveGroupGrant groupId))
    (hs : s'.localUsers = s.localUsers ∧ s'.workspaceGroups = s.workspaceGroups ∧
      s'.workspaceGroupMembers = s.workspaceGroupMembers ∧
      s'.yardAccessGrants = grants) : Grouped s' := by
  obtain ⟨hu, hg, hm, rfl⟩ := hs
  refine ⟨?_, ?_, ?_, ?_, ?_, ?_, ?_, ?_⟩
  -- the groups, their members and the users are the old ones
  · rw [hg, hm]
    exact h.counted
  · rw [hg]
    exact h.sized
  · rw [hg, hm]
    exact h.active
  · rw [hm]
    exact fun m hmem => activeUser_mono (fun u => hu.symm ▸ id) (h.users m hmem)
  · rw [hm]
    exact h.memberships
  · rw [hg]
    exact h.groups
  -- only the grants are others, and no group has more of them
  · exact fun groupId => (hle groupId).trans (h.grants groupId)
  -- a deactivated group had no active grant and gets none
  · rw [hg]
    intro g hmem hstatus
    have hzero := h.closed g hmem hstatus
    have hless := hle g.id
    omega

/-- A new grant of an admissible principal. -/
theorem grouped_insertGrant {yard : WebYardRecord} {record : YardAccessGrantRecord}
    {grants : Table YardAccessGrantRecord.id} (h : Grouped s)
    (hgrants : s.yardAccessGrants.Inserted grants record)
    (hprincipal : AdmissiblePrincipal s yard record)
    (hs : s'.localUsers = s.localUsers ∧ s'.workspaceGroups = s.workspaceGroups ∧
      s'.workspaceGroupMembers = s.workspaceGroupMembers ∧
      s'.yardAccessGrants = grants) : Grouped s' := by
  obtain ⟨hu, hg, hm, rfl⟩ := hs
  refine ⟨?_, ?_, ?_, ?_, ?_, ?_, ?_, ?_⟩
  · rw [hg, hm]
    exact h.counted
  · rw [hg]
    exact h.sized
  · rw [hg, hm]
    exact h.active
  · rw [hm]
    exact fun m hmem => activeUser_mono (fun u => hu.symm ▸ id) (h.users m hmem)
  · rw [hm]
    exact h.memberships
  · rw [hg]
    exact h.groups
  · intro groupId
    rw [hgrants.count (ActiveGroupGrant groupId)]
    have hold := h.grants groupId
    split
    · rename_i hgroup
      obtain ⟨hkind, rfl, -⟩ := hgroup
      have hroom := (hprincipal.group hkind).2
      omega
    · exact hold
  · rw [hg]
    intro g hmem hstatus
    rw [hgrants.count (ActiveGroupGrant g.id), h.closed g hmem hstatus]
    split
    · rename_i hgroup
      obtain ⟨hkind, hid, -⟩ := hgroup
      -- the group of the grant is active, so it is not this one
      obtain ⟨⟨g', hmem', hid', -, hactive⟩, -⟩ := hprincipal.group hkind
      obtain rfl := Table.eq_of_key hmem' hmem (hid'.trans hid)
      rw [hstatus] at hactive
      cases hactive
    · rfl

/-! ### Groups -/

/-- A new group, below the limit of its workspace and without grants. -/
theorem grouped_createGroup {group : WorkspaceGroupRecord} {groups : Table WorkspaceGroupRecord.id}
    (h : Grouped s) (hgroups : s.workspaceGroups.Inserted groups group)
    (hactive : group.status = .active) (hempty : group.memberCount = 0)
    (hlimit : s.workspaceGroups.count (ActiveIn group.workspaceId) < maximumActiveGroups)
    (hs : s'.localUsers = s.localUsers ∧ s'.workspaceGroups = groups ∧
      s'.workspaceGroupMembers = s.workspaceGroupMembers ∧
      s'.yardAccessGrants = s.yardAccessGrants) : Grouped s' := by
  obtain ⟨hu, rfl, hm, ha⟩ := hs
  refine ⟨?_, ?_, ?_, ?_, ?_, ?_, ?_, ?_⟩
  · intro g hg
    rw [hm]
    rcases (hgroups.mem g).mp hg with hg | rfl
    · exact h.counted g hg
    -- a member row would belong to a group that has the identifier already
    · have hnone : s.workspaceGroupMembers.count (MemberOf g.id) = 0 := by
        refine (Table.count_eq_zero _).mpr fun m hmem hmember => ?_
        obtain ⟨g', hg', hid, -⟩ := h.active m hmem
        exact hgroups.fresh g' hg' (hid.trans hmember)
      rw [hempty, hnone]
  · intro g hg
    rcases (hgroups.mem g).mp hg with hg | rfl
    · exact h.sized g hg
    · rw [hempty]
      exact Nat.zero_le _
  · rw [hm]
    intro m hmem
    obtain ⟨g, hg, hactive⟩ := h.active m hmem
    exact ⟨g, hgroups.mem_of_mem hg, hactive⟩
  · rw [hm]
    exact fun m hmem => activeUser_mono (fun u => hu.symm ▸ id) (h.users m hmem)
  · rw [hm]
    exact h.memberships
  -- one more active group, if the new one is of this workspace
  · intro workspaceId
    rw [hgroups.count (ActiveIn workspaceId)]
    split
    · rename_i hin
      rw [hin.1] at hlimit
      exact hlimit
    · exact h.groups workspaceId
  · rw [ha]
    exact h.grants
  · rw [ha]
    intro g hg hstatus
    rcases (hgroups.mem g).mp hg with hg | rfl
    · exact h.closed g hg hstatus
    · rw [hactive] at hstatus
      cases hstatus

/-- A group that keeps its place keeps the groups as they are, as far as workspaces and states
are concerned. -/
structure Rewritten (groups groups' : Table WorkspaceGroupRecord.id) : Prop where
  active : ∀ workspaceId groupId, (∃ g ∈ groups, g.id = groupId ∧ ActiveIn workspaceId g) →
    ∃ g ∈ groups', g.id = groupId ∧ ActiveIn workspaceId g
  count : ∀ workspaceId, groups'.count (ActiveIn workspaceId) = groups.count (ActiveIn workspaceId)
  deactivated : ∀ g' ∈ groups', g'.status = .deactivated →
    ∃ g ∈ groups, g.id = g'.id ∧ g.status = .deactivated

theorem rewritten_of_replaced {groups groups' : Table WorkspaceGroupRecord.id}
    {r r' : WorkspaceGroupRecord} (h : groups.Replaced groups' r r')
    (hworkspace : r'.workspaceId = r.workspaceId) (hstatus : r'.status = r.status) :
    Rewritten groups groups' where
  active := by
    rintro workspaceId groupId ⟨g, hg, hid, hin⟩
    by_cases hgr : g = r
    · subst hgr
      exact ⟨r', h.mem_new, h.key_eq.trans hid, hworkspace.trans hin.1, hstatus.trans hin.2⟩
    · exact ⟨g, (h.mem g).mpr (Or.inl ⟨hg, hgr⟩), hid, hin⟩
  count workspaceId := by
    have hcount := h.count (ActiveIn workspaceId)
    have hsame : ActiveIn workspaceId r' ↔ ActiveIn workspaceId r := by
      rw [ActiveIn, ActiveIn, hworkspace, hstatus]
    simp only [hsame] at hcount
    omega
  deactivated g' hg' hdeactivated := by
    rcases (h.mem g').mp hg' with ⟨hg', -⟩ | rfl
    · exact ⟨g', hg', rfl, hdeactivated⟩
    · exact ⟨r, h.mem_old, h.key_eq.symm, hstatus.symm.trans hdeactivated⟩

/-- A group is renamed. -/
theorem grouped_renameGroup {group : WorkspaceGroupRecord} {name : String}
    {groups : Table WorkspaceGroupRecord.id} (h : Grouped s)
    (hgroups : s.workspaceGroups.Replaced groups group { group with name })
    (hs : s'.localUsers = s.localUsers ∧ s'.workspaceGroups = groups ∧
      s'.workspaceGroupMembers = s.workspaceGroupMembers ∧
      s'.yardAccessGrants = s.yardAccessGrants) : Grouped s' := by
  obtain ⟨hu, rfl, hm, ha⟩ := hs
  have hrewritten := rewritten_of_replaced hgroups rfl rfl
  refine ⟨?_, ?_, ?_, ?_, ?_, ?_, ?_, ?_⟩
  -- a new name changes no count
  · intro g hg
    rw [hm]
    rcases (hgroups.mem g).mp hg with ⟨hg, -⟩ | rfl
    · exact h.counted g hg
    · exact h.counted group hgroups.mem_old
  · intro g hg
    rcases (hgroups.mem g).mp hg with ⟨hg, -⟩ | rfl
    · exact h.sized g hg
    · exact h.sized group hgroups.mem_old
  · rw [hm]
    exact fun m hmem => hrewritten.active _ _ (h.active m hmem)
  · rw [hm]
    exact fun m hmem => activeUser_mono (fun u => hu.symm ▸ id) (h.users m hmem)
  · rw [hm]
    exact h.memberships
  -- there are as many active groups as before
  · intro workspaceId
    rw [hrewritten.count]
    exact h.groups workspaceId
  · rw [ha]
    exact h.grants
  -- a group that is deactivated was so before
  · rw [ha]
    intro g' hg' hstatus
    obtain ⟨g, hg, hid, hdeactivated⟩ := hrewritten.deactivated g' hg' hstatus
    exact hid ▸ h.closed g hg hdeactivated

/-- A member comes and is counted. -/
theorem grouped_addMember {member : WorkspaceGroupMemberRecord} {group : WorkspaceGroupRecord}
    {groups : Table WorkspaceGroupRecord.id}
    {members : Table fun m : WorkspaceGroupMemberRecord => (m.groupId, m.userId)} (h : Grouped s)
    (hid : group.id = member.groupId) (hin : ActiveIn member.workspaceId group)
    (hroom : group.memberCount < maximumGroupMembers)
    (hgroups : s.workspaceGroups.Replaced groups group
      { group with memberCount := group.memberCount + 1 })
    (hmembers : s.workspaceGroupMembers.Inserted members member)
    (huser : s.ActiveUser member.workspaceId member.userId)
    (hlimit : s.workspaceGroupMembers.count (MembershipOf member.userId) < maximumUserGroups)
    (hs : s'.localUsers = s.localUsers ∧ s'.workspaceGroups = groups ∧
      s'.workspaceGroupMembers = members ∧ s'.yardAccessGrants = s.yardAccessGrants) :
    Grouped s' := by
  obtain ⟨hu, rfl, rfl, ha⟩ := hs
  have hrewritten := rewritten_of_replaced hgroups rfl rfl
  have hactive : ∀ {workspaceId userId : String}, s.ActiveUser workspaceId userId →
      s'.ActiveUser workspaceId userId := activeUser_mono fun u => hu.symm ▸ id
  refine ⟨?_, ?_, ?_, ?_, ?_, ?_, ?_, ?_⟩
  -- the group of the member has one more, in its count as in its rows
  · intro g hg
    rw [hmembers.count (MemberOf g.id)]
    rcases (hgroups.mem g).mp hg with ⟨hold, hne⟩ | rfl
    · have hother : ¬MemberOf g.id member := fun hmember =>
        hne (Table.eq_of_key hold hgroups.mem_old (hmember.symm.trans hid.symm))
      rw [if_neg hother]
      exact h.counted g hold
    · have hmember : MemberOf group.id member := hid.symm
      show group.memberCount + 1 = s.workspaceGroupMembers.count (MemberOf group.id) +
        if MemberOf group.id member then 1 else 0
      rw [if_pos hmember, ← h.counted group hgroups.mem_old]
  · intro g hg
    rcases (hgroups.mem g).mp hg with ⟨hold, -⟩ | rfl
    · exact h.sized g hold
    · exact hroom
  -- the new member is in an active group
  · intro m hm
    rcases (hmembers.mem m).mp hm with hold | rfl
    · exact hrewritten.active _ _ (h.active m hold)
    · exact hrewritten.active _ _ ⟨group, hgroups.mem_old, hid, hin⟩
  · intro m hm
    rcases (hmembers.mem m).mp hm with hold | rfl
    · exact hactive (h.users m hold)
    · exact hactive huser
  -- the memberships of the user were below the limit
  · intro userId
    rw [hmembers.count (MembershipOf userId)]
    have hold := h.memberships userId
    split
    · rename_i hsame
      rw [← hsame]
      exact hlimit
    · exact hold
  · intro workspaceId
    rw [hrewritten.count]
    exact h.groups workspaceId
  · rw [ha]
    exact h.grants
  · rw [ha]
    intro g' hg' hstatus
    obtain ⟨g, hg, hgid, hdeactivated⟩ := hrewritten.deactivated g' hg' hstatus
    exact hgid ▸ h.closed g hg hdeactivated

/-- A member goes and is counted out. -/
theorem grouped_removeMember {member : WorkspaceGroupMemberRecord} {group : WorkspaceGroupRecord}
    {groups : Table WorkspaceGroupRecord.id}
    {members : Table fun m : WorkspaceGroupMemberRecord => (m.groupId, m.userId)} (h : Grouped s)
    (hid : group.id = member.groupId)
    (hgroups : s.workspaceGroups.Replaced groups group
      { group with memberCount := group.memberCount - 1 })
    (hmembers : s.workspaceGroupMembers.Removed members member)
    (hs : s'.localUsers = s.localUsers ∧ s'.workspaceGroups = groups ∧
      s'.workspaceGroupMembers = members ∧ s'.yardAccessGrants = s.yardAccessGrants) :
    Grouped s' := by
  obtain ⟨hu, rfl, rfl, ha⟩ := hs
  have hrewritten := rewritten_of_replaced hgroups rfl rfl
  refine ⟨?_, ?_, ?_, ?_, ?_, ?_, ?_, ?_⟩
  -- the group of the member has one fewer, in its count as in its rows
  · intro g hg
    rcases (hgroups.mem g).mp hg with ⟨hold, hne⟩ | rfl
    · have hcount := hmembers.count (MemberOf g.id)
      have hother : ¬MemberOf g.id member := fun hmember =>
        hne (Table.eq_of_key hold hgroups.mem_old (hmember.symm.trans hid.symm))
      rw [if_neg hother] at hcount
      rw [h.counted g hold, ← hcount, Nat.add_zero]
    · have hcount := hmembers.count (MemberOf group.id)
      have hgroup := h.counted group hgroups.mem_old
      have hmember : MemberOf group.id member := hid.symm
      rw [if_pos hmember] at hcount
      show group.memberCount - 1 = s'.workspaceGroupMembers.count (MemberOf group.id)
      omega
  · intro g hg
    rcases (hgroups.mem g).mp hg with ⟨hold, -⟩ | rfl
    · exact h.sized g hold
    · exact (Nat.sub_le _ _).trans (h.sized group hgroups.mem_old)
  · intro m hm
    exact hrewritten.active _ _ (h.active m ((hmembers.mem m).mp hm).1)
  · intro m hm
    exact activeUser_mono (fun u => hu.symm ▸ id) (h.users m ((hmembers.mem m).mp hm).1)
  -- no user is in more groups than before
  · intro userId
    have hcount := hmembers.count (MembershipOf userId)
    have hold := h.memberships userId
    omega
  · intro workspaceId
    rw [hrewritten.count]
    exact h.groups workspaceId
  · rw [ha]
    exact h.grants
  · rw [ha]
    intro g' hg' hstatus
    obtain ⟨g, hg, hgid, hdeactivated⟩ := hrewritten.deactivated g' hg' hstatus
    exact hgid ▸ h.closed g hg hdeactivated

/-- A group is closed: its members and its active grants go with it. -/
theorem grouped_deactivateGroup {group : WorkspaceGroupRecord} {nowMs : ℕ}
    {groups : Table WorkspaceGroupRecord.id} (h : Grouped s)
    (hgroups : s.workspaceGroups.Replaced groups group
      { group with status := .deactivated, memberCount := 0, deactivatedAtMs := some nowMs })
    (hs : s'.localUsers = s.localUsers ∧ s'.workspaceGroups = groups ∧
      s'.workspaceGroupMembers = (s.workspaceGroupMembers.erase fun m =>
        m.groupId = group.id ∧ m.workspaceId = group.workspaceId) ∧
      s'.yardAccessGrants = s.yardAccessGrants.update (ActiveGroupGrant group.id)
        fun grant => { grant with status := .revoked, revokedAtMs := some nowMs }) :
    Grouped s' := by
  obtain ⟨hu, rfl, hm, ha⟩ := hs
  -- every member of the group goes, since a member has the workspace of its group
  have hmem : ∀ m, m ∈ s'.workspaceGroupMembers ↔
      m ∈ s.workspaceGroupMembers ∧ m.groupId ≠ group.id := by
    intro m
    rw [hm, Table.mem_erase]
    refine and_congr_right fun hmem => not_congr ⟨And.left, fun hgroup => ⟨hgroup, ?_⟩⟩
    obtain ⟨g, hg, hid, hworkspace, -⟩ := h.active m hmem
    obtain rfl := Table.eq_of_key hg hgroups.mem_old (hid.trans hgroup)
    exact hworkspace.symm
  have hgrants : ∀ groupId, s'.yardAccessGrants.count (ActiveGroupGrant groupId) =
      if groupId = group.id then 0
      else s.yardAccessGrants.count (ActiveGroupGrant groupId) := by
    intro groupId
    rw [ha, Table.count_eq_sumBy]
    split
    · rename_i hgroup
      subst hgroup
      refine Table.sumBy_eq_zero fun grant hgrant => if_neg ?_
      obtain ⟨old, -, rfl⟩ := Table.mem_update.mp hgrant
      split
      · rintro ⟨-, -, hactive⟩
        cases hactive
      · assumption
    · rename_i hgroup
      rw [Table.count_eq_sumBy]
      refine Table.sumBy_update_same fun grant _ hgrant => ?_
      have hother : ∀ grant' : YardAccessGrantRecord, grant'.principalId = group.id →
          ¬ActiveGroupGrant groupId grant' :=
        fun _ hprincipal hactive => hgroup (hactive.2.1.symm.trans hprincipal)
      have hrevoked := hother { grant with status := .revoked, revokedAtMs := some nowMs } hgrant.2.1
      exact (if_neg hrevoked).trans (if_neg (hother grant hgrant.2.1)).symm
  refine ⟨?_, ?_, ?_, ?_, ?_, ?_, ?_, ?_⟩
  · intro g hg
    rcases (hgroups.mem g).mp hg with ⟨hold, hne⟩ | rfl
    · rw [h.counted g hold, hm, Table.count_eq_sumBy, Table.count_eq_sumBy]
      refine (Table.sumBy_erase_same fun m hmember hgone => if_neg fun hin => hne ?_).symm
      exact Table.eq_of_key hold hgroups.mem_old (hin.symm.trans hgone.1)
    · exact ((Table.count_eq_zero _).mpr fun m hmember => ((hmem m).mp hmember).2).symm
  · intro g hg
    rcases (hgroups.mem g).mp hg with ⟨hold, -⟩ | rfl
    · exact h.sized g hold
    · exact Nat.zero_le _
  · intro m hmember
    obtain ⟨hold, hother⟩ := (hmem m).mp hmember
    obtain ⟨g, hg, hid, hin⟩ := h.active m hold
    refine ⟨g, (hgroups.mem g).mpr (Or.inl ⟨hg, ?_⟩), hid, hin⟩
    rintro rfl
    exact hother hid.symm
  · intro m hmember
    exact activeUser_mono (fun u => hu.symm ▸ id) (h.users m ((hmem m).mp hmember).1)
  · intro userId
    rw [hm]
    exact (Table.count_erase_le _).trans (h.memberships userId)
  · intro workspaceId
    refine (hgroups.count_le _ ?_).trans (h.groups workspaceId)
    rintro ⟨-, hactive⟩
    cases hactive
  · intro groupId
    rw [hgrants]
    split
    · exact Nat.zero_le _
    · exact h.grants groupId
  · intro g hg hstatus
    rw [hgrants]
    split
    · rfl
    · rename_i hother
      rcases (hgroups.mem g).mp hg with ⟨hold, -⟩ | rfl
      · exact h.closed g hold hstatus
      · exact absurd rfl hother

/-! ### A user goes -/

/-- The members of a group without those of the user, who is counted in the group once at most. -/
theorem count_without_user (workspaceId userId groupId : String) :
    ((s.workspaceGroupMembers.erase fun m =>
        m.workspaceId = workspaceId ∧ m.userId = userId).count (MemberOf groupId) +
      if s.HasMember workspaceId userId groupId then 1 else 0) =
    s.workspaceGroupMembers.count (MemberOf groupId) := by
  rw [Table.count_eq_sumBy, Table.count_eq_sumBy]
  split
  · rename_i hhas
    obtain ⟨m, hm, hgroup, hworkspace, huser⟩ := hhas
    have hsum := Table.sumBy_erase (t := s.workspaceGroupMembers)
      (p := fun m => m.workspaceId = workspaceId ∧ m.userId = userId)
      (g := fun m => if MemberOf groupId m then 1 else 0)
    -- the row of the user in the group is the one that goes and counts
    have hone : (s.workspaceGroupMembers.sumBy fun m =>
        if m.workspaceId = workspaceId ∧ m.userId = userId then
          if MemberOf groupId m then 1 else 0
        else 0) = 1 := by
      refine (Table.sumBy_eq_single hm fun x hx hne => ?_).trans ?_
      · split
        · rename_i hgone
          refine if_neg fun hmember => hne ?_
          exact Table.eq_of_key hx hm
            (Prod.ext (hmember.trans hgroup.symm) (hgone.2.trans huser.symm))
        · rfl
      · rw [if_pos ⟨hworkspace, huser⟩]
        exact if_pos hgroup
    rw [hone] at hsum
    exact hsum
  · rename_i hnot
    refine Table.sumBy_erase_same fun m hm hgone => if_neg fun hmember => hnot ?_
    exact ⟨m, hm, hmember, hgone.1, hgone.2⟩

/-- A user is deactivated and leaves the groups. -/
theorem grouped_deactivateUser {user : LocalUserRecord} {nowMs : ℕ}
    {users : Table LocalUserRecord.id} (h : Grouped s)
    (husers : s.localUsers.Replaced users user
      { user with status := .deactivated, deactivatedAtMs := some nowMs })
    (hs : s'.localUsers = users ∧
      s'.workspaceGroups = s.workspaceGroups.update
        (fun g => s.HasMember user.workspaceId user.id g.id)
        (fun g => { g with memberCount := g.memberCount - 1 }) ∧
      s'.workspaceGroupMembers = (s.workspaceGroupMembers.erase fun m =>
        m.workspaceId = user.workspaceId ∧ m.userId = user.id) ∧
      s'.yardAccessGrants = s.yardAccessGrants) : Grouped s' := by
  obtain ⟨rfl, hg, hm, ha⟩ := hs
  have hmem : ∀ m, m ∈ s'.workspaceGroupMembers →
      m ∈ s.workspaceGroupMembers ∧ ¬(m.workspaceId = user.workspaceId ∧ m.userId = user.id) := by
    intro m hmember
    rw [hm] at hmember
    exact Table.mem_erase.mp hmember
  -- a group keeps its identifier, its workspace and its state
  have hgroup : ∀ g' ∈ s'.workspaceGroups, ∃ g ∈ s.workspaceGroups, g.id = g'.id ∧
      g.status = g'.status ∧ g'.memberCount = g.memberCount -
        if s.HasMember user.workspaceId user.id g.id then 1 else 0 := by
    intro g' hg'
    rw [hg] at hg'
    obtain ⟨g, hmem, rfl⟩ := Table.mem_update.mp hg'
    refine ⟨g, hmem, ?_⟩
    split
    · exact ⟨rfl, rfl, rfl⟩
    · exact ⟨rfl, rfl, rfl⟩
  refine ⟨?_, ?_, ?_, ?_, ?_, ?_, ?_, ?_⟩
  · intro g' hg'
    obtain ⟨g, hmem, hid, -, hcount⟩ := hgroup g' hg'
    have hwithout := count_without_user (s := s) user.workspaceId user.id g.id
    rw [hm, ← hid, hcount, h.counted g hmem]
    omega
  · intro g' hg'
    obtain ⟨g, hmem, -, -, hcount⟩ := hgroup g' hg'
    have hold := h.sized g hmem
    omega
  · intro m hmember
    obtain ⟨g, hgmem, hid, hin⟩ := h.active m (hmem m hmember).1
    rw [hg]
    refine ⟨_, Table.mem_update.mpr ⟨g, hgmem, rfl⟩, ?_, ?_⟩
    · split
      · exact hid
      · exact hid
    · split
      · exact hin
      · exact hin
  · intro m hmember
    obtain ⟨hold, hother⟩ := hmem m hmember
    obtain ⟨u, hu, hid, hworkspace, hactive⟩ := h.users m hold
    refine ⟨u, (husers.mem u).mpr (Or.inl ⟨hu, ?_⟩), hid, hworkspace, hactive⟩
    rintro rfl
    exact hother ⟨hworkspace.symm, hid.symm⟩
  · intro userId
    rw [hm]
    exact (Table.count_erase_le _).trans (h.memberships userId)
  · intro workspaceId
    refine le_trans (le_of_eq ?_) (h.groups workspaceId)
    rw [hg, Table.count_eq_sumBy, Table.count_eq_sumBy]
    exact Table.sumBy_update_same fun _ _ _ => rfl
  · rw [ha]
    exact h.grants
  · rw [ha]
    intro g' hg' hstatus
    obtain ⟨g, hgmem, hid, hsame, -⟩ := hgroup g' hg'
    exact hid ▸ h.closed g hgmem (hsame.trans hstatus)

/-! ### One request -/

section Runs

variable [Unicode]

/-- What a group operation that succeeds does: all its row changes and one audit event. -/
def GroupRequest.Applied (s s' : Repository) : GroupRequest → Prop
  | .create group event =>
    ∃ groups audits, s' = { s with workspaceGroups := groups, auditEvents := audits } ∧
      s.workspaceGroups.Inserted groups group ∧ Audited s.auditEvents audits event
  | .rename _ groupId name event =>
    ∃ group groups audits, s' = { s with workspaceGroups := groups, auditEvents := audits } ∧
      group.id = groupId ∧ s.workspaceGroups.Replaced groups group { group with name } ∧
      Audited s.auditEvents audits
        { event with metadata := event.metadata ++ [("from", .string group.name)] }
  | .deactivate workspaceId groupId nowMs event =>
    ∃ group groups audits,
      s' = { s with
        yardAccessGrants := s.yardAccessGrants.update (ActiveGroupGrant groupId)
          (fun grant => { grant with status := .revoked, revokedAtMs := some nowMs })
          (YardAccessGrantRecord.revoked_id nowMs)
        workspaceGroupMembers := s.workspaceGroupMembers.erase fun m =>
          m.groupId = groupId ∧ m.workspaceId = workspaceId
        workspaceGroups := groups
        auditEvents := audits } ∧
      group.id = groupId ∧
      s.workspaceGroups.Replaced groups group
        { group with
          status := .deactivated, memberCount := 0, deactivatedAtMs := some nowMs } ∧
      Audited s.auditEvents audits
        { event with
          metadata := event.metadata ++
            [("revokedGrantCount",
              .number (s.yardAccessGrants.count (ActiveGroupGrant groupId)))] }
  | .addMember member event =>
    ∃ group groups members audits,
      s' = { s with
        workspaceGroups := groups, workspaceGroupMembers := members, auditEvents := audits } ∧
      group.id = member.groupId ∧
      s.workspaceGroups.Replaced groups group { group with memberCount := group.memberCount + 1 } ∧
      s.workspaceGroupMembers.Inserted members member ∧ Audited s.auditEvents audits event
  | .removeMember workspaceId groupId userId event =>
    ∃ group groups members member audits,
      s' = { s with
        workspaceGroups := groups, workspaceGroupMembers := members, auditEvents := audits } ∧
      group.id = groupId ∧
      s.workspaceGroups.Replaced groups group { group with memberCount := group.memberCount - 1 } ∧
      member.groupId = groupId ∧ member.workspaceId = workspaceId ∧ member.userId = userId ∧
      s.workspaceGroupMembers.Removed members member ∧ Audited s.auditEvents audits event

omit [Unicode] in
/-- The one row of a member is what its removal deletes. -/
theorem removed_member {member : WorkspaceGroupMemberRecord} {workspaceId groupId userId : String}
    (hm : member ∈ s.workspaceGroupMembers) (hgroup : member.groupId = groupId)
    (hworkspace : member.workspaceId = workspaceId) (huser : member.userId = userId) :
    s.workspaceGroupMembers.Removed (s.workspaceGroupMembers.erase fun m =>
      m.groupId = groupId ∧ m.workspaceId = workspaceId ∧ m.userId = userId) member := by
  refine Table.removed_erase hm fun m hmem => ⟨?_, ?_⟩
  · rintro ⟨hg, -, hu⟩
    exact Table.eq_of_key hmem hm (Prod.ext (hg.trans hgroup.symm) (hu.trans huser.symm))
  · rintro rfl
    exact ⟨hgroup, hworkspace, huser⟩

theorem GroupRequest.applied {request : GroupRequest} (h : request.run s = .ok s') :
    request.Applied s s' := by
  cases request with
  | create group event =>
    obtain ⟨groups, audits, rfl, hgroups, haudits, -⟩ := createWorkspaceGroup_spec h
    exact ⟨groups, audits, rfl, hgroups, haudits⟩
  | rename workspaceId groupId name event =>
    simp only [GroupRequest.run, map_eq_ok] at h
    obtain ⟨⟨_, _⟩, h, rfl⟩ := h
    exact renameWorkspaceGroup_spec h
  | deactivate workspaceId groupId nowMs event =>
    obtain ⟨group, groups, audits, rfl, hid, -, -, hgroups, haudits⟩ :=
      deactivateWorkspaceGroup_spec h
    exact ⟨group, groups, audits, rfl, hid, hgroups, haudits⟩
  | addMember member event =>
    obtain ⟨group, groups, members, audits, rfl, hid, -, -, -, hgroups, hmembers, -, -, haudits⟩ :=
      addWorkspaceGroupMember_spec h
    exact ⟨group, groups, members, audits, rfl, hid, hgroups, hmembers, haudits⟩
  | removeMember workspaceId groupId userId event =>
    obtain ⟨group, groups, audits, rfl, hid, ⟨member, hm, hgroup, hworkspace, huser⟩, hgroups,
      haudits⟩ := removeWorkspaceGroupMember_spec h
    exact ⟨group, groups, _, member, audits, rfl, hid, hgroups, hgroup, hworkspace, huser,
      removed_member hm hgroup hworkspace huser, haudits⟩

/-- A group operation keeps the invariant. -/
theorem grouped_group {request : GroupRequest} (h : Grouped s) (hrun : request.run s = .ok s') :
    Grouped s' := by
  -- each operation is one of the changes above
  cases request with
  | create group event =>
    obtain ⟨groups, audits, rfl, hgroups, -, hactive, hempty, hlimit, -⟩ :=
      createWorkspaceGroup_spec hrun
    exact grouped_createGroup h hgroups hactive hempty hlimit ⟨rfl, rfl, rfl, rfl⟩
  | rename workspaceId groupId name event =>
    simp only [GroupRequest.run, map_eq_ok] at hrun
    obtain ⟨⟨_, _⟩, hrun, rfl⟩ := hrun
    obtain ⟨group, groups, audits, rfl, -, hgroups, -⟩ := renameWorkspaceGroup_spec hrun
    exact grouped_renameGroup h hgroups ⟨rfl, rfl, rfl, rfl⟩
  | deactivate workspaceId groupId nowMs event =>
    obtain ⟨group, groups, audits, rfl, rfl, rfl, -, hgroups, -⟩ :=
      deactivateWorkspaceGroup_spec hrun
    exact grouped_deactivateGroup h hgroups ⟨rfl, rfl, rfl, rfl⟩
  | addMember member event =>
    obtain ⟨group, groups, members, audits, rfl, hid, hworkspace, hactive, hroom, hgroups, hmembers,
      huser, hlimit, -⟩ := addWorkspaceGroupMember_spec hrun
    exact grouped_addMember h hid ⟨hworkspace, hactive⟩ hroom hgroups hmembers huser hlimit
      ⟨rfl, rfl, rfl, rfl⟩
  | removeMember workspaceId groupId userId event =>
    obtain ⟨group, groups, audits, rfl, hid, ⟨member, hm, hgroup, hworkspace, huser⟩, hgroups, -⟩ :=
      removeWorkspaceGroupMember_spec hrun
    exact grouped_removeMember h (hid.trans hgroup.symm) hgroups
      (removed_member hm hgroup hworkspace huser) ⟨rfl, rfl, rfl, rfl⟩

/-- Every request keeps the invariant. -/
theorem grouped_exec [JsonWriter] {request : Request} (h : Grouped s) :
    Grouped (exec s request) := by
  unfold exec
  cases hrun : request.run s with
  | error e => exact h
  | ok s' =>
    -- outside the group operations only the active grants of a group could grow too many
    cases request with
    | group request => exact grouped_group h hrun
    | createUser user key event =>
      obtain ⟨_, _, _, _, rfl, -, husers, -, -⟩ := createLocalUser_spec hrun
      exact grouped_createUser h (fun u hu => husers.mem_of_mem hu) ⟨rfl, rfl, rfl⟩
    | deactivateUser userId nowMs event =>
      obtain ⟨user, _, _, _, _, _, rfl, rfl, -, husers, -, -⟩ := deactivateLocalUser_spec hrun
      exact grouped_deactivateUser h husers ⟨rfl, rfl, rfl, rfl⟩
    | insertGrant grant event =>
      simp only [Request.run, map_eq_ok] at hrun
      obtain ⟨⟨_, _⟩, hrun, rfl⟩ := hrun
      obtain ⟨yard, grants, _, rfl, -, -, -, -, hprincipal, hgrants⟩ :=
        insertYardAccessGrant_spec hrun
      exact grouped_insertGrant h hgrants hprincipal ⟨rfl, rfl, rfl, rfl⟩
    | revokeGrant yardId grantId revokedAtMs event =>
      simp only [Request.run, map_eq_ok] at hrun
      obtain ⟨⟨_, _⟩, hrun, rfl⟩ := hrun
      rcases revokeYardAccessGrant_spec hrun with rfl | ⟨grant, grants, _, rfl, -, -, -, hgrants⟩
      · exact h
      -- a revoked grant is not active
      · refine grouped_grants h (fun groupId => hgrants.count_le _ ?_) ⟨rfl, rfl, rfl, rfl⟩
        rintro ⟨-, -, hactive⟩
        cases hactive
    | setRoles yardId grantId appRoles nowMs event =>
      simp only [Request.run, map_eq_ok] at hrun
      obtain ⟨⟨_, _⟩, hrun, rfl⟩ := hrun
      obtain ⟨grant, roles, grants, _, rfl, -, rfl, -, hgrants⟩ := setYardAccessRoles_spec hrun
      exact grouped_grants h (fun groupId => hgrants.count_le _ id) ⟨rfl, rfl, rfl, rfl⟩
    | createInvite invitation grant event =>
      simp only [Request.run, map_eq_ok] at hrun
      obtain ⟨⟨_, _⟩, hrun, rfl⟩ := hrun
      obtain ⟨_, roles, grants, _, _, rfl, -, -, -, -, -, hvalid, -, hgrants, -⟩ :=
        createYardGuestInvite_spec hrun
      -- the grant of an invitation is one for a guest
      refine grouped_grants h (fun groupId => ?_) ⟨rfl, rfl, rfl, rfl⟩
      have hnot : ¬ActiveGroupGrant groupId (grantRow grant roles) := by
        rintro ⟨hkind, -⟩
        rw [hvalid.scope.kind] at hkind
        cases hkind
      rw [hgrants.count (ActiveGroupGrant groupId), if_neg hnot, Nat.add_zero]
    | revokeInvite yardId invitationId nowMs event =>
      simp only [Request.run, map_eq_ok] at hrun
      obtain ⟨⟨_, _⟩, hrun, rfl⟩ := hrun
      obtain ⟨_, grant, _, grants, _, _, rfl, -, -, -, -, -, -, -, hgrants, -⟩ :=
        revokeYardGuestInvite_spec hrun
      refine grouped_grants h (fun groupId => hgrants.count_le _ ?_) ⟨rfl, rfl, rfl, rfl⟩
      rintro ⟨-, -, hactive⟩
      cases hactive
    | environment other =>
      simp only [Request.run, Except.ok.injEq] at hrun
      subst hrun
      exact grouped_grants h (fun _ => le_rfl) ⟨rfl, rfl, rfl, rfl⟩

/-! ### The law over runs -/

/-- What holds of the groups of one state. -/
structure Lawful (s : Repository) : Prop where
  counted : ∀ g ∈ s.workspaceGroups,
    g.memberCount = (s.workspaceGroupMembers.select fun m => m.groupId = g.id).length ∧
      g.memberCount ≤ maximumGroupMembers
  members : ∀ m ∈ s.workspaceGroupMembers,
    ∃ g ∈ s.workspaceGroups, g.id = m.groupId ∧ s.ActiveUser g.workspaceId m.userId
  memberships : ∀ userId,
    (s.workspaceGroupMembers.select fun m => m.userId = userId).length ≤ maximumUserGroups
  groups : ∀ workspaceId, (s.workspaceGroups.select fun g =>
    g.workspaceId = workspaceId ∧ g.status = .active).length ≤ maximumActiveGroups
  grants : ∀ groupId,
    (s.yardAccessGrants.select (ActiveGroupGrant groupId)).length ≤ maximumActiveGroupGrants
  closed : ∀ g ∈ s.workspaceGroups, g.status = .deactivated →
    (∀ m ∈ s.workspaceGroupMembers, m.groupId ≠ g.id) ∧
      ∀ grant ∈ s.yardAccessGrants, ¬ActiveGroupGrant g.id grant

omit [Unicode] in
theorem Grouped.lawful (h : Grouped s) : Lawful s where
  counted g hg := by
    refine ⟨?_, h.sized g hg⟩
    rw [h.counted g hg, Table.count_eq_sumBy, Table.sumBy_indicator]
    rfl
  members m hm := by
    obtain ⟨g, hg, hid, hworkspace, -⟩ := h.active m hm
    exact ⟨g, hg, hid, hworkspace ▸ h.users m hm⟩
  memberships userId := by
    have hbound := h.memberships userId
    rwa [Table.count_eq_sumBy, Table.sumBy_indicator] at hbound
  groups workspaceId := by
    have hbound := h.groups workspaceId
    rwa [Table.count_eq_sumBy, Table.sumBy_indicator] at hbound
  grants groupId := by
    have hbound := h.grants groupId
    rwa [Table.count_eq_sumBy, Table.sumBy_indicator] at hbound
  closed g hg hstatus := by
    refine ⟨fun m hm hgroup => ?_, (Table.count_eq_zero _).mp (h.closed g hg hstatus)⟩
    obtain ⟨g', hg', hid, -, hactive⟩ := h.active m hm
    obtain rfl := Table.eq_of_key hg' hg (hid.trans hgroup)
    rw [hstatus] at hactive
    cases hactive

/-- **Workspace groups**: in every state reached by requests in any order, with any other change
of the remaining tables in between, the counters count and the limits hold; and a group operation
either makes all its row changes and adds its one audit event, or fails and changes nothing. -/
theorem group_law [JsonWriter] (h : Run system (fun _ _ => True) s) :
    Lawful s ∧ ∀ request : GroupRequest,
      (∃ s', request.run s = .ok s' ∧ exec s (.group request) = s' ∧ request.Applied s s') ∨
        ∃ e, request.run s = .error e ∧ exec s (.group request) = s := by
  refine ⟨Grouped.lawful ?_, fun request => ?_⟩
  · refine Run.inv (P := Grouped) grouped_init ?_ h
    rintro s request _ hs - rfl
    exact grouped_exec hs
  · cases hrun : request.run s with
    | ok s' =>
      refine Or.inl ⟨s', rfl, ?_, GroupRequest.applied hrun⟩
      rw [exec, Request.run, hrun]
    | error e =>
      refine Or.inr ⟨e, rfl, ?_⟩
      rw [exec, Request.run, hrun]

end Runs

/-! ### A group with two members -/

attribute [local instance] asciiUnicode compactWriter

/-- Creates a user named by a letter, with a login key. -/
def createUserRequest (letter : Char) : Request :=
  let id := String.ofList ['m', letter]
  .createUser
    { id, workspaceId := "w", displayName := id, email := none, status := .active,
      createdAtMs := 5, deactivatedAtMs := none }
    { id := id ++ "-key", userId := id, tokenPrefix := "key", secretHash := repeatedDigit letter,
      createdAtMs := 5, expiresAtMs := 900, lastUsedAtMs := none, revokedAtMs := none }
    (workspaceEvent (id ++ "-created") "user.created" "local_user" 5 [("userId", .string id)])

def readersId : String := "group_11111111111111111111111111111111"

/-- Adds the user named by a letter to the readers. -/
def addReaderRequest (letter : Char) : Request :=
  let id := String.ofList ['m', letter]
  .group (.addMember { groupId := readersId, workspaceId := "w", userId := id, addedAtMs := 20 }
    (workspaceEvent (id ++ "-added") "group.member_added" "workspace_group" 20
      [("groupId", .string readersId), ("userId", .string id), ("workspaceId", .string "w")]))

/-- Two readers, one of whom is deactivated. -/
def readers : List Request :=
  [.environment pressProject, createUserRequest 'a', createUserRequest 'b',
    .group (.create
      { id := readersId, workspaceId := "w", name := "Readers", status := .active,
        memberCount := 0, createdAtMs := 10, deactivatedAtMs := none }
      (workspaceEvent "readers" "group.created" "workspace_group" 10
        [("groupId", .string readersId), ("name", .string "Readers"),
         ("workspaceId", .string "w")])),
    addReaderRequest 'a', addReaderRequest 'b',
    .deactivateUser "ma" 30
      (workspaceEvent "gone" "user.deactivated" "local_user" 30 [("userId", .string "ma")])]

/-- One reader is left and counted. -/
theorem lawful_readers :
    (∃ g ∈ (readers.foldl exec Repository.empty).workspaceGroups, g.memberCount = 1) ∧
      Lawful (readers.foldl exec Repository.empty) :=
  ⟨by decide +kernel, (group_law (Run.ofList_true (fun _ _ => rfl) Run.init _)).1⟩

end WorkspaceGroups

end BlobYard
