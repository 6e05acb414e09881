/-
Workspace groups and their members.

A group row carries a counter of its member rows, which every operation on members has to
maintain; deactivating a group revokes its grants and forgets its members.

* `createWorkspaceGroup`, `renameWorkspaceGroup`, `deactivateWorkspaceGroup` — the groups;
* `addWorkspaceGroupMember`, `removeWorkspaceGroupMember`, `removeUserMemberships` — the members;
* `*_spec` — the rows each operation changes, and the one audit event it adds.
-/
import BlobYard.Contract.Names
import BlobYard.Repository.YardDeploys

namespace BlobYard

open Outcome

def maximumActiveGroups : ℕ := 500

def maximumGroupMembers : ℕ := 500

def maximumUserGroups : ℕ := 100

def maximumActiveGroupGrants : ℕ := 500

/-- An active grant to the group. -/
def ActiveGroupGrant (groupId : String) (grant : YardAccessGrantRecord) : Prop :=
  grant.principalKind = .group ∧ grant.principalId = groupId ∧ grant.status = .active

instance (groupId : String) : DecidablePred (ActiveGroupGrant groupId) := fun grant =>
  inferInstanceAs (Decidable (grant.principalKind = .group ∧ grant.principalId = groupId ∧
    grant.status = .active))

/-! ### Validation -/

/-- `group_event`. -/
def validateGroupEvent (event : NewAuditEvent) (action : String) (group : WorkspaceGroupRecord)
    (atMs : ℕ) (metadata : List (String × AuditValue)) : Except RepositoryError Unit :=
  validateActionEvent event action "workspace_group" group.workspaceId atMs
    ([("groupId", .string group.id), ("workspaceId", .string group.workspaceId)] ++ metadata)

/-- `validate_member`. -/
def validateMember (member : WorkspaceGroupMemberRecord) : Except RepositoryError Unit := do
  validateGroupId member.groupId
  validateText member.workspaceId
  validateText member.userId

section Groups

variable [Unicode]

/-- `validate_group`. -/
def validateGroup (group : WorkspaceGroupRecord) : Except RepositoryError Unit := do
  validateGroupId group.id
  validateText group.workspaceId
  let name ← normalizeGroupName group.name
  ensure (name = group.name ∧ group.status = .active ∧ group.memberCount = 0 ∧
    group.deactivatedAtMs = none) .invalidInput

/-- `validate_stored_group`: what the decoder of a group row requires. -/
def ValidStoredGroup (group : WorkspaceGroupRecord) : Prop :=
  ValidPrefixedHexId group.id "group_" ∧ ValidText group.workspaceId ∧
    (normalizeGroupName group.name).toOption = some group.name ∧
    group.memberCount ≤ maximumGroupMembers ∧
    match group.status with
    | .active => group.deactivatedAtMs = none
    | .deactivated =>
      group.memberCount = 0 ∧ (group.deactivatedAtMs.any (group.createdAtMs ≤ ·)) = true

instance (group : WorkspaceGroupRecord) : Decidable (ValidStoredGroup group) := by
  unfold ValidStoredGroup
  cases group.status <;> infer_instance

namespace Repository

/-! ### Queries -/

/-- `workspace_group_queries::by_id`. -/
def groupById (s : Repository) (workspaceId groupId : String) :
    Except RepositoryError (Option WorkspaceGroupRecord) :=
  match s.workspaceGroups.find? groupId with
  | none => return none
  | some group => do
    if group.workspaceId = workspaceId ∧ ∃ w ∈ s.workspaces, w.id = group.workspaceId then
      ensure (ValidStoredGroup group) .unavailable
      return some group
    else return none

/-- `workspace_group_queries::active`. -/
def activeGroup (s : Repository) (workspaceId groupId : String) :
    Except RepositoryError WorkspaceGroupRecord := do
  let found ← s.groupById workspaceId groupId
  let group ← requireRow found
  ensure (group.status = .active) .conflict
  return group

/-- An active user of the workspace (`require_active_user`). -/
def ActiveUser (s : Repository) (workspaceId userId : String) : Prop :=
  ∃ u ∈ s.localUsers, u.id = userId ∧ u.workspaceId = workspaceId ∧ u.status = .active

instance (s : Repository) (workspaceId userId : String) :
    Decidable (s.ActiveUser workspaceId userId) :=
  inferInstanceAs (Decidable (∃ u ∈ s.localUsers, _))

/-! ### Groups -/

/-- `create_workspace_group`. -/
def createWorkspaceGroup (s : Repository) (group : WorkspaceGroupRecord) (event : NewAuditEvent) :
    Except RepositoryError Repository := do
  validateGroup group
  ensure (∃ w ∈ s.workspaces, w.id = group.workspaceId) .notFound
  ensure (s.workspaceGroups.count (fun g =>
    g.workspaceId = group.workspaceId ∧ g.status = .active) < maximumActiveGroups) .conflict
  ensure (∀ grant ∈ s.yardAccessGrants,
    ¬(grant.principalKind = .group ∧ grant.principalId = group.id)) .conflict
  validateGroupEvent event "group.created" group group.createdAtMs [("name", .string group.name)]
  let workspaceGroups ← insertRow s.workspaceGroups
    { group with status := .active, memberCount := 0, deactivatedAtMs := none }
  let s := { s with workspaceGroups }
  s.insertAudit event

/-- `rename_workspace_group`; the event gains the previous name. -/
def renameWorkspaceGroup (s : Repository) (workspaceId groupId name : String)
    (event : NewAuditEvent) : Except RepositoryError (WorkspaceGroupRecord × Repository) := do
  validateText workspaceId
  validateGroupId groupId
  let normalized ← normalizeGroupName name
  ensure (normalized = name) .invalidInput
  let group ← s.activeGroup workspaceId groupId
  validateGroupEvent event "group.renamed" group event.createdAtMs [("to", .string name)]
  let s : Repository := { s with
    workspaceGroups := s.workspaceGroups.update
      (fun g => g.id = groupId ∧ g.workspaceId = workspaceId ∧ g.status = .active)
      fun g => { g with name } }
  let s ← s.insertAudit
    { event with metadata := event.metadata ++ [("from", AuditValue.string group.name)] }
  let found ← s.groupById workspaceId groupId
  let renamed ← ofOption .unavailable found
  return (renamed, s)

/-- `deactivate_workspace_group`; the event gains the number of revoked grants. -/
def deactivateWorkspaceGroup (s : Repository) (workspaceId groupId : String) (nowMs : ℕ)
    (event : NewAuditEvent) : Except RepositoryError Repository := do
  validateText workspaceId
  validateGroupId groupId
  let group ← s.activeGroup workspaceId groupId
  validateGroupEvent event "group.deactivated" group nowMs []
  let revoked := s.yardAccessGrants.count (ActiveGroupGrant groupId)
  ensure (revoked ≤ maximumActiveGroupGrants) .conflict
  ensure (∀ grant ∈ s.yardAccessGrants, ActiveGroupGrant groupId grant →
    grant.createdAtMs ≤ nowMs) .conflict
  let yardAccessGrants := s.yardAccessGrants.update (ActiveGroupGrant groupId)
    (fun grant => { grant with status := .revoked, revokedAtMs := some nowMs })
    (YardAccessGrantRecord.revoked_id nowMs)
  let workspaceGroupMembers := s.workspaceGroupMembers.erase fun m =>
    m.groupId = groupId ∧ m.workspaceId = workspaceId
  ensure (group.createdAtMs ≤ nowMs) .conflict
  let workspaceGroups := s.workspaceGroups.update
    (fun g => g.id = groupId ∧ g.workspaceId = workspaceId ∧ g.status = .active)
    fun g => { g with status := .deactivated, memberCount := 0, deactivatedAtMs := some nowMs }
  let s := { s with yardAccessGrants, workspaceGroupMembers, workspaceGroups }
  s.insertAudit
    { event with metadata := event.metadata ++ [("revokedGrantCount", .number revoked)] }

/-! ### Members -/

/-- `workspace_group_members::add`. -/
def addWorkspaceGroupMember (s : Repository) (member : WorkspaceGroupMemberRecord)
    (event : NewAuditEvent) : Except RepositoryError Repository := do
  validateMember member
  let group ← s.activeGroup member.workspaceId member.groupId
  ensure (s.ActiveUser member.workspaceId member.userId) .notFound
  ensure (group.memberCount < maximumGroupMembers) .conflict
  ensure (s.workspaceGroupMembers.count (fun m => m.userId = member.userId) < maximumUserGroups)
    .conflict
  validateGroupEvent event "group.member_added" group member.addedAtMs
    [("userId", .string member.userId)]
  let workspaceGroupMembers ← insertRow s.workspaceGroupMembers member
  let workspaceGroups := s.workspaceGroups.update (fun g => g.id = member.groupId)
    fun g => { g with memberCount := g.memberCount + 1 }
  let s := { s with workspaceGroupMembers, workspaceGroups }
  s.insertAudit event

/-- `workspace_group_members::remove`. -/
def removeWorkspaceGroupMember (s : Repository) (workspaceId groupId userId : String)
    (event : NewAuditEvent) : Except RepositoryError Repository := do
  validateText workspaceId
  validateGroupId groupId
  validateText userId
  let group ← s.activeGroup workspaceId groupId
  validateGroupEvent event "group.member_removed" group event.createdAtMs
    [("userId", .string userId)]
  ensure (s.workspaceGroupMembers.count (fun m =>
    m.groupId = groupId ∧ m.workspaceId = workspaceId ∧ m.userId = userId) = 1) .notFound
  let workspaceGroupMembers := s.workspaceGroupMembers.erase fun m =>
    m.groupId = groupId ∧ m.workspaceId = workspaceId ∧ m.userId = userId
  ensure (0 < group.memberCount) .conflict
  let workspaceGroups := s.workspaceGroups.update (fun g => g.id = groupId)
    fun g => { g with memberCount := g.memberCount - 1 }
  let s := { s with workspaceGroupMembers, workspaceGroups }
  s.insertAudit event

end Repository

end Groups

namespace Repository

/-- The group has the user as a member. -/
def HasMember (s : Repository) (workspaceId userId groupId : String) : Prop :=
  ∃ m ∈ s.workspaceGroupMembers, m.groupId = groupId ∧ m.workspaceId = workspaceId ∧
    m.userId = userId

instance (s : Repository) (workspaceId userId groupId : String) :
    Decidable (s.HasMember workspaceId userId groupId) :=
  inferInstanceAs (Decidable (∃ m ∈ s.workspaceGroupMembers, _))

/-- `remove_user_memberships`. -/
def removeUserMemberships (s : Repository) (workspaceId userId : String) :
    Except RepositoryError Repository := do
  ensure (∀ g ∈ s.workspaceGroups, s.HasMember workspaceId userId g.id → 0 < g.memberCount)
    .conflict
  let workspaceGroups := s.workspaceGroups.update (fun g => s.HasMember workspaceId userId g.id)
    fun g => { g with memberCount := g.memberCount - 1 }
  let workspaceGroupMembers := s.workspaceGroupMembers.erase fun m =>
    m.workspaceId = workspaceId ∧ m.userId = userId
  return { s with workspaceGroups, workspaceGroupMembers }

/-! ### What the operations do -/

variable {s s' : Repository} {workspaceId groupId userId : String}

theorem removeUserMemberships_spec (h : s.removeUserMemberships workspaceId userId = .ok s') :
    (∀ g ∈ s.workspaceGroups, s.HasMember workspaceId userId g.id → 0 < g.memberCount) ∧
      s' = { s with
        workspaceGroups := s.workspaceGroups.update
          (fun g => s.HasMember workspaceId userId g.id)
          fun g => { g with memberCount := g.memberCount - 1 }
        workspaceGroupMembers := s.workspaceGroupMembers.erase fun m =>
          m.workspaceId = workspaceId ∧ m.userId = userId } := by
  simp only [removeUserMemberships, bind_eq_ok, pure_eq_ok, ensure_eq_ok] at h
  obtain ⟨-, hpositive, rfl⟩ := h
  exact ⟨hpositive, rfl⟩

/-- The group `r` alone has its key and the further properties of `r`. -/
private theorem group_iff {r : WorkspaceGroupRecord} (hr : r ∈ s.workspaceGroups)
    (hactive : r.status = .active) : ∀ g ∈ s.workspaceGroups,
      (g.id = r.id ∧ g.workspaceId = r.workspaceId ∧ g.status = .active) ↔ g = r :=
  Table.guard_iff_eq (q := fun g => g.workspaceId = r.workspaceId ∧ g.status = .active) hr
    ⟨rfl, hactive⟩

private theorem group_id_iff {r : WorkspaceGroupRecord} (hr : r ∈ s.workspaceGroups) :
    ∀ g ∈ s.workspaceGroups, g.id = r.id ↔ g = r :=
  fun _ hg => ⟨fun hid => Table.eq_of_key hg hr hid, fun heq => heq ▸ rfl⟩

variable [Unicode] {event : NewAuditEvent}

theorem activeGroup_spec {group : WorkspaceGroupRecord}
    (h : s.activeGroup workspaceId groupId = .ok group) :
    group ∈ s.workspaceGroups ∧ group.id = groupId ∧ group.workspaceId = workspaceId ∧
      group.status = .active := by
  simp only [activeGroup, bind_eq_ok, pure_eq_ok, ensure_eq_ok, requireRow_eq_ok] at h
  obtain ⟨found, hfound, group', rfl, -, hactive, rfl⟩ := h
  unfold groupById at hfound
  split at hfound
  · simp at hfound
  · rename_i stored hstored
    obtain ⟨hmem, hid⟩ := Table.find?_eq_some.mp hstored
    split at hfound
    · rename_i hscope
      simp only [bind_eq_ok, pure_eq_ok, Option.some.injEq] at hfound
      obtain ⟨-, -, rfl⟩ := hfound
      exact ⟨hmem, hid, hscope.1, hactive⟩
    · simp at hfound

/-- Creating a group inserts its row, empty and active, below the limit of the workspace and
under an identifier no group grant names. -/
theorem createWorkspaceGroup_spec {group : WorkspaceGroupRecord}
    (h : s.createWorkspaceGroup group event = .ok s') :
    ∃ groups audits, s' = { s with workspaceGroups := groups, auditEvents := audits } ∧
      s.workspaceGroups.Inserted groups group ∧ Audited s.auditEvents audits event ∧
      group.status = .active ∧ group.memberCount = 0 ∧
      s.workspaceGroups.count (fun g =>
        g.workspaceId = group.workspaceId ∧ g.status = .active) < maximumActiveGroups ∧
      ∀ grant ∈ s.yardAccessGrants,
        ¬(grant.principalKind = .group ∧ grant.principalId = group.id) := by
  simp only [createWorkspaceGroup, validateGroup, bind_eq_ok, ensure_eq_ok,
    insertRow_eq_ok] at h
  obtain ⟨-, ⟨-, -, -, -, -, -, -, hactive, hempty, hnone⟩, -, -, -, hlimit, -, hgrants, -, -,
    groups, hgroups, haudit⟩ := h
  have haudited := insertAudit_audited haudit
  obtain ⟨audits, rfl⟩ := insertAudit_spec haudit
  have hgroup : { group with status := .active, memberCount := 0, deactivatedAtMs := none } =
      group := by
    cases group
    simp_all
  rw [hgroup] at hgroups
  exact ⟨groups, audits, rfl, Table.inserted_of_insert hgroups, haudited, hactive, hempty, hlimit,
    hgrants⟩

/-- Renaming a group rewrites its name alone. -/
theorem renameWorkspaceGroup_spec {name : String} {renamed : WorkspaceGroupRecord}
    (h : s.renameWorkspaceGroup workspaceId groupId name event = .ok (renamed, s')) :
    ∃ group groups audits, s' = { s with workspaceGroups := groups, auditEvents := audits } ∧
      group.id = groupId ∧ s.workspaceGroups.Replaced groups group { group with name } ∧
      Audited s.auditEvents audits
        { event with metadata := event.metadata ++ [("from", .string group.name)] } := by
  simp only [renameWorkspaceGroup, bind_eq_ok, pure_eq_ok, Prod.mk.injEq] at h
  obtain ⟨-, -, -, -, -, -, -, -, group, hgroup, -, -, s₁, haudit, -, -, -, -, -, rfl⟩ := h
  obtain ⟨hmem, rfl, rfl, hactive⟩ := activeGroup_spec hgroup
  have haudited := insertAudit_audited haudit
  obtain ⟨audits, rfl⟩ := insertAudit_spec haudit
  exact ⟨group, _, audits, rfl, rfl, Table.replaced_update hmem (group_iff hmem hactive), haudited⟩

/-- Adding a member inserts its row and counts it. -/
theorem addWorkspaceGroupMember_spec {member : WorkspaceGroupMemberRecord}
    (h : s.addWorkspaceGroupMember member event = .ok s') :
    ∃ group groups members audits,
      s' = { s with
        workspaceGroups := groups, workspaceGroupMembers := members, auditEvents := audits } ∧
      group.id = member.groupId ∧ group.workspaceId = member.workspaceId ∧
      group.status = .active ∧ group.memberCount < maximumGroupMembers ∧
      s.workspaceGroups.Replaced groups group { group with memberCount := group.memberCount + 1 } ∧
      s.workspaceGroupMembers.Inserted members member ∧
      s.ActiveUser member.workspaceId member.userId ∧
      s.workspaceGroupMembers.count (fun m => m.userId = member.userId) < maximumUserGroups ∧
      Audited s.auditEvents audits event := by
  simp only [addWorkspaceGroupMember, bind_eq_ok, ensure_eq_ok, insertRow_eq_ok] at h
  obtain ⟨-, -, group, hgroup, -, huser, -, hmembers, -, hgroups, -, -, members, hinsert,
    haudit⟩ := h
  obtain ⟨hmem, hid, hworkspace, hactive⟩ := activeGroup_spec hgroup
  have haudited := insertAudit_audited haudit
  obtain ⟨audits, rfl⟩ := insertAudit_spec haudit
  refine ⟨group, _, members, audits, rfl, hid, hworkspace, hactive, hmembers, ?_,
    Table.inserted_of_insert hinsert, huser, hgroups, haudited⟩
  rw [← hid]
  exact Table.replaced_update hmem (group_id_iff hmem)

/-- Removing a member deletes its row and counts it out. -/
theorem removeWorkspaceGroupMember_spec
    (h : s.removeWorkspaceGroupMember workspaceId groupId userId event = .ok s') :
    ∃ group groups audits,
      s' = { s with
        workspaceGroups := groups
        workspaceGroupMembers := s.workspaceGroupMembers.erase fun m =>
          m.groupId = groupId ∧ m.workspaceId = workspaceId ∧ m.userId = userId
        auditEvents := audits } ∧
      group.id = groupId ∧ s.HasMember workspaceId userId groupId ∧
      s.workspaceGroups.Replaced groups group { group with memberCount := group.memberCount - 1 } ∧
      Audited s.auditEvents audits event := by
  simp only [removeWorkspaceGroupMember, bind_eq_ok, ensure_eq_ok] at h
  obtain ⟨-, -, -, -, -, -, group, hgroup, -, -, -, hone, -, -, haudit⟩ := h
  obtain ⟨hmem, hid, -, -⟩ := activeGroup_spec hgroup
  have haudited := insertAudit_audited haudit
  obtain ⟨audits, rfl⟩ := insertAudit_spec haudit
  refine ⟨group, _, audits, rfl, hid, Table.exists_of_count_eq_one hone, ?_, haudited⟩
  rw [← hid]
  exact Table.replaced_update hmem (group_id_iff hmem)

/-- Deactivating a group revokes its active grants, deletes its members and closes its row. -/
theorem deactivateWorkspaceGroup_spec {nowMs : ℕ}
    (h : s.deactivateWorkspaceGroup workspaceId groupId nowMs event = .ok s') :
    ∃ group groups audits,
      s' = { s with
        yardAccessGrants := s.yardAccessGrants.update (ActiveGroupGrant groupId)
          fun grant => { grant with status := .revoked, revokedAtMs := some nowMs }
        workspaceGroupMembers := s.workspaceGroupMembers.erase fun m =>
          m.groupId = groupId ∧ m.workspaceId = workspaceId
        workspaceGroups := groups
        auditEvents := audits } ∧
      group.id = groupId ∧ group.workspaceId = workspaceId ∧
      (∀ grant ∈ s.yardAccessGrants, ActiveGroupGrant groupId grant → grant.createdAtMs ≤ nowMs) ∧
      s.workspaceGroups.Replaced groups group
        { group with
          status := .deactivated, memberCount := 0, deactivatedAtMs := some nowMs } ∧
      Audited s.auditEvents audits
        { event with
          metadata := event.metadata ++
            [("revokedGrantCount",
              .number (s.yardAccessGrants.count (ActiveGroupGrant groupId)))] } := by
  simp only [deactivateWorkspaceGroup, bind_eq_ok, ensure_eq_ok] at h
  obtain ⟨-, -, -, -, group, hgroup, -, -, -, -, -, htimes, -, -, haudit⟩ := h
  obtain ⟨hmem, rfl, rfl, hactive⟩ := activeGroup_spec hgroup
  have haudited := insertAudit_audited haudit
  obtain ⟨audits, rfl⟩ := insertAudit_spec haudit
  exact ⟨group, _, audits, rfl, rfl, rfl, htimes,
    Table.replaced_update hmem (group_iff hmem hactive), haudited⟩

end Repository

end BlobYard
