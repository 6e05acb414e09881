/-
The listings that come in pages.

Each listing fetches one row more than a page has, cuts the page off and makes a cursor of its
last row if there was a further one.

* `listAudit` — the audit trail of a workspace, newest first;
* `listWorkspaceGroups`, `listWorkspaceGroupMembers` — groups and their members, newest first;
* `listYardManagementRoles` — the roles of a yard by precedence;
* the listing of guest invitations is with the invitations.
-/
import BlobYard.Lib.SortedMap
import BlobYard.Repository.WorkspaceGroups
import BlobYard.Repository.YardRoles

namespace BlobYard

open Outcome

/-! ### Pages and cursors -/

structure AuditPage where
  items : List AuditEventRecord
  nextBefore : Option ℕ

structure WorkspaceGroupCursor where
  createdAtMs : ℕ
  id : String
  deriving DecidableEq

structure WorkspaceGroupPage where
  items : List WorkspaceGroupRecord
  nextCursor : Option WorkspaceGroupCursor

structure WorkspaceGroupMemberCursor where
  addedAtMs : ℕ
  userId : String
  deriving DecidableEq

structure WorkspaceGroupMemberPage where
  items : List WorkspaceGroupMemberRecord
  nextCursor : Option WorkspaceGroupMemberCursor

structure YardManagementRoleCursor where
  role : YardManagementRole
  userId : String
  deriving DecidableEq

structure YardManagementRolePage where
  items : List YardManagementRoleAssignment
  nextCursor : Option YardManagementRoleCursor

/-- `precedence`, which the statement of the listing repeats. -/
def YardManagementRole.precedence : YardManagementRole → ℕ
  | .owner => 0
  | .admin => 1
  | .developer => 2
  | .auditor => 3

/-- The order of a listing with the newest rows first, and the highest identifier first among
rows of one time. -/
def newestFirst (atMs : ℕ) (id : String) : ℕᵒᵈ ×ₗ Stringᵒᵈ :=
  toLex (OrderDual.toDual atMs, OrderDual.toDual id)

/-- `validate_limit` of the groups. -/
def validateLimit (limit : ℕ) : Except RepositoryError Unit :=
  ensure (1 ≤ limit ∧ limit ≤ 50) .invalidInput

/-! ### Audit -/

/-- `audit_row`: the metadata is read back in the order of its names. -/
def auditRow (row : AuditEventRecord) : AuditEventRecord :=
  { row with event := { row.event with metadata := fromEntries row.event.metadata } }

namespace Repository

/-- `lifecycle_audit::list`. -/
def listAudit (s : Repository) (workspaceId : String) (before : Option ℕ) (limit : ℕ) :
    Except RepositoryError AuditPage := do
  validateText workspaceId
  ensure (1 ≤ limit ∧ limit ≤ 100) .invalidInput
  forM before.toList toI64
  let rows := orderBy (fun row => OrderDual.toDual row.sequence) (s.auditEvents.select fun row =>
    row.event.workspaceId = workspaceId ∧ ∀ sequence ∈ before, row.sequence < sequence)
  let items := (rows.take (limit + 1)).map auditRow
  let hasMore := items.zipIdx.any fun item => item.2 == limit
  let items := if hasMore then items.dropLast else items
  return { items, nextBefore := if hasMore then items.getLast?.map fun event => event.sequence
    else none }

end Repository

/-! ### Groups and members -/

/-- `group_page`. -/
def groupPage (items : List WorkspaceGroupRecord) (limit : ℕ) : WorkspaceGroupPage where
  items := items.take limit
  nextCursor :=
    if limit < items.length then
      items[limit - 1]?.map fun group => { createdAtMs := group.createdAtMs, id := group.id }
    else none

/-- `member_page`. -/
def memberPage (items : List WorkspaceGroupMemberRecord) (limit : ℕ) :
    WorkspaceGroupMemberPage where
  items := items.take limit
  nextCursor :=
    if limit < items.length then
      items[limit - 1]?.map fun member => { addedAtMs := member.addedAtMs, userId := member.userId }
    else none

/-- `workspace_group_rows::member`. -/
def decodeMember (member : WorkspaceGroupMemberRecord) :
    Except RepositoryError WorkspaceGroupMemberRecord := do
  (validateMember member).mapError fun _ => .unavailable
  return member

namespace Repository

/-- The group is in a workspace that exists. -/
def InWorkspace (s : Repository) (workspaceId : String) (group : WorkspaceGroupRecord) : Prop :=
  group.workspaceId = workspaceId ∧ ∃ w ∈ s.workspaces, w.id = group.workspaceId

instance (s : Repository) (workspaceId : String) : DecidablePred (s.InWorkspace workspaceId) :=
  fun group => inferInstanceAs (Decidable (group.workspaceId = workspaceId ∧
    ∃ w ∈ s.workspaces, w.id = group.workspaceId))

/-- The member is one of the group and an active user. -/
def ActiveMember (s : Repository) (workspaceId groupId : String)
    (member : WorkspaceGroupMemberRecord) : Prop :=
  member.groupId = groupId ∧ member.workspaceId = workspaceId ∧
    s.ActiveUser member.workspaceId member.userId

instance (s : Repository) (workspaceId groupId : String) :
    DecidablePred (s.ActiveMember workspaceId groupId) :=
  fun _ => inferInstanceAs (Decidable (_ ∧ _ ∧ _))

section Groups

variable [Unicode]

/-- `workspace_group_rows::group`. -/
def decodeGroup (group : WorkspaceGroupRecord) : Except RepositoryError WorkspaceGroupRecord := do
  ensure (ValidStoredGroup group) .unavailable
  return group

/-- `list_groups`. -/
def listWorkspaceGroups (s : Repository) (workspaceId : String)
    (cursor : Option WorkspaceGroupCursor) (limit : ℕ) :
    Except RepositoryError WorkspaceGroupPage := do
  validateText workspaceId
  validateLimit limit
  forM cursor.toList fun position => validateGroupId position.id
  forM cursor.toList fun position => toI64 position.createdAtMs
  let rows := orderBy (fun group => newestFirst group.createdAtMs group.id)
    (s.workspaceGroups.select fun group => s.InWorkspace workspaceId group ∧
      ∀ position ∈ cursor, group.createdAtMs < position.createdAtMs ∨
        (group.createdAtMs = position.createdAtMs ∧ group.id < position.id))
  let items ← (rows.take (limit + 1)).mapM decodeGroup
  return groupPage items limit

/-- `list_members`. -/
def listWorkspaceGroupMembers (s : Repository) (workspaceId groupId : String)
    (cursor : Option WorkspaceGroupMemberCursor) (limit : ℕ) :
    Except RepositoryError WorkspaceGroupMemberPage := do
  validateText workspaceId
  validateGroupId groupId
  validateLimit limit
  let _ ← s.activeGroup workspaceId groupId
  forM cursor.toList fun position => toI64 position.addedAtMs
  let rows := orderBy (fun member => newestFirst member.addedAtMs member.userId)
    (s.workspaceGroupMembers.select fun member => s.ActiveMember workspaceId groupId member ∧
      ∀ position ∈ cursor, member.addedAtMs < position.addedAtMs ∨
        (member.addedAtMs = position.addedAtMs ∧ member.userId < position.userId))
  let items ← (rows.take (limit + 1)).mapM decodeMember
  return memberPage items limit

end Groups

/-! ### Management roles -/

/-- `assignment`. -/
def decodeAssignment (assignment : YardManagementRoleAssignment) :
    Except RepositoryError YardManagementRoleAssignment := do
  ensure (ValidAssignment assignment) .unavailable
  return assignment

/-- The order of the roles of a yard. -/
def roleOrder (role : YardManagementRole) (userId : String) : ℕ ×ₗ String :=
  toLex (role.precedence, userId)

/-- `yard_management_roles::list`; a page has fifty assignments. -/
def listYardManagementRoles (s : Repository) (yardId : String)
    (cursor : Option YardManagementRoleCursor) : Except RepositoryError YardManagementRolePage := do
  validateText yardId
  ensure (∃ y ∈ s.webYards, y.id = yardId ∧ y.status = .active) .notFound
  forM cursor.toList fun position => validateText position.userId
  let _ ← s.validateState yardId
  let rows := orderBy (fun a => roleOrder a.role a.userId)
    (s.yardManagementRoles.select fun a => a.yardId = yardId ∧
      ∀ position ∈ cursor, position.role.precedence < a.role.precedence ∨
        (a.role.precedence = position.role.precedence ∧ position.userId < a.userId))
  let items ← (rows.take 51).mapM decodeAssignment
  return {
    items := items.take 50
    nextCursor :=
      if 50 < items.length then
        items[49]?.map fun item => { role := item.role, userId := item.userId }
      else none }

end Repository

end BlobYard
