/-
Management roles of a yard.

A yard with assignments must keep an owner among them.  Setting and revoking a role both look
at the number of owner assignments before they change a row.

* `setYardManagementRole`, `revokeYardManagementRole`;
* `validateState` — the integrity check every role operation starts with;
* `*_spec` — what the operations change.
-/
import BlobYard.Repository.YardAccess

namespace BlobYard

open Outcome

def maximumYardManagementRoles : ℕ := 500

/-- `assignment`: what the decoder of an assignment row requires. -/
def ValidAssignment (a : YardManagementRoleAssignment) : Prop :=
  ValidText a.yardId ∧ ValidText a.userId ∧ ValidText a.workspaceId ∧ a.createdAtMs ≤ a.updatedAtMs

instance (a : YardManagementRoleAssignment) : Decidable (ValidAssignment a) :=
  inferInstanceAs (Decidable (_ ∧ _ ∧ _ ∧ _))

/-- The assignments of a yard and the owners among them. -/
structure RoleState where
  assignments : ℕ
  owners : ℕ

namespace Repository

/-! ### Queries -/

/-- The assignments of the yard. -/
def rolesOf (s : Repository) (yardId : String) : List YardManagementRoleAssignment :=
  s.yardManagementRoles.select fun a => a.yardId = yardId

/-- `validate_state`: the counts over the first 501 assignments, which must be sound. -/
def validateState (s : Repository) (yardId : String) : Except RepositoryError RoleState := do
  let rows := (s.rolesOf yardId).take (maximumYardManagementRoles + 1)
  let state : RoleState :=
    { assignments := rows.length, owners := rows.countP fun a => decide (a.role = .owner) }
  ensure (state.assignments ≤ maximumYardManagementRoles ∧
    (state.assignments = 0 ∨ 0 < state.owners) ∧ state.owners ≤ state.assignments) .unavailable
  return state

/-- `by_user`. -/
def assignmentByUser (s : Repository) (yardId userId : String) :
    Except RepositoryError (Option YardManagementRoleAssignment) :=
  match s.yardManagementRoles.find? (yardId, userId) with
  | none => return none
  | some assignment => do
    ensure (ValidAssignment assignment) .unavailable
    return some assignment

/-! ### Setting and revoking -/

/-- The assignment is an owner. -/
def IsOwner (previous : Option YardManagementRoleAssignment) : Prop :=
  ∃ a ∈ previous, a.role = .owner

instance (previous : Option YardManagementRoleAssignment) : Decidable (IsOwner previous) :=
  inferInstanceAs (Decidable (∃ a ∈ previous, _))

/-- The upsert of `set`: an existing assignment keeps its creation time. -/
def upsertAssignment (s : Repository) (yard : WebYardRecord) (userId : String)
    (role : YardManagementRole) (nowMs : ℕ) : Except RepositoryError Repository :=
  match s.yardManagementRoles.find? (yard.id, userId) with
  | none => do
    let yardManagementRoles ← insertRow s.yardManagementRoles
      { yardId := yard.id, userId, workspaceId := yard.workspaceId, role, createdAtMs := nowMs,
        updatedAtMs := nowMs }
    return { s with yardManagementRoles }
  | some existing => do
    ensure (existing.createdAtMs ≤ nowMs) .conflict
    return { s with
      yardManagementRoles := s.yardManagementRoles.update
        (fun a => a.yardId = yard.id ∧ a.userId = userId)
        fun a => { a with role, updatedAtMs := nowMs } }

/-- `set_yard_management_role`. -/
def setYardManagementRole (s : Repository) (yardId userId : String) (role : YardManagementRole)
    (nowMs : ℕ) (event : NewAuditEvent) :
    Except RepositoryError (YardManagementRoleAssignment × Repository) := do
  toI64 nowMs
  let yard ← s.activeYard yardId
  validateText userId
  ensure (∃ u ∈ s.localUsers, u.id = userId ∧ u.workspaceId = yard.workspaceId ∧
    u.status = .active ∧ u.deactivatedAtMs = none) .notFound
  let state ← s.validateState yardId
  let previous ← s.assignmentByUser yardId userId
  ensure (¬(state.assignments = 0 ∧ role ≠ .owner)) .conflict
  ensure (¬(previous = none ∧ maximumYardManagementRoles ≤ state.assignments)) .conflict
  ensure (¬(IsOwner previous ∧ role ≠ .owner ∧ state.owners = 1)) .conflict
  validateActionEvent event "yard.management_role_set" "yard_management_role" yard.workspaceId nowMs
    [("from", auditText (previous.map fun a => a.role.asStr)), ("to", .string role.asStr),
     ("userId", .string userId), ("yardId", .string yardId)]
  let s ← s.upsertAssignment yard userId role nowMs
  let s ← s.insertAudit event
  let found ← s.assignmentByUser yardId userId
  let assignment ← ofOption .unavailable found
  return (assignment, s)

/-- `revoke_yard_management_role`. -/
def revokeYardManagementRole (s : Repository) (yardId userId : String) (nowMs : ℕ)
    (event : NewAuditEvent) : Except RepositoryError Repository := do
  toI64 nowMs
  let yard ← s.activeYard yardId
  let state ← s.validateState yardId
  let found ← s.assignmentByUser yardId userId
  let previous ← requireRow found
  ensure (¬(previous.role = .owner ∧ state.owners = 1)) .conflict
  validateActionEvent event "yard.management_role_revoked" "yard_management_role" yard.workspaceId
    nowMs
    [("from", .string previous.role.asStr), ("userId", .string userId), ("yardId", .string yardId)]
  changedOnce (s.yardManagementRoles.count fun a => a.yardId = yardId ∧ a.userId = userId)
  let s : Repository := { s with
    yardManagementRoles := s.yardManagementRoles.erase fun a =>
      a.yardId = yardId ∧ a.userId = userId }
  s.insertAudit event

/-! ### What the operations do -/

variable {s s' : Repository} {yardId userId : String} {nowMs : ℕ} {event : NewAuditEvent}

/-- Within the limit the counts are those of all assignments of the yard. -/
theorem validateState_spec {state : RoleState} (h : s.validateState yardId = .ok state) :
    (s.rolesOf yardId).length ≤ maximumYardManagementRoles ∧
      state.assignments = (s.rolesOf yardId).length ∧
      state.owners = (s.rolesOf yardId).countP fun a => decide (a.role = .owner) := by
  simp only [validateState, bind_eq_ok, pure_eq_ok, ensure_eq_ok, List.length_take] at h
  obtain ⟨-, ⟨hbound, -, -⟩, rfl⟩ := h
  have hlength : (s.rolesOf yardId).length ≤ maximumYardManagementRoles := by omega
  have htake : (s.rolesOf yardId).take (maximumYardManagementRoles + 1) = s.rolesOf yardId :=
    List.take_of_length_le (by omega)
  exact ⟨hlength, min_eq_right (by omega), by rw [htake]⟩

theorem mem_rolesOf {a : YardManagementRoleAssignment} :
    a ∈ s.rolesOf yardId ↔ a ∈ s.yardManagementRoles ∧ a.yardId = yardId := by
  simp [rolesOf]

theorem assignmentByUser_spec {found : Option YardManagementRoleAssignment}
    (h : s.assignmentByUser yardId userId = .ok found) :
    found = s.yardManagementRoles.find? (yardId, userId) := by
  unfold assignmentByUser at h
  split at h
  · rename_i hnone
    simp only [pure_eq_ok] at h
    rw [hnone, h]
  · rename_i assignment hsome
    simp only [bind_eq_ok, pure_eq_ok] at h
    obtain ⟨-, -, rfl⟩ := h
    exact hsome.symm

/-- Another assignment of the yard is an owner besides the one of `userId`, when there is one. -/
theorem other_owner {state : RoleState} (hstate : s.validateState yardId = .ok state)
    {a : YardManagementRoleAssignment} (ha : a ∈ s.yardManagementRoles) (hyard : a.yardId = yardId)
    (howner : a.role = .owner) (hnot : state.owners ≠ 1) :
    ∃ b ∈ s.yardManagementRoles, b.yardId = yardId ∧ b.role = .owner ∧ b.userId ≠ a.userId := by
  obtain ⟨-, -, howners⟩ := validateState_spec hstate
  by_contra hnone
  refine hnot (howners.trans ?_)
  have hcount : s.yardManagementRoles.count (fun b => b.yardId = yardId ∧ b.role = .owner) = 1 := by
    refine Table.count_eq_one ha fun b hb => ⟨fun ⟨hby, hbo⟩ => ?_, ?_⟩
    · refine Table.eq_of_key hb ha (Prod.ext (hby.trans hyard.symm) ?_)
      by_contra huser
      exact hnone ⟨b, hb, hby, hbo, huser⟩
    · rintro rfl
      exact ⟨hyard, howner⟩
  rw [rolesOf, Table.select, List.countP_filter]
  rw [Table.count] at hcount
  rw [← hcount]
  congr 1
  funext b
  simp [Bool.and_comm]

/-- Setting a role inserts an assignment below the limit, or rewrites the role of one; a yard
without assignments gets an owner, and a sole owner assignment stays one. -/
theorem setYardManagementRole_spec {role : YardManagementRole}
    {assignment : YardManagementRoleAssignment}
    (h : s.setYardManagementRole yardId userId role nowMs event = .ok (assignment, s')) :
    ∃ yard roles audits, s' = { s with yardManagementRoles := roles, auditEvents := audits } ∧
      yard ∈ s.webYards ∧ yard.id = yardId ∧ s.ActiveUser yard.workspaceId userId ∧
      Audited s.auditEvents audits event ∧
      assignment.yardId = yardId ∧ assignment.userId = userId ∧ assignment.role = role ∧
      ((s.yardManagementRoles.Inserted roles assignment ∧
          assignment.workspaceId = yard.workspaceId ∧
          (s.rolesOf yardId).length < maximumYardManagementRoles ∧
          ((s.rolesOf yardId).length = 0 → role = .owner)) ∨
        ∃ previous, s.yardManagementRoles.Replaced roles previous assignment ∧
          assignment.workspaceId = previous.workspaceId ∧
          (previous.role = .owner → role ≠ .owner →
            ∃ b ∈ s.yardManagementRoles, b.yardId = yardId ∧ b.role = .owner ∧
              b.userId ≠ userId)) := by
  simp only [setYardManagementRole, bind_eq_ok, pure_eq_ok, ensure_eq_ok, ofOption_eq_ok,
    activeYard_eq_ok, Prod.mk.injEq] at h
  obtain ⟨-, -, yard, ⟨hyard, rfl, -⟩, -, -, -, ⟨u, hu, huid, huw, hua, -⟩, state, hstate, previous,
    hprevious, -, hfirst, -, hlimit, -, hsole, -, -, s₁, hupsert, s₂, haudit, found, hfound, _,
    rfl, rfl, rfl⟩ := h
  obtain ⟨hbound, hassignments, -⟩ := validateState_spec hstate
  have hprev := assignmentByUser_spec hprevious
  have hfound' := (assignmentByUser_spec hfound).symm
  have haudited := insertAudit_audited haudit
  obtain ⟨audits, rfl⟩ := insertAudit_spec haudit
  obtain ⟨hmem, hkey⟩ := Table.find?_eq_some.mp hfound'
  unfold upsertAssignment at hupsert
  split at hupsert
  · rename_i hnone
    rw [hnone] at hprev
    simp only [bind_eq_ok, pure_eq_ok, insertRow_eq_ok] at hupsert
    obtain ⟨roles, hroles, rfl⟩ := hupsert
    have hinserted := Table.inserted_of_insert hroles
    obtain rfl := Table.eq_of_key hmem hinserted.mem_new hkey
    refine ⟨yard, roles, audits, rfl, hyard, rfl, ⟨u, hu, huid, huw, hua⟩, haudited, rfl, rfl, rfl,
      Or.inl ⟨hinserted, rfl, ?_, ?_⟩⟩
    · have hne : ¬maximumYardManagementRoles ≤ state.assignments := fun hle => hlimit ⟨hprev, hle⟩
      omega
    · intro hzero
      by_contra hrole
      exact hfirst ⟨hassignments.trans hzero, hrole⟩
  · rename_i existing hsome
    rw [hsome] at hprev
    simp only [bind_eq_ok, pure_eq_ok] at hupsert
    obtain ⟨-, -, rfl⟩ := hupsert
    obtain ⟨hexisting, hekey⟩ := Table.find?_eq_some.mp hsome
    obtain ⟨heyard, heuser⟩ := Prod.ext_iff.mp hekey
    simp only at heyard heuser
    have hreplaced : s.yardManagementRoles.Replaced _ existing
        { existing with role, updatedAtMs := nowMs } :=
      Table.replaced_update (f := fun a => { a with role, updatedAtMs := nowMs })
        (p := fun a => a.yardId = yard.id ∧ a.userId = userId) hexisting fun a ha =>
          ⟨fun hp => Table.eq_of_key ha hexisting
            (Prod.ext (hp.1.trans heyard.symm) (hp.2.trans heuser.symm)),
            fun heq => heq ▸ ⟨heyard, heuser⟩⟩
    obtain rfl := Table.eq_of_key hmem hreplaced.mem_new (hkey.trans hekey.symm)
    refine ⟨yard, _, audits, rfl, hyard, rfl, ⟨u, hu, huid, huw, hua⟩, haudited, heyard, heuser, rfl,
      Or.inr ⟨existing, hreplaced, rfl, fun howner hrole => ?_⟩⟩
    have hnot : state.owners ≠ 1 := fun hone =>
      hsole ⟨⟨existing, hprev, howner⟩, hrole, hone⟩
    rw [← heuser]
    exact other_owner hstate hexisting heyard howner hnot

/-- The assignment is read back, so that it decodes. -/
theorem setYardManagementRole_valid {role : YardManagementRole}
    {assignment : YardManagementRoleAssignment}
    (h : s.setYardManagementRole yardId userId role nowMs event = .ok (assignment, s')) :
    ValidAssignment assignment := by
  simp only [setYardManagementRole, bind_eq_ok, pure_eq_ok, ofOption_eq_ok, Prod.mk.injEq] at h
  obtain ⟨-, -, yard, -, -, -, -, -, state, -, previous, -, -, -, -, -, -, -, -, -, s₁, -, s₂, -,
    found, hfound, _, rfl, rfl, rfl⟩ := h
  unfold assignmentByUser at hfound
  split at hfound
  · cases hfound
  · simp only [bind_eq_ok, pure_eq_ok, ensure_eq_ok, Option.some.injEq] at hfound
    obtain ⟨-, hvalid, rfl⟩ := hfound
    exact hvalid

/-- Revoking a role deletes one assignment; when it is an owner, another owner is left. -/
theorem revokeYardManagementRole_spec
    (h : s.revokeYardManagementRole yardId userId nowMs event = .ok s') :
    ∃ previous audits,
      s' = { s with
        yardManagementRoles := s.yardManagementRoles.erase fun a =>
          a.yardId = yardId ∧ a.userId = userId
        auditEvents := audits } ∧
      previous ∈ s.yardManagementRoles ∧ previous.yardId = yardId ∧ previous.userId = userId ∧
      (previous.role = .owner →
        ∃ b ∈ s.yardManagementRoles, b.yardId = yardId ∧ b.role = .owner ∧ b.userId ≠ userId) ∧
      Audited s.auditEvents audits event := by
  simp only [revokeYardManagementRole, bind_eq_ok, ensure_eq_ok, requireRow_eq_ok] at h
  obtain ⟨-, -, yard, -, state, hstate, found, hfound, previous, rfl, -, hsole, -, -, -, -,
    haudit⟩ := h
  obtain ⟨hmem, hkey⟩ := Table.find?_eq_some.mp (assignmentByUser_spec hfound).symm
  obtain ⟨hyard, huser⟩ := Prod.ext_iff.mp hkey
  simp only at hyard huser
  have haudited := insertAudit_audited haudit
  obtain ⟨audits, rfl⟩ := insertAudit_spec haudit
  refine ⟨previous, audits, rfl, hmem, hyard, huser, fun howner => ?_, haudited⟩
  rw [← huser]
  exact other_owner hstate hmem hyard howner fun hone => hsole ⟨howner, hone⟩

end Repository

end BlobYard
