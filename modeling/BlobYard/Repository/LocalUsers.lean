/-
Local users of a workspace and their login keys.

A user is created with its runtime subject and one login key; deactivating it revokes the keys,
the subject and the sessions and takes the user out of every group.

* `createLocalUser`, `resetLocalUserLoginKey`, `deactivateLocalUser`;
* `authenticateLocalUserKey`;
* `*_spec` — what each operation changes.
-/
import BlobYard.Repository.WorkspaceGroups
import BlobYard.Repository.YardSessions

namespace BlobYard

open Outcome

/-! ### Validation -/

/-- `validate_new_key`. -/
def validateNewKey (key : LocalUserLoginKeyRecord) : Except RepositoryError Unit := do
  validateRecord key.id key.userId
  validateText key.tokenPrefix
  validateHash key.secretHash
  ensure (key.createdAtMs < key.expiresAtMs ∧ key.lastUsedAtMs = none ∧ key.revokedAtMs = none)
    .invalidInput

/-- `validate_user_event`: the metadata must be exactly the user identifier. -/
def validateUserEvent (event : NewAuditEvent) (action : String) (user : LocalUserRecord)
    (createdAtMs : ℕ) : Except RepositoryError Unit :=
  ensure (event.action = action ∧ event.targetType = "local_user" ∧
    event.workspaceId = user.workspaceId ∧ event.createdAtMs = createdAtMs ∧
    event.metadata = [("userId", .string user.id)]) .invalidInput

/-- `validate_new_user`. -/
def validateNewUser [Unicode] (user : LocalUserRecord) : Except RepositoryError Unit := do
  validateRecord user.id user.displayName
  validateText user.workspaceId
  ensure (∀ email ∈ user.email, ValidText email ∧ NormalizedEmail email) .invalidInput
  ensure (user.status = .active ∧ user.deactivatedAtMs = none) .invalidInput

/-- A login key that authenticates at `nowMs` by its secret. -/
def UsableKey (secretHash : String) (nowMs : ℕ) (key : LocalUserLoginKeyRecord) : Prop :=
  key.secretHash = secretHash ∧ key.revokedAtMs = none ∧ key.createdAtMs ≤ nowMs ∧
    nowMs < key.expiresAtMs

instance (secretHash : String) (nowMs : ℕ) : DecidablePred (UsableKey secretHash nowMs) :=
  fun key => inferInstanceAs (Decidable (key.secretHash = secretHash ∧ key.revokedAtMs = none ∧
    key.createdAtMs ≤ nowMs ∧ nowMs < key.expiresAtMs))

namespace Repository

/-- `active_user`. -/
def activeLocalUser (s : Repository) (userId : String) : Except RepositoryError LocalUserRecord := do
  let user ← requireRow (s.localUsers.find? userId)
  ensure (user.status = .active) .conflict
  return user

/-- `insert_key`. -/
def insertLoginKey (s : Repository) (key : LocalUserLoginKeyRecord) :
    Except RepositoryError Repository := do
  toI64 key.expiresAtMs
  ensure (∀ k ∈ s.localUserLoginKeys, k.secretHash ≠ key.secretHash) .conflict
  let localUserLoginKeys ← insertRow s.localUserLoginKeys
    { key with lastUsedAtMs := none, revokedAtMs := none }
  return { s with localUserLoginKeys }

/-- `revoke_active_keys`. -/
def revokeActiveKeys (s : Repository) (userId : String) (nowMs : ℕ) :
    Except RepositoryError Repository := do
  ensure (∀ k ∈ s.localUserLoginKeys, (k.userId = userId ∧ k.revokedAtMs = none) →
    k.createdAtMs ≤ nowMs) .conflict
  return { s with
    localUserLoginKeys := s.localUserLoginKeys.update
      (fun k => k.userId = userId ∧ k.revokedAtMs = none)
      fun k => { k with revokedAtMs := some nowMs } }

/-- `insert_member_subject`. -/
def insertMemberSubject (s : Repository) (user : LocalUserRecord) :
    Except RepositoryError Repository := do
  ensure (∀ x ∈ s.yardSubjects, x.localUserId ≠ some user.id) .conflict
  let yardSubjects ← insertRow s.yardSubjects
    { id := user.id, kind := .member, workspaceId := user.workspaceId,
      localUserId := some user.id, invitationId := none, createdAtMs := user.createdAtMs,
      revokedAtMs := none }
  return { s with yardSubjects }

/-- A member subject that has not been revoked. -/
def LiveMember (userId : String) (x : YardSubjectRecord) : Prop :=
  x.id = userId ∧ x.kind = .member ∧ x.revokedAtMs = none

instance (userId : String) : DecidablePred (LiveMember userId) := fun x =>
  inferInstanceAs (Decidable (x.id = userId ∧ x.kind = .member ∧ x.revokedAtMs = none))

/-- `revoke_member_subject`. -/
def revokeMemberSubject (s : Repository) (userId : String) (nowMs : ℕ) :
    Except RepositoryError Repository := do
  ensure (∀ x ∈ s.yardSubjects, LiveMember userId x → x.createdAtMs ≤ nowMs) .conflict
  changedOnce (s.yardSubjects.count (LiveMember userId))
  return { s with
    yardSubjects := s.yardSubjects.update (LiveMember userId)
      fun x => { x with revokedAtMs := some nowMs } }

/-- `create_local_user`. -/
def createLocalUser [Unicode] (s : Repository) (user : LocalUserRecord)
    (key : LocalUserLoginKeyRecord) (event : NewAuditEvent) :
    Except RepositoryError Repository := do
  validateNewUser user
  validateNewKey key
  ensure (key.userId = user.id ∧ key.createdAtMs = user.createdAtMs) .invalidInput
  validateUserEvent event "user.created" user user.createdAtMs
  ensure (∃ w ∈ s.workspaces, w.id = user.workspaceId) .notFound
  toI64 key.createdAtMs
  ensure (∀ u ∈ s.localUsers, ¬(u.workspaceId = user.workspaceId ∧ u.email ≠ none ∧
    u.email = user.email ∧ u.status ≠ .deactivated)) .conflict
  let localUsers ← insertRow s.localUsers { user with status := .active, deactivatedAtMs := none }
  let s := { s with localUsers }
  let s ← s.insertMemberSubject user
  let s ← s.insertLoginKey key
  s.insertAudit event

/-- `reset_local_user_login_key`. -/
def resetLocalUserLoginKey (s : Repository) (key : LocalUserLoginKeyRecord) (nowMs : ℕ)
    (event : NewAuditEvent) : Except RepositoryError Repository := do
  validateNewKey key
  ensure (key.createdAtMs = nowMs) .invalidInput
  toI64 nowMs
  let user ← s.activeLocalUser key.userId
  validateUserEvent event "user.login_key_reset" user nowMs
  let s ← s.revokeActiveKeys user.id nowMs
  let s ← s.insertLoginKey key
  s.insertAudit event

/-- `deactivate_local_user`. -/
def deactivateLocalUser (s : Repository) (userId : String) (nowMs : ℕ) (event : NewAuditEvent) :
    Except RepositoryError Repository := do
  validateText userId
  toI64 nowMs
  let user ← s.activeLocalUser userId
  validateUserEvent event "user.deactivated" user nowMs
  ensure (user.createdAtMs ≤ nowMs) .conflict
  let s : Repository := { s with
    localUsers := s.localUsers.update (fun u => u.id = user.id ∧ u.status = .active)
      fun u => { u with status := .deactivated, deactivatedAtMs := some nowMs } }
  let s ← s.revokeActiveKeys user.id nowMs
  let s ← s.revokeMemberSubject user.id nowMs
  let s ← s.revokeForUser user.id nowMs
  let s ← s.removeUserMemberships user.workspaceId user.id
  s.insertAudit event

/-- `authenticate_local_user_key`. -/
def authenticateLocalUserKey (s : Repository) (secretHash : String) (nowMs : ℕ) :
    Except RepositoryError (LocalUserRecord × Repository) := do
  validateHash secretHash
  toI64 nowMs
  let key ← requireRow (s.localUserLoginKeys.select fun k => UsableKey secretHash nowMs k ∧
    ∃ u ∈ s.localUsers, u.id = k.userId ∧ u.status = .active).head?
  let user ← requireRow (s.localUsers.find? key.userId)
  return (user, { s with
    localUserLoginKeys := s.localUserLoginKeys.update (fun k => k.id = key.id)
      fun k => { k with lastUsedAtMs := some (max nowMs (k.lastUsedAtMs.getD 0)) } })

/-! ### What the operations do -/

variable {s s' : Repository} {nowMs : ℕ} {userId : String} {event : NewAuditEvent}

theorem activeLocalUser_eq_ok {user : LocalUserRecord} :
    s.activeLocalUser userId = .ok user ↔
      user ∈ s.localUsers ∧ user.id = userId ∧ user.status = .active := by
  simp only [activeLocalUser, bind_eq_ok, pure_eq_ok, ensure_eq_ok, requireRow_eq_ok,
    Table.find?_eq_some]
  constructor
  · rintro ⟨found, ⟨hmem, hid⟩, -, hactive, rfl⟩
    exact ⟨hmem, hid, hactive⟩
  · rintro ⟨hmem, hid, hactive⟩
    exact ⟨user, ⟨hmem, hid⟩, (), hactive, rfl⟩

/-- Creating a user inserts an active user and its live member subject. -/
theorem createLocalUser_spec [Unicode] {user : LocalUserRecord} {key : LocalUserLoginKeyRecord}
    (h : s.createLocalUser user key event = .ok s') :
    ∃ users subjects keys audits,
      s' = { s with
        localUsers := users, yardSubjects := subjects, localUserLoginKeys := keys
        auditEvents := audits } ∧
      user.status = .active ∧ s.localUsers.Inserted users user ∧
      s.yardSubjects.Inserted subjects
        { id := user.id, kind := .member, workspaceId := user.workspaceId,
          localUserId := some user.id, invitationId := none, createdAtMs := user.createdAtMs,
          revokedAtMs := none } ∧
      Audited s.auditEvents audits event := by
  simp only [createLocalUser, validateNewUser, insertMemberSubject, insertLoginKey, bind_eq_ok,
    pure_eq_ok, ensure_eq_ok, insertRow_eq_ok] at h
  obtain ⟨-, ⟨-, -, -, -, -, -, hactive, hnone⟩, -, -, -, -, -, -, -, -, -, -, -, -, users, husers,
    s₁, ⟨-, -, subjects, hsubjects, rfl⟩, s₂, ⟨-, -, -, -, keys, -, rfl⟩, haudit⟩ := h
  have haudited := insertAudit_audited haudit
  obtain ⟨audits, rfl⟩ := insertAudit_spec haudit
  have huser : { user with status := .active, deactivatedAtMs := none } = user := by
    cases user
    simp_all
  rw [huser] at husers
  exact ⟨users, subjects, keys, audits, rfl, hactive, Table.inserted_of_insert husers,
    Table.inserted_of_insert hsubjects, haudited⟩

/-- Resetting a login key changes keys alone. -/
theorem resetLocalUserLoginKey_spec {key : LocalUserLoginKeyRecord}
    (h : s.resetLocalUserLoginKey key nowMs event = .ok s') :
    ∃ keys audits, s' = { s with localUserLoginKeys := keys, auditEvents := audits } ∧
      Audited s.auditEvents audits event := by
  simp only [resetLocalUserLoginKey, revokeActiveKeys, insertLoginKey, bind_eq_ok, pure_eq_ok] at h
  obtain ⟨-, -, -, -, -, -, user, -, -, -, s₁, ⟨-, -, rfl⟩, s₂, ⟨-, -, -, -, keys, -, rfl⟩,
    haudit⟩ := h
  have haudited := insertAudit_audited haudit
  obtain ⟨audits, rfl⟩ := insertAudit_spec haudit
  exact ⟨keys, audits, rfl, haudited⟩

/-- Deactivating a user closes its row, revokes its keys, subject and sessions, and takes it out
of the groups it is a member of. -/
theorem deactivateLocalUser_spec (h : s.deactivateLocalUser userId nowMs event = .ok s') :
    ∃ user users keys subjects sessions audits,
      s' = { s with
        localUsers := users, localUserLoginKeys := keys, yardSubjects := subjects
        yardSessions := sessions
        workspaceGroups := s.workspaceGroups.update
          (fun g => s.HasMember user.workspaceId userId g.id)
          fun g => { g with memberCount := g.memberCount - 1 }
        workspaceGroupMembers := s.workspaceGroupMembers.erase fun m =>
          m.workspaceId = user.workspaceId ∧ m.userId = userId
        auditEvents := audits } ∧
      user.id = userId ∧ user.status = .active ∧
      s.localUsers.Replaced users user
        { user with status := .deactivated, deactivatedAtMs := some nowMs } ∧
      (∀ g ∈ s.workspaceGroups, s.HasMember user.workspaceId userId g.id → 0 < g.memberCount) ∧
      Audited s.auditEvents audits event ∧
      (∃ f, s.yardSessions.Mapped sessions f ∧ ∀ x ∈ s.yardSessions, issuedRow (f x) = issuedRow x) ∧
      s.yardSubjects.Mapped subjects (fun x =>
        if LiveMember userId x then { x with revokedAtMs := some nowMs } else x) := by
  simp only [deactivateLocalUser, revokeActiveKeys, revokeMemberSubject, revokeForUser,
    revokeSessions, bind_eq_ok, pure_eq_ok, activeLocalUser_eq_ok] at h
  obtain ⟨-, -, -, -, user, ⟨hmem, rfl, hactive⟩, -, -, -, -, s₁, ⟨-, -, rfl⟩, s₂,
    ⟨-, -, -, -, rfl⟩, s₃, ⟨-, -, rfl⟩, s₄, hmemberships, haudit⟩ := h
  obtain ⟨hpositive, rfl⟩ := removeUserMemberships_spec hmemberships
  have haudited := insertAudit_audited haudit
  obtain ⟨audits, rfl⟩ := insertAudit_spec haudit
  refine ⟨user, _, _, _, _, audits, rfl, rfl, hactive,
    Table.replaced_update hmem (Table.guard_iff_eq hmem hactive), hpositive, haudited,
    ⟨_, Table.mapped_update, fun x _ => ?_⟩, Table.mapped_update⟩
  split <;> rfl

/-- Authenticating marks a key as used and changes nothing else. -/
theorem authenticateLocalUserKey_spec {secretHash : String} {user : LocalUserRecord}
    (h : s.authenticateLocalUserKey secretHash nowMs = .ok (user, s')) :
    ∃ keys, s' = { s with localUserLoginKeys := keys } := by
  simp only [authenticateLocalUserKey, bind_eq_ok, pure_eq_ok, Prod.mk.injEq] at h
  obtain ⟨-, -, -, -, key, -, found, -, -, rfl⟩ := h
  exact ⟨_, rfl⟩

end Repository

end BlobYard
