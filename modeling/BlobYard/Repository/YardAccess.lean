/-
Access policies and access grants of a yard.

A grant names a principal, an optional environment and a list of application roles; the roles
must be declared by the approved application policy of the yard.  A row is validated again
whenever it is read, so an operation that returns a grant has decoded it.

* `insertYardAccessGrant`, `revokeYardAccessGrant`, `setYardAccessRoles`;
* `listYardAccessGrants` — the grants in force, every one of them decoded;
* `*_spec` — what each operation changes.
-/
import BlobYard.Repository.WorkspaceGroups

namespace BlobYard

open Outcome

def maximumYardAccessRoles : ℕ := 16

/-- `yard_access_record_validation::validate`: what the decoder of a grant row requires. -/
structure ValidGrant (grant : YardAccessGrantRecord) : Prop where
  texts : ∀ text ∈ [grant.id, grant.yardId, grant.principalId, grant.createdByPrincipal],
    ValidText text
  environment : ∀ id ∈ grant.environmentId, ValidText id
  lifecycle : match grant.status with
    | .active => grant.revokedAtMs = none
    | .revoked => (grant.revokedAtMs.any (grant.createdAtMs ≤ ·)) = true
  expiry : ∀ atMs ∈ grant.expiresAtMs, grant.createdAtMs ≤ atMs
  roles : ValidRoles grant.appRoles

instance (grant : YardAccessGrantRecord) : Decidable (ValidGrant grant) := by
  have : Decidable (match grant.status with
      | .active => grant.revokedAtMs = none
      | .revoked => (grant.revokedAtMs.any (grant.createdAtMs ≤ ·)) = true) := by
    cases grant.status <;> infer_instance
  exact decidable_of_iff (_ ∧ _ ∧ _ ∧ _ ∧ _)
    ⟨fun h => ⟨h.1, h.2.1, h.2.2.1, h.2.2.2.1, h.2.2.2.2⟩,
      fun h => ⟨h.texts, h.environment, h.lifecycle, h.expiry, h.roles⟩⟩

/-- `grant`: the row, or `Unavailable` when it does not pass its own validation. -/
def decodeGrant (grant : YardAccessGrantRecord) : Except RepositoryError YardAccessGrantRecord := do
  ensure (ValidGrant grant) .unavailable
  return grant

@[simp] theorem decodeGrant_eq_ok {grant grant' : YardAccessGrantRecord} :
    decodeGrant grant = .ok grant' ↔ ValidGrant grant ∧ grant = grant' := by
  simp [decodeGrant]

namespace Repository

/-! ### Queries -/

/-- `active_yard`. -/
def activeYard (s : Repository) (yardId : String) : Except RepositoryError WebYardRecord := do
  let yard ← s.yardById yardId
  ensure (yard.status = .active) .notFound
  return yard

/-- `grant_by_id`. -/
def grantById (s : Repository) (grantId : String) :
    Except RepositoryError (Option YardAccessGrantRecord) :=
  match s.yardAccessGrants.find? grantId with
  | none => return none
  | some grant => some <$> decodeGrant grant

/-- `list_yard_access_grants`. -/
def listYardAccessGrants (s : Repository) (yardId : String) (nowMs : ℕ) :
    Except RepositoryError (List YardAccessGrantRecord) := do
  validateText yardId
  toI64 nowMs
  let grants := orderBy
    (fun g : YardAccessGrantRecord => toLex (OrderDual.toDual g.createdAtMs, OrderDual.toDual g.id))
    (s.yardAccessGrants.select fun g => g.yardId = yardId ∧ g.status = .active ∧
      ∀ expires ∈ g.expiresAtMs, nowMs < expires)
  grants.mapM decodeGrant

/-- `validated_roles`: the roles in order, each one declared by the approved policy. -/
def validatedRoles (s : Repository) (yardId : String) (roles : List String) :
    Except RepositoryError (List String) := do
  ensure (roles.length ≤ maximumYardAccessRoles) .conflict
  let canonical ← canonicalRoles roles
  if canonical = [] then return canonical
  else do
    let policy ← ofOption .invalidInput (s.yardApplicationPolicies.find? yardId)
    ensure (∀ role ∈ canonical, role ∈ policy.policy.roles.map Prod.fst) .invalidInput
    return canonical

/-! ### Visibility -/

/-! ### Inserting -/

/-- `require_active_environment`. -/
def ActiveEnvironment (s : Repository) (yardId environmentId : String) : Prop :=
  ∃ e ∈ s.yardEnvironments, e.id = environmentId ∧ e.yardId = yardId ∧ e.status = .active

instance (s : Repository) (yardId environmentId : String) :
    Decidable (s.ActiveEnvironment yardId environmentId) :=
  inferInstanceAs (Decidable (∃ e ∈ s.yardEnvironments, _))

/-- `require_active_group` and `require_group_grant_capacity`. -/
def requireGroupPrincipal (s : Repository) (workspaceId groupId : String) :
    Except RepositoryError Unit := do
  ensure (∃ g ∈ s.workspaceGroups, g.id = groupId ∧ g.workspaceId = workspaceId ∧
    g.status = .active) .notFound
  ensure (s.yardAccessGrants.count (ActiveGroupGrant groupId) < maximumActiveGroupGrants) .conflict

/-- `yard_access_principals::validate`. -/
def validatePrincipal (s : Repository) (yard : WebYardRecord) (grant : NewYardAccessGrant) :
    Except RepositoryError Unit := do
  ensure (¬((grant.principalKind = .user ∨ grant.principalKind = .group) ∧
    ∃ x ∈ s.yardSubjects, x.id = grant.principalId ∧ x.kind = .guest)) .invalidInput
  match grant.principalKind with
  | .user => ensure (s.ActiveUser yard.workspaceId grant.principalId) .notFound
  | .group => s.requireGroupPrincipal yard.workspaceId grant.principalId
  | _ => .ok ()

/-- `validated_grant_yard`. -/
def validatedGrantYard (s : Repository) (grant : NewYardAccessGrant) :
    Except RepositoryError WebYardRecord := do
  ensure (grant.principalKind ≠ .guestInvite) .invalidInput
  validateTexts [grant.id, grant.yardId, grant.principalId, grant.createdByPrincipal]
  let yard ← s.activeYard grant.yardId
  ensure (∀ id ∈ grant.environmentId, ValidText id ∧ s.ActiveEnvironment yard.id id) .invalidInput
  ensure (∀ expires ∈ grant.expiresAtMs, grant.createdAtMs ≤ expires) .invalidInput
  s.validatePrincipal yard grant
  return yard

/-- The row of a new grant. -/
def grantRow (grant : NewYardAccessGrant) (roles : List String) : YardAccessGrantRecord where
  id := grant.id
  yardId := grant.yardId
  environmentId := grant.environmentId
  principalKind := grant.principalKind
  principalId := grant.principalId
  appRoles := roles
  status := .active
  createdAtMs := grant.createdAtMs
  createdByPrincipal := grant.createdByPrincipal
  expiresAtMs := grant.expiresAtMs
  revokedAtMs := none

/-- `insert_yard_access_grant`. -/
def insertYardAccessGrant (s : Repository) (grant : NewYardAccessGrant) (event : NewAuditEvent) :
    Except RepositoryError (YardAccessGrantRecord × Repository) := do
  let yard ← s.validatedGrantYard grant
  let roles ← s.validatedRoles yard.id grant.appRoles
  validateActionEvent event "yard.access_granted" "yard_access_grant" yard.workspaceId
    grant.createdAtMs
    [("environmentId", auditText grant.environmentId), ("grantId", .string grant.id),
     ("principalKind", .string grant.principalKind.asStr), ("yardId", .string yard.id)]
  forM grant.expiresAtMs.toList toI64
  let yardAccessGrants ← insertRow s.yardAccessGrants (grantRow grant roles)
  let s := { s with yardAccessGrants }
  let s ← s.insertAudit event
  let found ← s.grantById grant.id
  let record ← ofOption .unavailable found
  return (record, s)

/-! ### Revoking and changing roles -/

/-- `revoke_yard_access_grant`. -/
def revokeYardAccessGrant (s : Repository) (yardId grantId : String) (revokedAtMs : ℕ)
    (event : NewAuditEvent) : Except RepositoryError (Bool × Repository) := do
  validateTexts [yardId, grantId]
  let yard ← s.activeYard yardId
  let found ← s.grantById grantId
  let grant ← requireRow found
  ensure (grant.yardId = yard.id) .notFound
  ensure (grant.principalKind ≠ .guestInvite) .invalidInput
  if grant.status = .revoked then return (false, s)
  else do
    validateActionEvent event "yard.access_revoked" "yard_access_grant" yard.workspaceId
      revokedAtMs [("grantId", .string grant.id), ("yardId", .string yard.id)]
    ensure (grant.createdAtMs ≤ revokedAtMs) .conflict
    let s : Repository := { s with
      yardAccessGrants := s.yardAccessGrants.update (fun g => g.id = grant.id ∧ g.status = .active)
        (fun g => { g with status := .revoked, revokedAtMs := some revokedAtMs })
        (YardAccessGrantRecord.revoked_id revokedAtMs) }
    let s ← s.insertAudit event
    return (true, s)

/-- `set_yard_access_roles`. -/
def setYardAccessRoles [JsonWriter] (s : Repository) (yardId grantId : String)
    (appRoles : List String) (nowMs : ℕ) (event : NewAuditEvent) :
    Except RepositoryError (YardAccessGrantRecord × Repository) := do
  toI64 nowMs
  let yard ← s.activeYard yardId
  let found ← s.grantById grantId
  let grant ← requireRow found
  ensure (grant.yardId = yard.id ∧ grant.status = .active) .notFound
  let roles ← s.validatedRoles yardId appRoles
  validateActionEvent event "yard.access_roles_set" "yard_access_grant" yard.workspaceId nowMs
    [("from", .string (jsonTexts (orderBy id grant.appRoles))), ("grantId", .string grantId),
     ("to", .string (jsonTexts roles)), ("yardId", .string yardId)]
  changedOnce (s.yardAccessGrants.count fun g =>
    g.id = grantId ∧ g.yardId = yardId ∧ g.status = .active)
  let s : Repository := { s with
    yardAccessGrants := s.yardAccessGrants.update
      (fun g => g.id = grantId ∧ g.yardId = yardId ∧ g.status = .active)
      fun g => { g with appRoles := roles } }
  let s ← s.insertAudit event
  let changed ← s.grantById grantId
  let record ← ofOption .unavailable changed
  return (record, s)

/-! ### What the operations do -/

variable {s s' : Repository} {yardId grantId : String} {event : NewAuditEvent}

theorem activeYard_eq_ok {yard : WebYardRecord} :
    s.activeYard yardId = .ok yard ↔ yard ∈ s.webYards ∧ yard.id = yardId ∧
      yard.status = .active := by
  simp only [activeYard, bind_eq_ok, pure_eq_ok, ensure_eq_ok, yardById_eq_ok]
  constructor
  · rintro ⟨found, ⟨hmem, hid⟩, -, hactive, rfl⟩
    exact ⟨hmem, hid, hactive⟩
  · rintro ⟨hmem, hid, hactive⟩
    exact ⟨yard, ⟨hmem, hid⟩, (), hactive, rfl⟩

theorem yardById_eq_error {e : RepositoryError} :
    s.yardById yardId = .error e ↔ (∀ yard ∈ s.webYards, yard.id ≠ yardId) ∧ .notFound = e := by
  rw [yardById, requireRow, ofOption_eq_error, Table.find?_eq_none]

theorem activeYard_eq_error {e : RepositoryError} :
    s.activeYard yardId = .error e ↔
      (∀ yard ∈ s.webYards, yard.id = yardId → yard.status ≠ .active) ∧ .notFound = e := by
  simp only [activeYard, bind_eq_error, ensure_eq_error, yardById_eq_ok, yardById_eq_error]
  constructor
  · rintro (⟨hnone, rfl⟩ | ⟨yard, ⟨hmem, hid⟩, ⟨hinactive, rfl⟩ | ⟨-, -, hpure⟩⟩)
    · exact ⟨fun yard hyard hid => absurd hid (hnone yard hyard), rfl⟩
    · refine ⟨fun other hother hsame => ?_, rfl⟩
      rwa [Table.eq_of_key hother hmem (hsame.trans hid.symm)]
    · cases hpure
  · rintro ⟨hinactive, rfl⟩
    by_cases hfound : ∃ yard ∈ s.webYards, yard.id = yardId
    · obtain ⟨yard, hmem, hid⟩ := hfound
      exact Or.inr ⟨yard, ⟨hmem, hid⟩, Or.inl ⟨hinactive yard hmem hid, rfl⟩⟩
    · exact Or.inl ⟨fun yard hyard hid => hfound ⟨yard, hyard, hid⟩, rfl⟩

theorem grantById_eq_ok_some {grant : YardAccessGrantRecord} :
    s.grantById grantId = .ok (some grant) ↔
      grant ∈ s.yardAccessGrants ∧ grant.id = grantId ∧ ValidGrant grant := by
  unfold grantById
  cases hfind : s.yardAccessGrants.find? grantId with
  | none =>
    have hnone : ∀ g ∈ s.yardAccessGrants, g.id ≠ grantId := Table.find?_eq_none.mp hfind
    simp only [pure_eq_ok, reduceCtorEq, false_iff]
    rintro ⟨hmem, hid, -⟩
    exact hnone grant hmem hid
  | some found =>
    have hfound := Table.find?_eq_some.mp hfind
    simp only [map_eq_ok, decodeGrant_eq_ok, Option.some.injEq]
    constructor
    · rintro ⟨_, ⟨hvalid, rfl⟩, rfl⟩
      exact ⟨hfound.1, hfound.2, hvalid⟩
    · rintro ⟨hmem, hid, hvalid⟩
      obtain rfl := Table.eq_of_key hmem hfound.1 (hid.trans hfound.2.symm)
      exact ⟨grant, ⟨hvalid, rfl⟩, rfl⟩

/-- The roles that validation lets through are well-formed. -/
theorem validRoles_of_validatedRoles {roles canonical : List String}
    (h : s.validatedRoles yardId roles = .ok canonical) : ValidRoles canonical := by
  simp only [validatedRoles, canonicalRoles, bind_eq_ok, pure_eq_ok, ensure_eq_ok] at h
  obtain ⟨-, -, _, ⟨-, hvalid, rfl⟩, h⟩ := h
  split at h
  · rw [pure_eq_ok] at h
    exact h ▸ hvalid
  · simp only [bind_eq_ok, pure_eq_ok] at h
    obtain ⟨-, -, -, -, rfl⟩ := h
    exact hvalid

/-- The principal of a new grant of the yard, by its kind. -/
structure AdmissiblePrincipal (s : Repository) (yard : WebYardRecord)
    (grant : YardAccessGrantRecord) : Prop where
  notGuest : grant.principalKind ≠ .guestInvite
  user : grant.principalKind = .user → s.ActiveUser yard.workspaceId grant.principalId
  group : grant.principalKind = .group →
    (∃ g ∈ s.workspaceGroups, g.id = grant.principalId ∧ g.workspaceId = yard.workspaceId ∧
      g.status = .active) ∧
    s.yardAccessGrants.count (ActiveGroupGrant grant.principalId) < maximumActiveGroupGrants

/-- Inserting a grant inserts one active row that decodes, for an admissible principal. -/
theorem insertYardAccessGrant_spec {grant : NewYardAccessGrant} {record : YardAccessGrantRecord}
    (h : s.insertYardAccessGrant grant event = .ok (record, s')) :
    ∃ yard grants audits,
      s' = { s with yardAccessGrants := grants, auditEvents := audits } ∧
      yard ∈ s.webYards ∧ yard.id = record.yardId ∧
      record.status = .active ∧ ValidGrant record ∧ AdmissiblePrincipal s yard record ∧
      s.yardAccessGrants.Inserted grants record := by
  simp only [insertYardAccessGrant, validatedGrantYard, validatePrincipal, bind_eq_ok, pure_eq_ok,
    ensure_eq_ok, ofOption_eq_ok, insertRow_eq_ok, activeYard_eq_ok, Prod.mk.injEq] at h
  obtain ⟨_, ⟨-, hkind, -, -, yard, ⟨hyard, hid, -⟩, -, -, -, -, _, ⟨-, -, hprincipal⟩, rfl⟩,
    roles, -, -, -, -, -, grants, hgrants, s₁, haudit, found, hfound, _, rfl, rfl, rfl⟩ := h
  obtain ⟨audits, rfl⟩ := insertAudit_spec haudit
  have hinserted := Table.inserted_of_insert hgrants
  obtain ⟨hmem, hgrant, hvalid⟩ := grantById_eq_ok_some.mp hfound
  obtain rfl := Table.eq_of_key hmem hinserted.mem_new hgrant
  refine ⟨yard, grants, audits, rfl, hyard, hid, rfl, hvalid, ⟨hkind, fun hk => ?_, fun hk => ?_⟩,
    hinserted⟩
  · have hk' : grant.principalKind = .user := hk
    simpa [hk', grantRow] using hprincipal
  · have hk' : grant.principalKind = .group := hk
    simpa [hk', grantRow, requireGroupPrincipal] using hprincipal

/-- Revoking a grant changes nothing when it is revoked already, and otherwise closes one active
row that is not a guest grant. -/
theorem revokeYardAccessGrant_spec {revokedAtMs : ℕ} {revoked : Bool}
    (h : s.revokeYardAccessGrant yardId grantId revokedAtMs event = .ok (revoked, s')) :
    s' = s ∨ ∃ grant grants audits,
      s' = { s with yardAccessGrants := grants, auditEvents := audits } ∧
      grant.id = grantId ∧ grant.principalKind ≠ .guestInvite ∧ grant.createdAtMs ≤ revokedAtMs ∧
      s.yardAccessGrants.Replaced grants grant
        { grant with status := .revoked, revokedAtMs := some revokedAtMs } := by
  simp only [revokeYardAccessGrant, bind_eq_ok, requireRow_eq_ok, ensure_eq_ok] at h
  obtain ⟨-, -, yard, -, found, hfound, grant, rfl, -, -, -, hkind, h⟩ := h
  obtain ⟨hmem, hid, -⟩ := grantById_eq_ok_some.mp hfound
  split at h
  · simp only [pure_eq_ok, Prod.mk.injEq] at h
    exact Or.inl h.2.symm
  · rename_i hstatus
    simp only [bind_eq_ok, pure_eq_ok, ensure_eq_ok, Prod.mk.injEq] at h
    obtain ⟨-, -, -, htime, s₁, haudit, -, rfl⟩ := h
    obtain ⟨audits, rfl⟩ := insertAudit_spec haudit
    have hactive : grant.status = .active := by
      cases hs : grant.status with
      | active => rfl
      | revoked => exact absurd hs hstatus
    exact Or.inr ⟨grant, _, audits, rfl, hid, hkind, htime,
      Table.replaced_update hmem (Table.guard_iff_eq hmem hactive)⟩

/-- Setting roles rewrites the roles of one active grant, which decodes afterwards. -/
theorem setYardAccessRoles_spec [JsonWriter] {appRoles : List String} {nowMs : ℕ}
    {record : YardAccessGrantRecord}
    (h : s.setYardAccessRoles yardId grantId appRoles nowMs event = .ok (record, s')) :
    ∃ grant roles grants audits,
      s' = { s with yardAccessGrants := grants, auditEvents := audits } ∧
      grant.id = grantId ∧ record = { grant with appRoles := roles } ∧ ValidGrant record ∧
      s.yardAccessGrants.Replaced grants grant record := by
  simp only [setYardAccessRoles, bind_eq_ok, pure_eq_ok, ensure_eq_ok, ofOption_eq_ok,
    requireRow_eq_ok, activeYard_eq_ok, Prod.mk.injEq] at h
  obtain ⟨-, -, yard, ⟨-, hyard, -⟩, found, hfound, grant, rfl, -, ⟨hscope, hactive⟩, roles, -, -,
    -, -, -, s₁, haudit, changed, hchanged, _, rfl, rfl, rfl⟩ := h
  obtain ⟨audits, rfl⟩ := insertAudit_spec haudit
  obtain ⟨hmem, rfl, -⟩ := grantById_eq_ok_some.mp hfound
  have hreplaced : s.yardAccessGrants.Replaced _ grant { grant with appRoles := roles } :=
    Table.replaced_update (f := fun g => { g with appRoles := roles }) hmem
      (Table.guard_iff_eq (q := fun g => g.yardId = yardId ∧ g.status = .active) hmem
        ⟨hscope.trans hyard, hactive⟩)
  obtain ⟨hmem', hid', hvalid⟩ := grantById_eq_ok_some.mp hchanged
  obtain rfl := Table.eq_of_key hmem' hreplaced.mem_new hid'
  exact ⟨grant, roles, _, audits, rfl, rfl, rfl, hvalid, hreplaced⟩

end Repository

/-! ### As one kind of request -/

/-- The operations on grants that are not about invitations. -/
inductive GrantRequest where
  | insert (grant : NewYardAccessGrant) (event : NewAuditEvent)
  | revoke (yardId grantId : String) (revokedAtMs : ℕ) (event : NewAuditEvent)
  | setRoles (yardId grantId : String) (appRoles : List String) (nowMs : ℕ)
    (event : NewAuditEvent)

def GrantRequest.run [JsonWriter] (s : Repository) :
    GrantRequest → Except RepositoryError Repository
  | .insert grant event => Prod.snd <$> s.insertYardAccessGrant grant event
  | .revoke yardId grantId revokedAtMs event =>
    Prod.snd <$> s.revokeYardAccessGrant yardId grantId revokedAtMs event
  | .setRoles yardId grantId appRoles nowMs event =>
    Prod.snd <$> s.setYardAccessRoles yardId grantId appRoles nowMs event

end BlobYard
