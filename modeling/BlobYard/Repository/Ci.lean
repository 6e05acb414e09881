/-
Trusts for continuous integration, and the machine sessions they mint.

An assertion of a workflow is exchanged for a session of the most specific trust that covers
it: trusts of one project come before those of a whole workspace, newer ones before older ones.
An assertion is exchanged once, and a trust mints twenty sessions a minute.  Revoking a trust
revokes every session it has minted, and every token of these sessions.

* `matchingTrust`, `rateRetry`, `mintMachineSession` — the exchange;
* `revokeCiTrust` — the end of a trust;
* `SessionTrustValid`, `authenticateMachineSession`, `authenticateApiToken` — what a bearer
  credential is checked against;
* `matchingTrust_spec`, `mintMachineSession_cases`, `authenticateMachineSession_spec`,
  `authenticateApiToken_spec` — what these do when they succeed.
-/
import BlobYard.Lib.Glob
import BlobYard.Lib.Order
import BlobYard.Repository.Credentials

namespace BlobYard

open Outcome

/-! ### Validation -/

/-- `MACHINE_SESSION_TTL_MS`: fifteen minutes. -/
def machineSessionTtlMs : ℕ := 900000

/-- `EXCHANGE_RATE_LIMIT`. -/
def exchangeRateLimit : ℕ := 20

/-- `EXCHANGE_RATE_WINDOW_MS`: a minute. -/
def exchangeRateWindowMs : ℕ := 60000

/-- `validate_trust`. -/
def validateTrust (trust : LocalCiTrustRecord) : Except RepositoryError Unit := do
  validateTexts [trust.id, trust.workspaceId, trust.repository, trust.workflowPath,
    trust.workflowRef, trust.allowedRefGlob, trust.audience]
  validateTexts trust.projectId.toList
  validateTexts trust.environment.toList
  ensure (trust.revokedAtMs = none ∧ ValidRepository trust.repository ∧
    ValidWorkflowPath trust.workflowPath ∧ ValidGitRef trust.workflowRef ∧
    ValidRefGlob trust.allowedRefGlob) .invalidInput
  ensure (ValidActions trust.allowedActions) .invalidInput
  toI64 trust.createdAtMs

/-- The name of the token of a machine session. -/
def machineTokenName (repository runId : String) : String :=
  "GitHub Actions " ++ repository ++ " run " ++ runId

/-- `validate_exchange`. -/
def validateExchange (session : NewMachineSession) : Except RepositoryError Unit := do
  validateHash session.oidcTokenHash
  validateHash session.secretHash
  validateTexts [session.project, session.identity.audience, session.identity.repository,
    session.identity.gitRef, session.identity.workflowPath, session.identity.workflowRef,
    session.identity.runId]
  validateTexts session.workspace.toList
  validateTexts session.identity.environment.toList
  validateTexts session.identity.runAttempt.toList
  validateTexts session.identity.sha.toList
  ensure (ValidActions session.actions) .invalidInput
  toI64 session.nowMs
  toI64 session.identity.expiresAtMs
  ensure ("machine_".toList <+: session.id.toList ∧ ValidText session.id ∧ ValidText session.tokenPrefix ∧
    ValidText (machineTokenName session.identity.repository session.identity.runId) ∧
    session.nowMs < session.identity.expiresAtMs ∧
    session.identity.expiresAtMs ≤ session.nowMs + machineSessionTtlMs ∧
    ValidRepository session.identity.repository ∧ ValidGitRef session.identity.gitRef ∧
    ValidWorkflowPath session.identity.workflowPath ∧ ValidGitRef session.identity.workflowRef)
    .invalidInput

/-- `ci_validation::validate_event`. -/
def validateCiEvent (event : NewAuditEvent)
    (action targetType targetId repository workspaceId : String) (createdAtMs : ℕ) :
    Except RepositoryError Unit :=
  validateRecordedEvent event action targetType workspaceId createdAtMs
    [("repository", .string repository), ("targetId", .string targetId)]

/-- `ref_matches`. -/
def refMatches (value glob : String) : Bool := Glob.globMatch '*' glob.toList value.toList

/-! ### What a trust covers -/

/-- `claims_match`: the trust covers the claims of the assertion and the requested actions. -/
def ClaimsMatch (trust : LocalCiTrustRecord) (session : NewMachineSession) : Prop :=
  trust.audience = session.identity.audience ∧
    trust.workflowPath = session.identity.workflowPath ∧
    trust.workflowRef = session.identity.workflowRef ∧
    trust.environment = session.identity.environment ∧
    refMatches session.identity.gitRef trust.allowedRefGlob = true ∧
    ∀ action ∈ session.actions, action ∈ trust.allowedActions

instance (trust : LocalCiTrustRecord) (session : NewMachineSession) :
    Decidable (ClaimsMatch trust session) :=
  inferInstanceAs (Decidable (_ ∧ _ ∧ _ ∧ _ ∧ _ ∧ _))

/-- `session_trust_valid`. -/
def SessionTrustValid (session : LocalMachineSessionRecord) (trust : LocalCiTrustRecord)
    (nowMs : ℕ) : Prop :=
  session.revokedAtMs = none ∧ nowMs < session.expiresAtMs ∧ trust.revokedAtMs = none ∧
    trust.repository = session.repository ∧ (∀ id ∈ trust.projectId, id = session.projectId) ∧
    ∀ action ∈ session.actions, action ∈ trust.allowedActions

instance (session : LocalMachineSessionRecord) (trust : LocalCiTrustRecord) (nowMs : ℕ) :
    Decidable (SessionTrustValid session trust nowMs) :=
  inferInstanceAs (Decidable (_ ∧ _ ∧ _ ∧ _ ∧ _ ∧ _))

/-- `machine_record`. -/
def machineRecord (session : NewMachineSession) (trust : LocalCiTrustRecord)
    (projectId : String) : LocalMachineSessionRecord where
  id := session.id
  trustId := trust.id
  workspaceId := trust.workspaceId
  projectId := projectId
  repository := session.identity.repository
  gitRef := session.identity.gitRef
  runId := session.identity.runId
  runAttempt := session.identity.runAttempt
  actions := session.actions
  createdAtMs := session.nowMs
  expiresAtMs := session.identity.expiresAtMs
  lastUsedAtMs := none
  revokedAtMs := none

/-- `machine_token`. -/
def machineToken (session : NewMachineSession) (record : LocalMachineSessionRecord) :
    LocalApiTokenRecord where
  id := session.id
  name := machineTokenName record.repository record.runId
  tokenPrefix := session.tokenPrefix
  secretHash := session.secretHash
  scopes := record.actions.map CiAction.asStr
  workspaceId := record.workspaceId
  projectId := some record.projectId
  createdAtMs := record.createdAtMs
  expiresAtMs := record.expiresAtMs
  lastUsedAtMs := none
  revokedAtMs := none

namespace Repository

/-! ### Trusts -/

/-- `require_project_scope`. -/
def requireProjectScope (s : Repository) (projectId : Option String) (workspaceId : String) :
    Except RepositoryError Unit :=
  ensure (∀ id ∈ projectId, ∃ p ∈ s.projects, p.id = id ∧ p.workspaceId = workspaceId) .notFound

def createCiTrust (s : Repository) (trust : LocalCiTrustRecord) (event : NewAuditEvent) :
    Except RepositoryError Repository := do
  validateTrust trust
  validateCiEvent event "ci.trust_created" "ci_trust" trust.id trust.repository trust.workspaceId
    trust.createdAtMs
  s.requireProjectScope trust.projectId trust.workspaceId
  ensure (∃ w ∈ s.workspaces, w.id = trust.workspaceId) .conflict
  let ciTrusts ← insertRow s.ciTrusts trust
  ({ s with ciTrusts } : Repository).insertAudit event

/-- `trust_by_id`. -/
def trustById (s : Repository) (id workspaceId : String) :
    Except RepositoryError LocalCiTrustRecord := do
  let trust ← requireRow (s.ciTrusts.find? id)
  ensure (trust.workspaceId = workspaceId) .notFound
  return trust

/-- `revoke_ci_trust`: whether this call revoked the trust. -/
def revokeCiTrust (s : Repository) (id workspaceId : String) (nowMs : ℕ)
    (event : NewAuditEvent) : Except RepositoryError (Bool × Repository) := do
  validateText id
  validateText workspaceId
  toI64 nowMs
  let trust ← s.trustById id workspaceId
  if trust.revokedAtMs ≠ none then return (false, s)
  else do
    validateCiEvent event "ci.trust_revoked" "ci_trust" id trust.repository workspaceId nowMs
    ensure (trust.createdAtMs ≤ nowMs) .conflict
    let ciTrusts := s.ciTrusts.update (fun t => t.id = id ∧ t.revokedAtMs = none)
      fun t => { t with revokedAtMs := some nowMs }
    let revoked := s.revokeTokens
      (fun t => ∃ x ∈ s.machineSessions, x.session.trustId = id ∧ x.session.id = t.id) nowMs
    ensure (∀ x ∈ s.machineSessions, (x.session.trustId = id ∧ x.session.revokedAtMs = none) →
      x.session.createdAtMs ≤ nowMs) .conflict
    let machineSessions := s.machineSessions.update
      (fun x => x.session.trustId = id ∧ x.session.revokedAtMs = none)
      fun x => { x with session := { x.session with revokedAtMs := some nowMs } }
    let s ← ({ revoked with ciTrusts, machineSessions } : Repository).insertAudit event
    return (true, s)

/-! ### The exchange -/

/-- The most specific trusts first, and the newest of these. -/
def trustOrder (trust : LocalCiTrustRecord) : Bool ×ₗ ℕ ×ₗ String :=
  toLex (trust.projectId.isSome, toLex (trust.createdAtMs, trust.id))

/-- The trusts of the repository in the order they are tried. -/
def candidateTrusts (s : Repository) (repository : String) : List LocalCiTrustRecord :=
  orderBy (fun trust => OrderDual.toDual (trustOrder trust))
    (s.ciTrusts.select fun trust => trust.repository = repository ∧ trust.revokedAtMs = none)

/-- `scoped_project`: the requested project, if the trust extends to it. -/
def scopedProject (s : Repository) (trust : LocalCiTrustRecord) (session : NewMachineSession) :
    Except RepositoryError (Option String) := do
  let workspace ← requireRow (s.workspaces.find? trust.workspaceId)
  if ∃ requested ∈ session.workspace, requested ≠ workspace.slug.asStr then return none
  else
    let found := (s.projects.select fun p => p.workspaceId = trust.workspaceId ∧
      p.slug.asStr = session.project ∧ ∀ id ∈ trust.projectId, p.id = id).head?
    return found.map ProjectRecord.id

/-- The first of the trusts that covers the assertion and extends to the project. -/
def firstMatch (s : Repository) (session : NewMachineSession) :
    List LocalCiTrustRecord → Except RepositoryError (Option (LocalCiTrustRecord × String))
  | [] => .ok none
  | trust :: trusts =>
    if ClaimsMatch trust session then do
      match ← s.scopedProject trust session with
      | some projectId => return some (trust, projectId)
      | none => s.firstMatch session trusts
    else s.firstMatch session trusts

def matchingTrust (s : Repository) (session : NewMachineSession) :
    Except RepositoryError (Option (LocalCiTrustRecord × String)) :=
  s.firstMatch session (s.candidateTrusts session.identity.repository)

/-- The sessions of the trust that are younger than a minute. -/
def recentSessions (s : Repository) (trustId : String) (nowMs : ℕ) : List MachineSessionRow :=
  s.machineSessions.select fun x =>
    x.session.trustId = trustId ∧ nowMs < x.session.createdAtMs + exchangeRateWindowMs

/-- `rate_retry`: the seconds to wait, rounded up, when the limit is reached. -/
def rateRetry (s : Repository) (trustId : String) (nowMs : ℕ) : Option ℕ :=
  let recent := s.recentSessions trustId nowMs
  if exchangeRateLimit ≤ recent.length then
    (recent.map fun x => x.session.createdAtMs).min?.map fun oldest =>
      max ((oldest + exchangeRateWindowMs - nowMs + 999) / 1000) 1
  else none

/-- `insert_machine`; the trust, the workspace and the project exist. -/
def insertMachine (s : Repository) (session : NewMachineSession)
    (record : LocalMachineSessionRecord) : Except RepositoryError Repository := do
  ensure (∀ x ∈ s.machineSessions, x.oidcTokenHash ≠ session.oidcTokenHash) .conflict
  ensure (record.createdAtMs < record.expiresAtMs) .conflict
  let machineSessions ← insertRow s.machineSessions
    { session := record, oidcTokenHash := session.oidcTokenHash }
  return { s with machineSessions }

/-- `mint_machine_session`. -/
def mintMachineSession (s : Repository) (session : NewMachineSession) (event : NewAuditEvent) :
    Except RepositoryError (MachineSessionMintResult × Repository) := do
  validateExchange session
  if ∃ x ∈ s.machineSessions, x.oidcTokenHash = session.oidcTokenHash then return (.replayed, s)
  else do
    match ← s.matchingTrust session with
    | none => return (.forbidden, s)
    | some (trust, projectId) =>
      match s.rateRetry trust.id session.nowMs with
      | some retryAfterSeconds => return (.rateLimited retryAfterSeconds, s)
      | none => do
        validateCiEvent event "ci.token_minted" "project" projectId trust.repository
          trust.workspaceId session.nowMs
        let record := machineRecord session trust projectId
        let s ← s.insertToken (machineToken session record)
        let s ← s.insertMachine session record
        let s ← s.insertAudit event
        return (.minted record, s)

/-! ### Authentication -/

/-- The session after a use. -/
def touched (nowMs : ℕ) (x : MachineSessionRow) : MachineSessionRow :=
  { x with
    session := { x.session with lastUsedAtMs := some (max (x.session.lastUsedAtMs.getD 0) nowMs) } }

/-- `UPDATE machine_sessions SET last_used_at_ms = ..`. -/
def touchMachineSession (s : Repository) (tokenId : String) (nowMs : ℕ) :
    Except RepositoryError Repository := do
  ensure (∀ x ∈ s.machineSessions, x.session.id = tokenId →
    x.session.createdAtMs ≤ max (x.session.lastUsedAtMs.getD 0) nowMs) .conflict
  return { s with
    machineSessions := s.machineSessions.update (fun x => x.session.id = tokenId)
      (touched nowMs) }

def authenticateMachineSession (s : Repository) (tokenId : String) (nowMs : ℕ) :
    Except RepositoryError (LocalMachineSessionRecord × Repository) := do
  validateText tokenId
  toI64 nowMs
  let row ← requireRow (s.machineSessions.find? tokenId)
  ensure (row.session.revokedAtMs = none ∧ nowMs < row.session.expiresAtMs) .notFound
  let trust ← s.trustById row.session.trustId row.session.workspaceId
  ensure (SessionTrustValid row.session trust nowMs) .notFound
  let s ← s.touchMachineSession tokenId nowMs
  return ((touched nowMs row).session, s)

/-- `validate_and_touch`: a token without a machine session passes. -/
def validateAndTouch (s : Repository) (tokenId : String) (nowMs : ℕ) :
    Except RepositoryError Repository := do
  match s.machineSessions.find? tokenId with
  | none => return s
  | some row =>
    let trust ← s.trustById row.session.trustId row.session.workspaceId
    ensure (SessionTrustValid row.session trust nowMs) .notFound
    s.touchMachineSession tokenId nowMs

/-- The token is in force now and its secret has this hash. -/
def TokenInForce (secretHash : String) (nowMs : ℕ) (token : LocalApiTokenRecord) : Prop :=
  token.secretHash = secretHash ∧ token.revokedAtMs = none ∧ token.createdAtMs ≤ nowMs ∧
    nowMs < token.expiresAtMs

instance (secretHash : String) (nowMs : ℕ) : DecidablePred (TokenInForce secretHash nowMs) :=
  fun _ => inferInstanceAs (Decidable (_ ∧ _ ∧ _ ∧ _))

/-- The token after a use. -/
def usedToken (nowMs : ℕ) (token : LocalApiTokenRecord) : LocalApiTokenRecord :=
  { token with lastUsedAtMs := some (max (token.lastUsedAtMs.getD 0) nowMs) }

def authenticateApiToken (s : Repository) (secretHash : String) (nowMs : ℕ) :
    Except RepositoryError (LocalApiTokenRecord × Repository) := do
  validateHash secretHash
  toI64 nowMs
  let token ← requireRow (s.apiTokens.select (TokenInForce secretHash nowMs)).head?
  let apiTokens := s.apiTokens.update (TokenInForce secretHash nowMs) (usedToken nowMs)
  let s ← ({ s with apiTokens } : Repository).validateAndTouch token.id nowMs
  ensure (∀ x ∈ s.cliSessions, (x.tokenId = token.id ∧ x.revokedAtMs = none) →
    x.createdAtMs ≤ max (x.lastUsedAtMs.getD 0) nowMs) .conflict
  let cliSessions := s.cliSessions.update (fun x => x.tokenId = token.id ∧ x.revokedAtMs = none)
    fun x => { x with lastUsedAtMs := some (max (x.lastUsedAtMs.getD 0) nowMs) }
  return (usedToken nowMs token, { s with cliSessions })

/-! ### Sessions over time -/

end Repository

/-- The session as it was minted. -/
def MachineSessionRow.issued (x : MachineSessionRow) : MachineSessionRow :=
  { x with session := { x.session with lastUsedAtMs := none, revokedAtMs := none } }

theorem MachineSessionRow.eq_of_issued {x y : MachineSessionRow} (h : x.issued = y) :
    x.session.id = y.session.id ∧ x.session.trustId = y.session.trustId := by
  subst h
  exact ⟨rfl, rfl⟩

/-- The same sessions as they were minted, and a revoked one is still revoked. -/
def LaterSessions (t t' : Table fun row : MachineSessionRow => row.session.id) : Prop :=
  ∃ f, t.Mapped t' f ∧ (∀ x, (f x).issued = x.issued) ∧
    ∀ x, x.session.revokedAtMs ≠ none → (f x).session.revokedAtMs ≠ none

theorem LaterSessions.refl (t : Table fun row : MachineSessionRow => row.session.id) :
    LaterSessions t t :=
  ⟨id, Table.Mapped.refl t, fun _ => rfl, fun _ => id⟩

theorem LaterSessions.issued {t t' : Table fun row : MachineSessionRow => row.session.id}
    (h : LaterSessions t t') :
    t'.rows.map MachineSessionRow.issued = t.rows.map MachineSessionRow.issued := by
  obtain ⟨f, hf, hissued, -⟩ := h
  rw [hf.rows, List.map_map]
  exact List.map_congr_left fun x _ => hissued x

namespace Repository

variable {s s' : Repository}

/-! ### Specifications -/

theorem createCiTrust_spec {trust : LocalCiTrustRecord} {event : NewAuditEvent}
    (h : s.createCiTrust trust event = .ok s') :
    trust.revokedAtMs = none ∧ ∃ ciTrusts auditEvents,
      s' = { s with ciTrusts, auditEvents } ∧ s.ciTrusts.Inserted ciTrusts trust := by
  simp only [createCiTrust, validateTrust, bind_eq_ok, insertRow_eq_ok, ensure_eq_ok] at h
  obtain ⟨_, ⟨_, -, _, -, _, -, _, hvalid, -⟩, _, -, _, -, _, -, ciTrusts, hinsert, haudit⟩ := h
  obtain ⟨auditEvents, rfl⟩ := insertAudit_spec haudit
  exact ⟨hvalid.1, ciTrusts, auditEvents, rfl, Table.inserted_of_insert hinsert⟩

theorem trustById_eq_ok {id workspaceId : String} {trust : LocalCiTrustRecord} :
    s.trustById id workspaceId = .ok trust ↔
      trust ∈ s.ciTrusts ∧ trust.id = id ∧ trust.workspaceId = workspaceId := by
  simp only [trustById, bind_eq_ok, requireRow_eq_ok, ensure_eq_ok, pure_eq_ok,
    Table.find?_eq_some]
  constructor
  · rintro ⟨found, ⟨hmem, hid⟩, _, hworkspace, rfl⟩
    exact ⟨hmem, hid, hworkspace⟩
  · rintro ⟨hmem, hid, hworkspace⟩
    exact ⟨trust, ⟨hmem, hid⟩, (), hworkspace, rfl⟩

/-- Revoking a trust a second time does nothing.  The first time, the trust, its sessions and
the tokens of these are revoked. -/
theorem revokeCiTrust_spec {id workspaceId : String} {nowMs : ℕ} {event : NewAuditEvent}
    {changed : Bool} (h : s.revokeCiTrust id workspaceId nowMs event = .ok (changed, s')) :
    ∃ trust ∈ s.ciTrusts, trust.id = id ∧
      ((trust.revokedAtMs ≠ none ∧ s' = s) ∨
        ∃ ciTrusts apiTokens machineSessions auditEvents,
          s' = { s with ciTrusts, apiTokens, machineSessions, auditEvents } ∧
          s.ciTrusts.Replaced ciTrusts trust { trust with revokedAtMs := some nowMs } ∧
          apiTokens = (s.revokeTokens (fun t => ∃ x ∈ s.machineSessions,
            x.session.trustId = id ∧ x.session.id = t.id) nowMs).apiTokens ∧
          s.machineSessions.Mapped machineSessions fun x =>
            if x.session.trustId = id ∧ x.session.revokedAtMs = none then
              { x with session := { x.session with revokedAtMs := some nowMs } }
            else x) := by
  unfold revokeCiTrust at h
  simp only [bind_eq_ok, trustById_eq_ok] at h
  obtain ⟨_, -, _, -, _, -, trust, ⟨htrust, hid, -⟩, h⟩ := h
  refine ⟨trust, htrust, hid, ?_⟩
  split at h
  · rename_i hrevoked
    exact Or.inl ⟨hrevoked, (Prod.mk.inj (pure_eq_ok.mp h)).2.symm⟩
  · rename_i hactive
    rw [not_not] at hactive
    simp only [bind_eq_ok, pure_eq_ok, Prod.mk.injEq] at h
    obtain ⟨_, -, _, -, _, -, s₁, haudit, -, rfl⟩ := h
    obtain ⟨auditEvents, rfl⟩ := insertAudit_spec haudit
    refine Or.inr ⟨_, _, _, auditEvents, rfl, ?_, rfl, Table.mapped_update⟩
    refine Table.replaced_update htrust fun t ht => ?_
    constructor
    · rintro ⟨htid, -⟩
      exact Table.eq_of_key ht htrust (htid.trans hid.symm)
    · rintro rfl
      exact ⟨hid, hactive⟩

/-- The trust that a request is matched with is in force and covers it. -/
theorem matchingTrust_spec {session : NewMachineSession} {trust : LocalCiTrustRecord}
    {projectId : String} (h : s.matchingTrust session = .ok (some (trust, projectId))) :
    trust ∈ s.ciTrusts ∧ trust.repository = session.identity.repository ∧
      trust.revokedAtMs = none ∧ ClaimsMatch trust session ∧
      ∃ p ∈ s.projects, p.id = projectId ∧ p.workspaceId = trust.workspaceId ∧
        p.slug.asStr = session.project ∧ ∀ id ∈ trust.projectId, projectId = id := by
  have hfirst : ∀ trusts : List LocalCiTrustRecord,
      s.firstMatch session trusts = .ok (some (trust, projectId)) →
      trust ∈ trusts ∧ ClaimsMatch trust session ∧
        s.scopedProject trust session = .ok (some projectId) := by
    intro trusts
    induction trusts with
    | nil =>
      intro h
      cases h
    | cons first trusts ih =>
      intro h
      rw [firstMatch] at h
      split at h
      · rename_i hclaims
        rw [bind_eq_ok] at h
        obtain ⟨found, hfound, h⟩ := h
        split at h
        · obtain ⟨rfl, rfl⟩ := Prod.mk.inj (Option.some.inj (pure_eq_ok.mp h))
          exact ⟨List.mem_cons_self, hclaims, hfound⟩
        · obtain ⟨hmem, hrest⟩ := ih h
          exact ⟨List.mem_cons_of_mem _ hmem, hrest⟩
      · obtain ⟨hmem, hrest⟩ := ih h
        exact ⟨List.mem_cons_of_mem _ hmem, hrest⟩
  obtain ⟨hmem, hclaims, hscoped⟩ := hfirst _ h
  rw [candidateTrusts, mem_orderBy, Table.mem_select] at hmem
  refine ⟨hmem.1, hmem.2.1, hmem.2.2, hclaims, ?_⟩
  unfold scopedProject at hscoped
  simp only [bind_eq_ok] at hscoped
  obtain ⟨workspace, -, hscoped⟩ := hscoped
  split at hscoped
  · cases hscoped
  · obtain ⟨p, hp, rfl⟩ := Option.map_eq_some_iff.mp (pure_eq_ok.mp hscoped)
    obtain ⟨hproject, hworkspace, hslug, hscope⟩ := Table.mem_select.mp (List.mem_of_head? hp)
    exact ⟨p, hproject, rfl, hworkspace, hslug, hscope⟩

/-- What a mint does: refuse without a trace, or store one session and its token. -/
theorem mintMachineSession_cases {session : NewMachineSession} {event : NewAuditEvent}
    {answer : MachineSessionMintResult}
    (h : s.mintMachineSession session event = .ok (answer, s')) :
    (s' = s ∧ (answer = .replayed ∨ answer = .forbidden ∨
      ∃ trust projectId retryAfterSeconds,
        s.matchingTrust session = .ok (some (trust, projectId)) ∧
        s.rateRetry trust.id session.nowMs = some retryAfterSeconds ∧
        answer = .rateLimited retryAfterSeconds)) ∨
    ∃ trust projectId apiTokens machineSessions auditEvents,
      (∀ x ∈ s.machineSessions, x.oidcTokenHash ≠ session.oidcTokenHash) ∧
      s.matchingTrust session = .ok (some (trust, projectId)) ∧
      s.rateRetry trust.id session.nowMs = none ∧
      answer = .minted (machineRecord session trust projectId) ∧
      s' = { s with apiTokens, machineSessions, auditEvents } ∧
      s.apiTokens.Inserted apiTokens
        (machineToken session (machineRecord session trust projectId)) ∧
      machineSessions.rows = s.machineSessions.rows ++
        [{ session := machineRecord session trust projectId,
           oidcTokenHash := session.oidcTokenHash }] := by
  unfold mintMachineSession at h
  simp only [bind_eq_ok] at h
  obtain ⟨_, -, h⟩ := h
  split at h
  · obtain ⟨rfl, rfl⟩ := Prod.mk.inj (pure_eq_ok.mp h)
    exact Or.inl ⟨rfl, Or.inl rfl⟩
  · rename_i hfresh
    obtain ⟨found, hmatch, h⟩ := bind_eq_ok.mp h
    split at h
    · obtain ⟨rfl, rfl⟩ := Prod.mk.inj (pure_eq_ok.mp h)
      exact Or.inl ⟨rfl, Or.inr (Or.inl rfl)⟩
    · rename_i trust projectId
      split at h
      · rename_i retryAfterSeconds hretry
        obtain ⟨rfl, rfl⟩ := Prod.mk.inj (pure_eq_ok.mp h)
        exact Or.inl ⟨rfl, Or.inr (Or.inr ⟨trust, projectId, _, hmatch, hretry, rfl⟩)⟩
      · rename_i hretry
        simp only [bind_eq_ok, pure_eq_ok, Prod.mk.injEq, insertMachine, insertRow_eq_ok] at h
        obtain ⟨_, -, s₁, htoken, s₂, ⟨_, -, _, -, machineSessions, hinsert, rfl⟩, s₃, haudit,
          rfl, rfl⟩ := h
        obtain ⟨apiTokens, rfl, htokens⟩ := insertToken_spec htoken
        obtain ⟨auditEvents, rfl⟩ := insertAudit_spec haudit
        refine Or.inr ⟨trust, projectId, apiTokens, machineSessions, auditEvents, ?_, hmatch,
          hretry, rfl, rfl, htokens, (Table.insert?_eq_some.mp hinsert).2⟩
        exact fun x hx he => hfresh ⟨x, hx, he⟩

/-- A use changes the time of the last use only. -/
theorem touchMachineSession_spec {tokenId : String} {nowMs : ℕ}
    (h : s.touchMachineSession tokenId nowMs = .ok s') :
    ∃ machineSessions, s' = { s with machineSessions } ∧
      LaterSessions s.machineSessions machineSessions := by
  simp only [touchMachineSession, bind_eq_ok, pure_eq_ok] at h
  obtain ⟨_, -, rfl⟩ := h
  refine ⟨_, rfl, _, Table.mapped_update, fun x => ?_, fun x hrevoked => ?_⟩
  · split <;> rfl
  · split <;> exact hrevoked

theorem authenticateMachineSession_spec {tokenId : String} {nowMs : ℕ}
    {session : LocalMachineSessionRecord}
    (h : s.authenticateMachineSession tokenId nowMs = .ok (session, s')) :
    (∃ x ∈ s.machineSessions, x.session.id = tokenId ∧ session = (touched nowMs x).session ∧
      ∃ trust ∈ s.ciTrusts, trust.id = x.session.trustId ∧
        SessionTrustValid x.session trust nowMs) ∧
    ∃ machineSessions, s' = { s with machineSessions } ∧
      LaterSessions s.machineSessions machineSessions := by
  simp only [authenticateMachineSession, bind_eq_ok, pure_eq_ok, requireRow_eq_ok, ensure_eq_ok,
    Table.find?_eq_some, trustById_eq_ok, Prod.mk.injEq] at h
  obtain ⟨_, -, _, -, x, ⟨hx, hid⟩, _, -, trust, ⟨htrust, htid, -⟩, _, hvalid, s₁, htouch, rfl,
    rfl⟩ := h
  exact ⟨⟨x, hx, hid, rfl, trust, htrust, htid, hvalid⟩, touchMachineSession_spec htouch⟩

/-- The session behind a token, if there is one, is checked like a session. -/
theorem validateAndTouch_spec {tokenId : String} {nowMs : ℕ}
    (h : s.validateAndTouch tokenId nowMs = .ok s') :
    (∀ x ∈ s.machineSessions, x.session.id = tokenId →
      ∃ trust ∈ s.ciTrusts, trust.id = x.session.trustId ∧
        SessionTrustValid x.session trust nowMs) ∧
    ∃ machineSessions, s' = { s with machineSessions } ∧
      LaterSessions s.machineSessions machineSessions := by
  unfold validateAndTouch at h
  split at h
  · rename_i hnone
    obtain rfl := pure_eq_ok.mp h
    exact ⟨fun x hx hid => absurd hid (Table.find?_eq_none.mp hnone x hx), _, rfl,
      LaterSessions.refl _⟩
  · rename_i row hrow
    rw [Table.find?_eq_some] at hrow
    simp only [bind_eq_ok, ensure_eq_ok, trustById_eq_ok] at h
    obtain ⟨trust, ⟨htrust, htid, -⟩, _, hvalid, htouch⟩ := h
    refine ⟨fun x hx hid => ?_, touchMachineSession_spec htouch⟩
    obtain rfl := Table.eq_of_key hx hrow.1 (hid.trans hrow.2.symm)
    exact ⟨trust, htrust, htid, hvalid⟩

theorem authenticateApiToken_spec {secretHash : String} {nowMs : ℕ}
    {token : LocalApiTokenRecord}
    (h : s.authenticateApiToken secretHash nowMs = .ok (token, s')) :
    (∃ found ∈ s.apiTokens, TokenInForce secretHash nowMs found ∧
      token = usedToken nowMs found) ∧
    (∀ x ∈ s.machineSessions, x.session.id = token.id →
      ∃ trust ∈ s.ciTrusts, trust.id = x.session.trustId ∧
        SessionTrustValid x.session trust nowMs) ∧
    ∃ apiTokens machineSessions cliSessions,
      s' = { s with apiTokens, machineSessions, cliSessions } ∧
      LaterTokens s.apiTokens apiTokens ∧
      LaterSessions s.machineSessions machineSessions := by
  simp only [authenticateApiToken, bind_eq_ok, pure_eq_ok, requireRow_eq_ok, Prod.mk.injEq] at h
  obtain ⟨_, -, _, -, found, hfound, s₁, hvalidate, _, -, rfl, rfl⟩ := h
  obtain ⟨hmem, hforce⟩ := Table.mem_select.mp (List.mem_of_head? hfound)
  obtain ⟨hvalid, machineSessions, rfl, hlater⟩ := validateAndTouch_spec hvalidate
  refine ⟨⟨found, hmem, hforce, rfl⟩, hvalid, _, machineSessions, _, rfl, ?_, hlater⟩
  refine laterTokens_mapped Table.mapped_update (fun token => ?_) fun token hrevoked => ?_
  · split <;> rfl
  · split <;> exact hrevoked

end Repository

end BlobYard
