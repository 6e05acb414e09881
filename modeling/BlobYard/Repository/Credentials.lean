/-
Credentials: the bootstrap authority, API tokens and CLI sessions.

A fresh server has one bootstrap secret.  Whoever presents it receives a token and a CLI
session, and the authority is consumed.  Later tokens are created and revoked one by one; the
token of a CLI session goes with its session, and that of a machine session with its trust.

* `insertToken`, `createApiToken`, `exchangeBootstrap` — new tokens;
* `revokeApiToken`, `revokeCliSession` — tokens that end;
* `CredentialRequest` — all of them as one kind of request;
* `LaterTokens` — tokens keep what they were issued with, and stay revoked;
* `CredentialRequest.spec` — a request changes the tables of credentials, and the tokens only
  to later ones.
-/
import BlobYard.Repository.State

namespace BlobYard

open Outcome

/-! ### Validation -/

/-- `validate_token`. -/
def validateToken (token : LocalApiTokenRecord) : Except RepositoryError Unit := do
  validateRecord token.id token.name
  validateHash token.secretHash
  validateText token.tokenPrefix
  validateText token.workspaceId
  validateTexts token.projectId.toList
  ensure (token.scopes ≠ [] ∧ token.createdAtMs < token.expiresAtMs ∧
    (∀ atMs ∈ token.lastUsedAtMs, token.createdAtMs ≤ atMs) ∧
    (∀ atMs ∈ token.revokedAtMs, token.createdAtMs ≤ atMs) ∧
    ∀ scope ∈ token.scopes, ValidText scope) .invalidInput

/-- `auth_validation::validate_session`: a new session of the token. -/
def validateCliSession (session : LocalCliSessionRecord) (token : LocalApiTokenRecord) :
    Except RepositoryError Unit := do
  validateTexts [session.id, session.tokenId, session.workspaceId, session.name, session.platform,
    session.version]
  ensure (session.tokenId = token.id ∧ session.workspaceId = token.workspaceId ∧
    session.name = token.name ∧ session.createdAtMs = token.createdAtMs ∧
    session.lastUsedAtMs = none ∧ session.revokedAtMs = none) .invalidInput

/-- The event records this action on this kind of target, with exactly this metadata. -/
def validateRecordedEvent (event : NewAuditEvent) (action targetType workspaceId : String)
    (createdAtMs : ℕ) (metadata : List (String × AuditValue)) : Except RepositoryError Unit :=
  ensure (event.action = action ∧ event.targetType = targetType ∧
    event.workspaceId = workspaceId ∧ event.createdAtMs = createdAtMs ∧
    event.metadata = metadata) .invalidInput

/-- `validate_session_event`. -/
def validateSessionEvent (event : NewAuditEvent) (sessionId workspaceId : String)
    (createdAtMs : ℕ) : Except RepositoryError Unit :=
  validateRecordedEvent event "cli.session_revoked" "cli_session" workspaceId createdAtMs
    [("sessionId", .string sessionId)]

/-- `validate_token_event`. -/
def validateTokenEvent (event : NewAuditEvent) (action tokenId workspaceId : String)
    (createdAtMs : ℕ) : Except RepositoryError Unit :=
  validateRecordedEvent event action "api_token" workspaceId createdAtMs
    [("tokenId", .string tokenId)]

namespace Repository

/-! ### New tokens -/

/-- `auth::insert_token`. -/
def insertToken (s : Repository) (token : LocalApiTokenRecord) :
    Except RepositoryError Repository := do
  toI64 token.createdAtMs
  toI64 token.expiresAtMs
  forM token.lastUsedAtMs.toList toI64
  forM token.revokedAtMs.toList toI64
  ensure (∃ w ∈ s.workspaces, w.id = token.workspaceId) .conflict
  ensure (∀ id ∈ token.projectId, ∃ p ∈ s.projects, p.id = id) .conflict
  ensure (∀ t ∈ s.apiTokens, t.secretHash ≠ token.secretHash) .conflict
  let apiTokens ← insertRow s.apiTokens token
  return { s with apiTokens }

/-- `insert_session`. -/
def insertCliSession (s : Repository) (session : LocalCliSessionRecord) :
    Except RepositoryError Repository := do
  toI64 session.createdAtMs
  ensure (∃ t ∈ s.apiTokens, t.id = session.tokenId) .conflict
  ensure (∃ w ∈ s.workspaces, w.id = session.workspaceId) .conflict
  ensure (∀ x ∈ s.cliSessions, x.tokenId ≠ session.tokenId) .conflict
  let cliSessions ← insertRow s.cliSessions session
  return { s with cliSessions }

/-- `install_bootstrap`: whether this call installed the authority. -/
def installBootstrap (s : Repository) (secretHash : String) :
    Except RepositoryError (Bool × Repository) := do
  validateHash secretHash
  match s.bootstrapAuthority with
  | some _ => return (false, s)
  | none => return (true, { s with bootstrapAuthority := some (.available secretHash) })

/-- `exchange_bootstrap`. -/
def exchangeBootstrap (s : Repository) (bootstrapHash : String) (token : LocalApiTokenRecord)
    (session : LocalCliSessionRecord) : Except RepositoryError Repository := do
  validateHash bootstrapHash
  validateToken token
  validateCliSession session token
  ensure (s.bootstrapAuthority = some (.available bootstrapHash)) .notFound
  let s ← ({ s with bootstrapAuthority := some .consumed } : Repository).insertToken token
  s.insertCliSession session

def createApiToken (s : Repository) (token : LocalApiTokenRecord) (event : NewAuditEvent) :
    Except RepositoryError Repository := do
  validateToken token
  validateTokenEvent event "api_token.created" token.id token.workspaceId token.createdAtMs
  let s ← s.insertToken token
  s.insertAudit event

/-! ### Tokens that end -/

/-- `UPDATE api_tokens SET revoked = 1 .. AND revoked = 0`. -/
def revokeTokens (s : Repository) (p : LocalApiTokenRecord → Prop) [DecidablePred p]
    (nowMs : ℕ) : Repository :=
  { s with
    apiTokens := s.apiTokens.update (fun t => p t ∧ t.revokedAtMs = none)
      fun t => { t with revokedAtMs := some nowMs } }

def revokeCliSession (s : Repository) (id workspaceId : String) (nowMs : ℕ)
    (event : NewAuditEvent) : Except RepositoryError Repository := do
  validateText id
  validateText workspaceId
  toI64 nowMs
  let found ← requireRow (s.cliSessions.find? id)
  ensure (found.workspaceId = workspaceId) .notFound
  ensure (found.revokedAtMs = none) .conflict
  validateSessionEvent event id workspaceId nowMs
  ensure (found.createdAtMs ≤ nowMs) .conflict
  changedOnce (s.apiTokens.count fun t => t.id = found.tokenId ∧ t.revokedAtMs = none)
  let cliSessions := s.cliSessions.update
    (fun x => x.id = id ∧ x.workspaceId = workspaceId ∧ x.revokedAtMs = none)
    fun x => { x with revokedAtMs := some nowMs }
  let s := ({ s with cliSessions } : Repository).revokeTokens (fun t => t.id = found.tokenId) nowMs
  s.insertAudit event

/-- `revoke_api_token`: tokens of CLI and machine sessions are not found here. -/
def revokeApiToken (s : Repository) (id : String) (nowMs : ℕ) (event : NewAuditEvent) :
    Except RepositoryError Repository := do
  validateText id
  toI64 nowMs
  let token ← requireRow (s.apiTokens.find? id)
  ensure ((∀ x ∈ s.cliSessions, x.tokenId ≠ id) ∧ ∀ x ∈ s.machineSessions, x.session.id ≠ id)
    .notFound
  ensure (token.revokedAtMs = none) .conflict
  validateTokenEvent event "api_token.revoked" id token.workspaceId nowMs
  let s := s.revokeTokens (fun t => t.id = id) nowMs
  s.insertAudit event

end Repository

/-- The requests on credentials. -/
inductive CredentialRequest where
  | installBootstrap (secretHash : String)
  | exchangeBootstrap (bootstrapHash : String) (token : LocalApiTokenRecord)
    (session : LocalCliSessionRecord)
  | createApiToken (token : LocalApiTokenRecord) (event : NewAuditEvent)
  | revokeApiToken (id : String) (nowMs : ℕ) (event : NewAuditEvent)
  | revokeCliSession (id workspaceId : String) (nowMs : ℕ) (event : NewAuditEvent)

def CredentialRequest.run (s : Repository) :
    CredentialRequest → Except RepositoryError Repository
  | .installBootstrap secretHash => Prod.snd <$> s.installBootstrap secretHash
  | .exchangeBootstrap bootstrapHash token session =>
    s.exchangeBootstrap bootstrapHash token session
  | .createApiToken token event => s.createApiToken token event
  | .revokeApiToken id nowMs event => s.revokeApiToken id nowMs event
  | .revokeCliSession id workspaceId nowMs event =>
    s.revokeCliSession id workspaceId nowMs event

/-! ### Tokens over time -/

/-- The token as it was issued. -/
def LocalApiTokenRecord.issued (token : LocalApiTokenRecord) : LocalApiTokenRecord :=
  { token with lastUsedAtMs := none, revokedAtMs := none }

/-- Every token is still there as it was issued, and a revoked one is still revoked. -/
def LaterTokens (t t' : Table LocalApiTokenRecord.id) : Prop :=
  ∀ token ∈ t, ∃ token' ∈ t', token'.issued = token.issued ∧
    (token.revokedAtMs ≠ none → token'.revokedAtMs ≠ none)

theorem LaterTokens.refl (t : Table LocalApiTokenRecord.id) : LaterTokens t t :=
  fun token htoken => ⟨token, htoken, rfl, id⟩

theorem laterTokens_insert {t t' : Table LocalApiTokenRecord.id} {token : LocalApiTokenRecord}
    (h : t.Inserted t' token) : LaterTokens t t' :=
  fun token' htoken' => ⟨token', h.mem_of_mem htoken', rfl, id⟩

theorem laterTokens_mapped {t t' : Table LocalApiTokenRecord.id}
    {f : LocalApiTokenRecord → LocalApiTokenRecord} (h : t.Mapped t' f)
    (hissued : ∀ token, (f token).issued = token.issued)
    (hrevoked : ∀ token, token.revokedAtMs ≠ none → (f token).revokedAtMs ≠ none) :
    LaterTokens t t' :=
  fun token htoken => ⟨f token, h.mem_of_mem htoken, hissued token, hrevoked token⟩

namespace Repository

variable {s s' : Repository}

theorem insertToken_spec {token : LocalApiTokenRecord} (h : s.insertToken token = .ok s') :
    ∃ apiTokens, s' = { s with apiTokens } ∧ s.apiTokens.Inserted apiTokens token := by
  simp only [insertToken, bind_eq_ok, pure_eq_ok, insertRow_eq_ok] at h
  obtain ⟨_, -, _, -, _, -, _, -, _, -, _, -, _, -, apiTokens, hinsert, rfl⟩ := h
  exact ⟨apiTokens, rfl, Table.inserted_of_insert hinsert⟩

theorem mapped_revokeTokens {p : LocalApiTokenRecord → Prop} [DecidablePred p] {nowMs : ℕ} :
    s.apiTokens.Mapped (s.revokeTokens p nowMs).apiTokens fun t =>
      if p t ∧ t.revokedAtMs = none then { t with revokedAtMs := some nowMs } else t :=
  Table.mapped_update

theorem laterTokens_revoke {p : LocalApiTokenRecord → Prop} [DecidablePred p] {nowMs : ℕ} :
    LaterTokens s.apiTokens (s.revokeTokens p nowMs).apiTokens := by
  refine laterTokens_mapped mapped_revokeTokens (fun token => ?_) fun token hrevoked => ?_
  · split <;> rfl
  · rw [if_neg fun hg => hrevoked hg.2]
    exact hrevoked

/-- The repositories differ in the tables of credentials and the audit trail at most, and the
tokens are later ones. -/
def CredentialsOnly (s s' : Repository) : Prop :=
  ∃ bootstrapAuthority apiTokens cliSessions auditEvents,
    s' = { s with bootstrapAuthority, apiTokens, cliSessions, auditEvents } ∧
      LaterTokens s.apiTokens apiTokens

end Repository

open Repository

/-- A request on credentials changes nothing else, and tokens only to later ones. -/
theorem CredentialRequest.spec {s s' : Repository} {request : CredentialRequest}
    (h : request.run s = .ok s') : s.CredentialsOnly s' := by
  cases request with
  | installBootstrap secretHash =>
    simp only [run, map_eq_ok, Repository.installBootstrap, bind_eq_ok] at h
    obtain ⟨⟨installed, s₁⟩, ⟨_, -, h⟩, rfl⟩ := h
    split at h <;> obtain ⟨-, rfl⟩ := Prod.mk.inj (pure_eq_ok.mp h)
    · exact ⟨_, _, _, _, rfl, LaterTokens.refl _⟩
    · exact ⟨_, _, _, _, rfl, LaterTokens.refl _⟩
  | exchangeBootstrap bootstrapHash token session =>
    simp only [run, Repository.exchangeBootstrap, insertCliSession, bind_eq_ok, pure_eq_ok] at h
    obtain ⟨_, -, _, -, _, -, _, -, s₁, htoken, _, -, _, -, _, -, _, -, cliSessions, -, rfl⟩ := h
    obtain ⟨apiTokens, rfl, hinserted⟩ := insertToken_spec htoken
    exact ⟨_, _, _, _, rfl, laterTokens_insert hinserted⟩
  | createApiToken token event =>
    simp only [run, Repository.createApiToken, bind_eq_ok] at h
    obtain ⟨_, -, _, -, s₁, htoken, haudit⟩ := h
    obtain ⟨apiTokens, rfl, hinserted⟩ := insertToken_spec htoken
    obtain ⟨auditEvents, rfl⟩ := insertAudit_spec haudit
    exact ⟨_, _, _, _, rfl, laterTokens_insert hinserted⟩
  | revokeApiToken id nowMs event =>
    simp only [run, Repository.revokeApiToken, bind_eq_ok] at h
    obtain ⟨_, -, _, -, token, -, _, -, _, -, _, -, haudit⟩ := h
    obtain ⟨auditEvents, rfl⟩ := insertAudit_spec haudit
    exact ⟨_, _, _, _, rfl, laterTokens_revoke⟩
  | revokeCliSession id workspaceId nowMs event =>
    simp only [run, Repository.revokeCliSession, bind_eq_ok] at h
    obtain ⟨_, -, _, -, _, -, found, -, _, -, _, -, _, -, _, -, _, -, haudit⟩ := h
    obtain ⟨auditEvents, rfl⟩ := insertAudit_spec haudit
    exact ⟨_, _, _, _, rfl, laterTokens_revoke (s := { s with cliSessions := _ })⟩

end BlobYard
