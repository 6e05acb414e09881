/-
Login to a hosted yard: exchange codes and sessions.

A successful login leaves a continuation record with the hash of a one-minute exchange code.
The yard's host redeems the code for a session, once.  Sessions are revoked one by one, by
their token or for a whole subject, and a purge removes records that expired long ago.

* `issueYardExchangeCode_spec`, `exchangeYardSessionCode_spec` — what issuing and redeeming
  a code do, and who was admitted then;
* `purgeYardSessionHistory_keeps` — a purge spares what is still in force.
-/
import BlobYard.Lib.Splitting
import BlobYard.Repository.YardFiles

namespace BlobYard

open Outcome

/-! ### Validation -/

/-- How long a continuation record outlives its expiry: a day. -/
def continuationHistoryMs : ℕ := 86400000

/-- How long a session outlives its expiry or revocation: thirty days. -/
def sessionHistoryMs : ℕ := 2592000000

/-- Behind its slash the path is the reserved one, or below it. -/
def ReservedReturnPath (value : String) : Prop :=
  ∃ path ∈ stripPrefix? ['/'] value.toList,
    path = ".blobyard".toList ∨ ".blobyard/".toList <+: path

instance (value : String) : Decidable (ReservedReturnPath value) :=
  inferInstanceAs (Decidable (∃ path ∈ stripPrefix? ['/'] value.toList, _ ∨ _))

/-- `validate_return_path`: an absolute path on the host itself, outside the reserved one. -/
def ValidReturnPath (value : String) : Prop :=
  hasPrefix value "/" ∧ ¬hasPrefix value "//" ∧ ¬hasPrefix value "/\\" ∧
    value.utf8ByteSize ≤ 2048 ∧ (∀ c ∈ value.toList, isControl c = false) ∧
    ¬ReservedReturnPath value

instance (value : String) : Decidable (ValidReturnPath value) :=
  inferInstanceAs (Decidable (_ ∧ _ ∧ _ ∧ _ ∧ _ ∧ _))

/-- `yard_session_validation::continuation`. -/
def validateContinuation (value : NewYardContinuation) : Except RepositoryError Unit := do
  validateTexts [value.id, value.yardId, value.environmentId, value.userId]
  validateHash value.continuationHash
  validateHash value.codeHash
  validateHostLabel value.hostLabel
  ensure (ValidReturnPath value.returnPath) .invalidInput
  ensure (value.createdAtMs + yardExchangeCodeLifetimeMs = value.expiresAtMs) .invalidInput

/-- `yard_session_validation::session`. -/
def validateSession (session : NewYardSession) (audit : YardSessionAuditContext) (nowMs : ℕ) :
    Except RepositoryError Unit := do
  validateTexts [session.id, audit.id, audit.requestId]
  validateHash session.tokenHash
  ensure (session.createdAtMs = nowMs ∧
    session.createdAtMs + yardSessionLifetimeMs = session.expiresAtMs) .invalidInput

/-- `yard_session_validation::record`: the session of a redeemed continuation. -/
def sessionRecord (session : NewYardSession) (continuation : NewYardContinuation) :
    YardSessionRecord where
  id := session.id
  tokenHash := session.tokenHash
  yardId := continuation.yardId
  environmentId := continuation.environmentId
  hostLabel := continuation.hostLabel
  userId := continuation.userId
  createdAtMs := session.createdAtMs
  expiresAtMs := session.expiresAtMs
  lastUsedAtMs := none
  revokedAtMs := none

/-- `require_admission`. -/
def requireAdmission (admission : YardAdmission) (yardId environmentId : String) :
    Except RepositoryError Unit :=
  ensure (admission.yardId = yardId ∧ admission.environmentId = environmentId) .notFound

namespace Repository

/-! ### Issuing and redeeming -/

/-- `issue_yard_exchange_code`; the rows that a continuation refers to exist by admission. -/
def issueYardExchangeCode (s : Repository) (continuation : NewYardContinuation) :
    Except RepositoryError Repository := do
  validateContinuation continuation
  toI64 continuation.createdAtMs
  let admission ← s.evaluateAdmission continuation.hostLabel continuation.userId
    continuation.createdAtMs
  requireAdmission admission continuation.yardId continuation.environmentId
  toI64 continuation.expiresAtMs
  ensure (∀ row ∈ s.yardContinuations,
    row.continuation.continuationHash ≠ continuation.continuationHash ∧
      row.continuation.codeHash ≠ continuation.codeHash) .conflict
  let yardContinuations ← insertRow s.yardContinuations { continuation, consumedAtMs := none }
  return { s with yardContinuations }

/-- The code of the continuation can be redeemed at this host now. -/
def Redeemable (codeHash hostLabel : String) (nowMs : ℕ) (row : YardContinuationRecord) : Prop :=
  row.continuation.codeHash = codeHash ∧ row.continuation.hostLabel = hostLabel ∧
    row.consumedAtMs = none ∧ nowMs < row.continuation.expiresAtMs

instance (codeHash hostLabel : String) (nowMs : ℕ) :
    DecidablePred (Redeemable codeHash hostLabel nowMs) :=
  fun _ => inferInstanceAs (Decidable (_ ∧ _ ∧ _ ∧ _))

/-- `consume_continuation`: `UPDATE .. RETURNING`. -/
def consumeContinuation (s : Repository) (codeHash hostLabel : String) (nowMs : ℕ) :
    Except RepositoryError (YardContinuationRecord × Repository) := do
  ensure (∀ row ∈ s.yardContinuations, Redeemable codeHash hostLabel nowMs row →
    row.continuation.createdAtMs ≤ nowMs) .conflict
  let row ← requireRow (s.yardContinuations.select (Redeemable codeHash hostLabel nowMs)).head?
  return ({ row with consumedAtMs := some nowMs },
    { s with
      yardContinuations := s.yardContinuations.update (Redeemable codeHash hostLabel nowMs)
        fun row => { row with consumedAtMs := some nowMs } })

/-- `insert_session`: nothing is inserted for a subject that is missing or revoked. -/
def insertSession (s : Repository) (session : YardSessionRecord) :
    Except RepositoryError Repository := do
  toI64 session.expiresAtMs
  ensure (∃ subject ∈ s.yardSubjects, subject.id = session.userId ∧ subject.revokedAtMs = none)
    .conflict
  ensure (∀ x ∈ s.yardSessions, x.tokenHash ≠ session.tokenHash) .conflict
  let yardSessions ← insertRow s.yardSessions session
  return { s with yardSessions }

/-- The event of `insert_issued_audit`. -/
def issuedEvent (audit : YardSessionAuditContext) (admission : YardAdmission)
    (session : YardSessionRecord) (nowMs : ℕ) : NewAuditEvent where
  id := audit.id
  workspaceId := admission.workspaceId
  actor := session.userId
  action := "yard.session_issued"
  requestId := audit.requestId
  targetType := "yard_session"
  metadata := [("sessionId", .string session.id), ("yardId", .string session.yardId)]
  createdAtMs := nowMs

/-- `exchange_yard_session_code`. -/
def exchangeYardSessionCode (s : Repository) (codeHash hostLabel : String)
    (session : NewYardSession) (audit : YardSessionAuditContext) (nowMs : ℕ) :
    Except RepositoryError (YardSessionExchange × Repository) := do
  validateHash codeHash
  validateHostLabel hostLabel
  validateSession session audit nowMs
  toI64 nowMs
  let (row, s) ← s.consumeContinuation codeHash hostLabel nowMs
  let admission ← s.evaluateAdmission hostLabel row.continuation.userId nowMs
  requireAdmission admission row.continuation.yardId row.continuation.environmentId
  let record := sessionRecord session row.continuation
  let s ← s.insertSession record
  let s ← s.insertAudit (issuedEvent audit admission record nowMs)
  return ({ session := record, returnPath := row.continuation.returnPath }, s)

/-! ### Revoking, touching and purging -/

/-- Revokes the selected sessions; a session is not revoked before it was created. -/
def revokeSessions (s : Repository) (p : YardSessionRecord → Prop) [DecidablePred p] (nowMs : ℕ) :
    Except RepositoryError Repository := do
  ensure (∀ x ∈ s.yardSessions, p x → x.createdAtMs ≤ nowMs) .conflict
  return { s with
    yardSessions := s.yardSessions.update p fun x => { x with revokedAtMs := some nowMs } }

/-- `revoke_yard_session`. -/
def revokeYardSession (s : Repository) (yardId sessionId : String) (nowMs : ℕ)
    (event : NewAuditEvent) : Except RepositoryError (Bool × Repository) := do
  validateText yardId
  validateText sessionId
  let session ← requireRow (s.yardSessions.find? sessionId)
  ensure (session.yardId = yardId) .notFound
  if session.revokedAtMs ≠ none then
    return (false, s)
  else do
    let yard ← s.yardById yardId
    validateActionEvent event "yard.session_revoked" "yard_session" yard.workspaceId nowMs
      [("sessionId", .string session.id), ("yardId", .string yard.id)]
    let s ← s.revokeSessions (fun x => x.id = session.id ∧ x.revokedAtMs = none) nowMs
    let s ← s.insertAudit event
    return (true, s)

/-- `revoke_yard_session_by_token`. -/
def revokeYardSessionByToken (s : Repository) (tokenHash hostLabel : String) (nowMs : ℕ) :
    Except RepositoryError (Bool × Repository) := do
  validateHash tokenHash
  validateHostLabel hostLabel
  toI64 nowMs
  let changed := s.yardSessions.count fun x => x.tokenHash = tokenHash ∧ x.hostLabel = hostLabel ∧
    x.revokedAtMs = none ∧ nowMs < x.expiresAtMs
  let s ← s.revokeSessions (fun x => x.tokenHash = tokenHash ∧ x.hostLabel = hostLabel ∧
    x.revokedAtMs = none ∧ nowMs < x.expiresAtMs) nowMs
  return (changed = 1, s)

/-- `revoke_for_user`. -/
def revokeForUser (s : Repository) (userId : String) (nowMs : ℕ) :
    Except RepositoryError Repository :=
  s.revokeSessions (fun x => x.userId = userId ∧ x.revokedAtMs = none ∧ nowMs < x.expiresAtMs)
    nowMs

/-- `yard_identity_resolution::touch`. -/
def touchIdentity (s : Repository) (sessionId : String) (nowMs : ℕ) :
    Except RepositoryError Repository := do
  ensure (∀ x ∈ s.yardSessions, x.id = sessionId ∧ x.revokedAtMs = none ∧ nowMs < x.expiresAtMs →
    x.createdAtMs ≤ nowMs) .conflict
  changedOnce (s.yardSessions.count fun x =>
    x.id = sessionId ∧ x.revokedAtMs = none ∧ nowMs < x.expiresAtMs)
  return { s with
    yardSessions := s.yardSessions.update
      (fun x => x.id = sessionId ∧ x.revokedAtMs = none ∧ nowMs < x.expiresAtMs)
      fun x => { x with lastUsedAtMs := some nowMs } }

/-- A purge removes the continuation record. -/
def PurgedContinuation (nowMs : ℕ) (row : YardContinuationRecord) : Prop :=
  row.continuation.expiresAtMs < nowMs - continuationHistoryMs

instance (nowMs : ℕ) : DecidablePred (PurgedContinuation nowMs) :=
  fun _ => inferInstanceAs (Decidable (_ < _))

/-- A purge removes the session. -/
def PurgedSession (nowMs : ℕ) (session : YardSessionRecord) : Prop :=
  session.expiresAtMs < nowMs - sessionHistoryMs ∨
    ∃ revokedAtMs ∈ session.revokedAtMs, revokedAtMs < nowMs - sessionHistoryMs

instance (nowMs : ℕ) : DecidablePred (PurgedSession nowMs) :=
  fun _ => inferInstanceAs (Decidable (_ ∨ ∃ revokedAtMs ∈ _, _))

/-- `purge_yard_session_history`. -/
def purgeYardSessionHistory (s : Repository) (nowMs : ℕ) : Except RepositoryError Repository := do
  toI64 nowMs
  return { s with
    yardContinuations := s.yardContinuations.erase (PurgedContinuation nowMs)
    yardSessions := s.yardSessions.erase (PurgedSession nowMs) }

/-! ### What the operations do -/

/-- The subject is admitted to the yard and environment through this host. -/
def AdmittedTo (s : Repository) (hostLabel yardId environmentId subjectId : String) (nowMs : ℕ) :
    Prop :=
  ∃ yard ∈ s.webYards, ∃ environment ∈ s.yardEnvironments, yard.id = yardId ∧
    environment.id = environmentId ∧ s.HostedAt hostLabel yard ∧
    s.Admits yard environment subjectId nowMs

variable {s s' : Repository} {nowMs : ℕ}

theorem admittedTo_of_evaluate {hostLabel subjectId yardId environmentId : String}
    {admission : YardAdmission} {u : Unit}
    (h : s.evaluateAdmission hostLabel subjectId nowMs = .ok admission)
    (hsame : requireAdmission admission yardId environmentId = .ok u) :
    s.AdmittedTo hostLabel yardId environmentId subjectId nowMs := by
  obtain ⟨rfl, rfl⟩ := ensure_eq_ok.mp hsame
  obtain ⟨yard, environment, ⟨hyard, henvironment, hyid, heid, hhosted⟩, hadmits⟩ :=
    evaluateAdmission_sound h
  exact ⟨yard, hyard, environment, henvironment, hyid, heid, hhosted, hadmits⟩

/-- Issuing inserts an unconsumed record under fresh hashes, for an admitted subject. -/
theorem issueYardExchangeCode_spec {continuation : NewYardContinuation}
    (h : s.issueYardExchangeCode continuation = .ok s') :
    s.AdmittedTo continuation.hostLabel continuation.yardId continuation.environmentId
        continuation.userId continuation.createdAtMs ∧
      (∀ row ∈ s.yardContinuations,
        row.continuation.continuationHash ≠ continuation.continuationHash ∧
          row.continuation.codeHash ≠ continuation.codeHash) ∧
      s.yardContinuations.Inserted s'.yardContinuations { continuation, consumedAtMs := none } ∧
      s'.yardSessions = s.yardSessions := by
  simp only [issueYardExchangeCode, bind_eq_ok, pure_eq_ok, insertRow_eq_ok] at h
  obtain ⟨-, -, -, -, admission, hadmission, _, hsame, -, -, _, hfresh, rows, hrows, rfl⟩ := h
  exact ⟨admittedTo_of_evaluate hadmission hsame, ensure_eq_ok.mp hfresh,
    Table.inserted_of_insert hrows, rfl⟩

theorem issueYardExchangeCode_frame {continuation : NewYardContinuation}
    (h : s.issueYardExchangeCode continuation = .ok s') :
    ∃ rows, s' = { s with yardContinuations := rows } := by
  simp only [issueYardExchangeCode, bind_eq_ok, pure_eq_ok] at h
  obtain ⟨-, -, -, -, -, -, -, -, -, -, -, -, rows, -, rfl⟩ := h
  exact ⟨rows, rfl⟩

/-- The row after its code was redeemed. -/
def consumedRow (codeHash hostLabel : String) (nowMs : ℕ) (row : YardContinuationRecord) :
    YardContinuationRecord :=
  if Redeemable codeHash hostLabel nowMs row then { row with consumedAtMs := some nowMs } else row

/-- Redeeming consumes an unexpired and unconsumed code of this host and inserts a session for
the subject of the record, who is admitted now. -/
theorem exchangeYardSessionCode_spec {codeHash hostLabel : String} {session : NewYardSession}
    {audit : YardSessionAuditContext} {result : YardSessionExchange}
    (h : s.exchangeYardSessionCode codeHash hostLabel session audit nowMs = .ok (result, s')) :
    ∃ row ∈ s.yardContinuations, Redeemable codeHash hostLabel nowMs row ∧
      s.AdmittedTo hostLabel row.continuation.yardId row.continuation.environmentId
        row.continuation.userId nowMs ∧
      s.yardContinuations.Mapped s'.yardContinuations (consumedRow codeHash hostLabel nowMs) ∧
      s.yardSessions.Inserted s'.yardSessions (sessionRecord session row.continuation) := by
  simp only [exchangeYardSessionCode, consumeContinuation, insertSession, bind_eq_ok, pure_eq_ok,
    insertRow_eq_ok, requireRow_eq_ok, Prod.mk.injEq] at h
  obtain ⟨-, -, -, -, -, -, -, -, -, ⟨-, -, row, hfound, rfl⟩, admission, hadmission, _,
    hsame, s₁, ⟨-, -, -, -, -, -, sessions, hsessions, rfl⟩, s₂, haudit, -, rfl⟩ := h
  obtain ⟨auditEvents, rfl⟩ := insertAudit_spec haudit
  obtain ⟨hmem, hredeemable⟩ := Table.mem_select.mp (List.mem_of_head? hfound)
  exact ⟨row, hmem, hredeemable, admittedTo_of_evaluate hadmission hsame, Table.mapped_update,
    Table.inserted_of_insert hsessions⟩

/-- The session as it was issued. -/
def issuedRow (session : YardSessionRecord) : YardSessionRecord :=
  { session with lastUsedAtMs := none, revokedAtMs := none }

/-- Continuations are left alone, and sessions change in their use and revocation only. -/
structure SessionsMarked (s s' : Repository) : Prop where
  continuations : s'.yardContinuations = s.yardContinuations
  sessions : ∃ f, s.yardSessions.Mapped s'.yardSessions f ∧
    ∀ x ∈ s.yardSessions, issuedRow (f x) = issuedRow x

theorem SessionsMarked.refl (s : Repository) : SessionsMarked s s :=
  ⟨rfl, id, Table.Mapped.refl _, fun _ _ => rfl⟩

theorem revokeSessions_spec {p : YardSessionRecord → Prop} [DecidablePred p]
    (h : s.revokeSessions p nowMs = .ok s') : SessionsMarked s s' := by
  simp only [revokeSessions, bind_eq_ok, pure_eq_ok] at h
  obtain ⟨-, -, rfl⟩ := h
  refine ⟨rfl, _, Table.mapped_update, fun x _ => ?_⟩
  split <;> rfl

theorem revokeYardSession_spec {yardId sessionId : String} {event : NewAuditEvent}
    {revoked : Bool} (h : s.revokeYardSession yardId sessionId nowMs event = .ok (revoked, s')) :
    SessionsMarked s s' := by
  simp only [revokeYardSession, bind_eq_ok] at h
  obtain ⟨-, -, -, -, session, -, -, -, h⟩ := h
  split at h
  · simp only [pure_eq_ok, Prod.mk.injEq] at h
    exact h.2 ▸ SessionsMarked.refl s
  · simp only [bind_eq_ok, pure_eq_ok, Prod.mk.injEq] at h
    obtain ⟨-, -, -, -, s₁, hrevoke, s₂, haudit, -, rfl⟩ := h
    obtain ⟨auditEvents, rfl⟩ := insertAudit_spec haudit
    obtain ⟨hcontinuations, hsessions⟩ := revokeSessions_spec hrevoke
    exact ⟨hcontinuations, hsessions⟩

theorem revokeYardSessionByToken_spec {tokenHash hostLabel : String} {revoked : Bool}
    (h : s.revokeYardSessionByToken tokenHash hostLabel nowMs = .ok (revoked, s')) :
    SessionsMarked s s' := by
  simp only [revokeYardSessionByToken, bind_eq_ok, pure_eq_ok, Prod.mk.injEq] at h
  obtain ⟨-, -, -, -, -, -, s₁, hrevoke, -, rfl⟩ := h
  exact revokeSessions_spec hrevoke

theorem touchIdentity_spec {sessionId : String} (h : s.touchIdentity sessionId nowMs = .ok s') :
    SessionsMarked s s' := by
  simp only [touchIdentity, bind_eq_ok, pure_eq_ok] at h
  obtain ⟨-, -, -, -, rfl⟩ := h
  refine ⟨rfl, _, Table.mapped_update, fun x _ => ?_⟩
  split <;> rfl

theorem touchSession_marks {sessionId : String} (h : s.touchSession sessionId nowMs = .ok s') :
    SessionsMarked s s' := by
  simp only [touchSession, bind_eq_ok, pure_eq_ok] at h
  obtain ⟨-, -, -, -, rfl⟩ := h
  refine ⟨rfl, _, Table.mapped_update, fun x _ => ?_⟩
  split <;> rfl

theorem yardFileByHost_marks {hostLabel path : String} {tokenHash : Option String}
    {target : YardFileTarget}
    (h : s.yardFileByHost hostLabel path tokenHash nowMs = .ok (target, s')) :
    SessionsMarked s s' := by
  simp only [yardFileByHost, authorizedFile, bind_eq_ok] at h
  obtain ⟨-, -, -, -, -, -, -, -, session, -, _, -, h⟩ := h
  cases session with
  | none =>
    simp only [pure_eq_ok, Prod.mk.injEq] at h
    exact h.2 ▸ SessionsMarked.refl s
  | some id =>
    simp only [bind_eq_ok, pure_eq_ok, Prod.mk.injEq] at h
    obtain ⟨s₁, htouch, -, rfl⟩ := h
    exact touchSession_marks htouch

theorem purgeYardSessionHistory_spec (h : s.purgeYardSessionHistory nowMs = .ok s') :
    s'.yardContinuations = s.yardContinuations.erase (PurgedContinuation nowMs) ∧
      s'.yardSessions = s.yardSessions.erase (PurgedSession nowMs) := by
  simp only [purgeYardSessionHistory, bind_eq_ok, pure_eq_ok] at h
  obtain ⟨-, -, rfl⟩ := h
  exact ⟨rfl, rfl⟩

/-- A purge deletes no session that is neither expired nor revoked, and no continuation record
that is not expired. -/
theorem purgeYardSessionHistory_keeps (h : s.purgeYardSessionHistory nowMs = .ok s') :
    (∀ x ∈ s.yardSessions, nowMs < x.expiresAtMs → x.revokedAtMs = none → x ∈ s'.yardSessions) ∧
      ∀ row ∈ s.yardContinuations, nowMs < row.continuation.expiresAtMs →
        row ∈ s'.yardContinuations := by
  obtain ⟨hcontinuations, hsessions⟩ := purgeYardSessionHistory_spec h
  rw [hcontinuations, hsessions]
  constructor
  · intro x hx hexpires hrevoked
    refine Table.mem_erase.mpr ⟨hx, ?_⟩
    rintro (hold | ⟨revokedAtMs, hrevokedAt, -⟩)
    · omega
    · rw [hrevoked] at hrevokedAt
      cases hrevokedAt
  · intro row hrow hexpires
    refine Table.mem_erase.mpr ⟨hrow, fun hold => ?_⟩
    unfold PurgedContinuation at hold
    omega

end Repository

end BlobYard
