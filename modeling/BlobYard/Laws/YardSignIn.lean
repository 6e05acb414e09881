/-
Sign-ins over runs.

* `attempts_law` — every claim uses up a start of the same attempt, within its ten minutes;
* `binding_law` — an identity is bound by its first accepted callback, to the one subject that its
  verified email stood for then, and never to another one;
* `callback_law` — a callback binds its identity and leaves the event of the link behind if and only
  if it has all that a first one needs; a later one is accepted or denied by what is known of the
  identity, and one that has drifted ends the sessions of the subject.
-/
import BlobYard.Lib.Refinement
import BlobYard.Repository.LocalUsers
import BlobYard.Repository.YardRequests
import BlobYard.Repository.YardSignIn

namespace BlobYard

namespace YardSignIn

open Outcome SignInStore

/-- A request of the sign-in with its answer, or another one that leaves the repository behind. -/
inductive SignInLabel where
  | create (attempt : NewYardOidcAttempt) (answer : Except RepositoryError Unit)
  | claim (stateHash : String) (nowMs : ℕ) (answer : Except RepositoryError YardOidcAttemptRecord)
  | callback (authentication : NewYardOidcAuthentication) (audit : YardOidcAuditContext)
      (answer : Except RepositoryError YardOidcIdentityRecord)
  | other (repository : Repository)

/-- The workspaces of yards and the subjects have the identifiers that the other requests give
them. -/
def SoundRecords (s : Repository) : Prop :=
  (∀ y ∈ s.webYards, ValidText y.workspaceId) ∧ ∀ x ∈ s.yardSubjects, ValidText x.id

variable {s s' : SignInStore} {labels : List SignInLabel}

/-! ### Attempts -/

/-- A successful start of such an attempt. -/
def SignInLabel.creates (p : NewYardOidcAttempt → Bool) : SignInLabel → Bool
  | .create attempt (.ok _) => p attempt
  | _ => false

/-- A successful claim of such an attempt. -/
def SignInLabel.claims (p : NewYardOidcAttempt → Bool) : SignInLabel → Bool
  | .claim _ _ (.ok record) => p record.attempt
  | _ => false

/-- The open attempts and the claimed ones are no more than the started ones. -/
structure Ledger (labels : List SignInLabel) (s : SignInStore) : Prop where
  balance : ∀ p : NewYardOidcAttempt → Bool, labels.countP (SignInLabel.claims p) +
    s.attempts.count (fun record => record.claimedAtMs = none ∧ p record.attempt = true) ≤
      labels.countP (SignInLabel.creates p)
  started : ∀ record ∈ s.attempts, .create record.attempt (.ok ()) ∈ labels ∧
    record.attempt.expiresAtMs = record.attempt.createdAtMs + yardOidcAttemptLifetimeMs
  claimed : ∀ stateHash nowMs record, .claim stateHash nowMs (.ok record) ∈ labels →
    record.attempt.stateHash = stateHash ∧ record.claimedAtMs = some nowMs ∧
      record.attempt.createdAtMs ≤ nowMs ∧
      nowMs < record.attempt.createdAtMs + yardOidcAttemptLifetimeMs ∧
      .create record.attempt (.ok ()) ∈ labels

/-- A label that neither starts nor claims an attempt leaves the ledger alone. -/
theorem Ledger.frame {label : SignInLabel} (h : Ledger labels s)
    (hattempts : s'.attempts = s.attempts) (hcreates : ∀ p, label.creates p = false)
    (hclaims : ∀ p, label.claims p = false) (hclaim : ∀ stateHash nowMs record,
      label ≠ .claim stateHash nowMs (.ok record)) : Ledger (labels ++ [label]) s' where
  balance p := by
    rw [List.countP_append, List.countP_append, List.countP_singleton, List.countP_singleton,
      hcreates, hclaims, hattempts]
    simpa using h.balance p
  started record hrecord := by
    obtain ⟨hcreate, hexpires⟩ := h.started record (hattempts ▸ hrecord)
    exact ⟨List.mem_append_left _ hcreate, hexpires⟩
  claimed stateHash nowMs record hmem := by
    rcases List.mem_append.mp hmem with hmem | hmem
    · obtain ⟨hhash, hat, hcreated, hwithin, hcreate⟩ := h.claimed stateHash nowMs record hmem
      exact ⟨hhash, hat, hcreated, hwithin, List.mem_append_left _ hcreate⟩
    · exact absurd (List.mem_singleton.mp hmem).symm (hclaim stateHash nowMs record)

/-! ### Runs -/

section Runs

variable [Unicode] [IssuerParser]

/-- One request, with the answer it gives. -/
inductive SignInStep (s : SignInStore) : SignInLabel → SignInStore → Prop
  | created {attempt : NewYardOidcAttempt} {s' : SignInStore}
      (h : s.createYardOidcAttempt attempt = .ok s') : SignInStep s (.create attempt (.ok ())) s'
  | notCreated {attempt : NewYardOidcAttempt} {e : RepositoryError}
      (h : s.createYardOidcAttempt attempt = .error e) :
      SignInStep s (.create attempt (.error e)) s
  | claimed {stateHash : String} {nowMs : ℕ} {record : YardOidcAttemptRecord} {s' : SignInStore}
      (h : s.claimYardOidcAttempt stateHash nowMs = .ok (record, s')) :
      SignInStep s (.claim stateHash nowMs (.ok record)) s'
  | notClaimed {stateHash : String} {nowMs : ℕ} {e : RepositoryError}
      (h : s.claimYardOidcAttempt stateHash nowMs = .error e) :
      SignInStep s (.claim stateHash nowMs (.error e)) s
  | callback {authentication : NewYardOidcAuthentication} {audit : YardOidcAuditContext}
      {answer : Except RepositoryError YardOidcIdentityRecord} {s' : SignInStore}
      (h : s.authenticateYardOidcIdentity authentication audit = (answer, s')) :
      SignInStep s (.callback authentication audit answer) s'
  | other {repository : Repository} (h : SoundRecords repository) :
      SignInStep s (.other repository) { s with repository }

/-- The sign-in over a freshly migrated repository. -/
def signInSystem : System SignInStore SignInLabel where
  init := { repository := Repository.empty, attempts := ∅, identities := ∅ }
  step := SignInStep

omit [Unicode] [IssuerParser] in
/-- A start adds its attempt to the open ones. -/
theorem Ledger.create {attempt : NewYardOidcAttempt} (h : Ledger labels s)
    (hrun : s.createYardOidcAttempt attempt = .ok s') :
    Ledger (labels ++ [.create attempt (.ok ())]) s' := by
  obtain ⟨attempts, rfl, -, hexpires, hinserted⟩ := createYardOidcAttempt_spec hrun
  refine ⟨fun p => ?_, fun record hrecord => ?_, fun stateHash nowMs record hmem => ?_⟩
  -- one more start and one more open attempt; housekeeping can only remove some
  · have hbefore := h.balance p
    have hcleanup := @count_cleanup_le s attempt.createdAtMs
      (fun record => record.claimedAtMs = none ∧ p record.attempt = true) _
    have hcount := hinserted.count
      (fun record => record.claimedAtMs = none ∧ p record.attempt = true)
    have hnone : SignInLabel.claims p (.create attempt (.ok ())) = false := rfl
    have hone : SignInLabel.creates p (.create attempt (.ok ())) = p attempt := rfl
    rw [List.countP_append, List.countP_append, List.countP_singleton, List.countP_singleton, hnone,
      hone, if_neg Bool.false_ne_true]
    simp only [true_and] at hcount
    cases hp : p attempt <;> simp only [hp, Bool.false_eq_true, if_false, if_true] at hcount ⊢ <;>
      omega
  · rcases (hinserted.mem record).mp hrecord with hrecord | rfl
    · obtain ⟨hcreate, hwithin⟩ := h.started record (mem_cleanup hrecord)
      exact ⟨List.mem_append_left _ hcreate, hwithin⟩
    · exact ⟨List.mem_append_right _ (List.mem_singleton_self _), hexpires⟩
  -- no claim is new, and the old ones had their start before
  · rcases List.mem_append.mp hmem with hmem | hmem
    · obtain ⟨hhash, hat, hcreated, hwithin, hcreate⟩ := h.claimed stateHash nowMs record hmem
      exact ⟨hhash, hat, hcreated, hwithin, List.mem_append_left _ hcreate⟩
    · cases List.mem_singleton.mp hmem

omit [Unicode] [IssuerParser] in
/-- A claim moves its attempt from the open ones to the claimed ones. -/
theorem Ledger.claim {stateHash : String} {nowMs : ℕ} {record : YardOidcAttemptRecord}
    (h : Ledger labels s) (hrun : s.claimYardOidcAttempt stateHash nowMs = .ok (record, s')) :
    Ledger (labels ++ [.claim stateHash nowMs (.ok record)]) s' := by
  obtain ⟨attempts, claimed, rfl, hclaimable, hrecord, hreplaced⟩ := claimYardOidcAttempt_spec hrun
  obtain ⟨hhash, hopen, hcreated, hexpires⟩ := hclaimable
  have hattempt : record.attempt = claimed.attempt := by rw [hrecord]
  obtain ⟨hstarted, hlifetime⟩ := h.started claimed (mem_cleanup hreplaced.mem_old)
  refine ⟨fun p => ?_, fun other hother => ?_, fun stateHash' nowMs' record' hmem => ?_⟩
  -- one more claim and one open attempt less
  · have hbefore := h.balance p
    have hcleanup := @count_cleanup_le s nowMs
      (fun record => record.claimedAtMs = none ∧ p record.attempt = true) _
    have hcount := hreplaced.count
      (fun record => record.claimedAtMs = none ∧ p record.attempt = true)
    have hclaimed : record.claimedAtMs ≠ none := by
      rw [hrecord]
      exact Option.some_ne_none nowMs
    simp only [List.countP_append, List.countP_singleton, SignInLabel.claims, SignInLabel.creates,
      hopen, hclaimed, hattempt, true_and, false_and, if_false] at hcount ⊢
    simp only [Bool.false_eq_true, if_false]
    omega
  -- housekeeping and the claim keep every attempt that is left
  · have hsame : ∃ before ∈ s.attempts, other.attempt = before.attempt := by
      rcases (hreplaced.mem other).mp hother with ⟨hother, -⟩ | rfl
      · exact ⟨other, mem_cleanup hother, rfl⟩
      · exact ⟨claimed, mem_cleanup hreplaced.mem_old, hattempt⟩
    obtain ⟨before, hbefore, heq⟩ := hsame
    obtain ⟨hcreate, hwithin⟩ := h.started before hbefore
    exact heq ▸ ⟨List.mem_append_left _ hcreate, hwithin⟩
  -- the new claim is of an attempt that was started before, and in time
  · rcases List.mem_append.mp hmem with hmem | hmem
    · obtain ⟨hhash, hat, hcreated, hwithin, hcreate⟩ := h.claimed stateHash' nowMs' record' hmem
      exact ⟨hhash, hat, hcreated, hwithin, List.mem_append_left _ hcreate⟩
    · cases List.mem_singleton.mp hmem
      rw [hattempt]
      refine ⟨hhash, ?_, hcreated, hlifetime ▸ hexpires, List.mem_append_left _ hstarted⟩
      rw [hrecord]

/-- What is known of a callback that was run. -/
theorem callback_of_run {authentication : NewYardOidcAuthentication} {audit : YardOidcAuditContext}
    {answer : Except RepositoryError YardOidcIdentityRecord}
    (h : s.authenticateYardOidcIdentity authentication audit = (answer, s')) :
    Callback s authentication audit answer s' := by
  have hspec := callback_spec s authentication audit
  rwa [h] at hspec

theorem ledger_step {label : SignInLabel} (h : Ledger labels s) (hstep : SignInStep s label s') :
    Ledger (labels ++ [label]) s' := by
  cases hstep with
  | created hrun => exact h.create hrun
  | notCreated hrun => exact h.frame rfl (fun _ => rfl) (fun _ => rfl) (fun _ _ _ => nofun)
  | claimed hrun => exact h.claim hrun
  | notClaimed hrun => exact h.frame rfl (fun _ => rfl) (fun _ => rfl) (fun _ _ _ => nofun)
  | callback hrun =>
    have hattempts : s'.attempts = s.attempts := by
      cases callback_of_run hrun <;> rfl
    exact h.frame hattempts (fun _ => rfl) (fun _ => rfl) (fun _ _ _ => nofun)
  | other hrepository => exact h.frame rfl (fun _ => rfl) (fun _ => rfl) (fun _ _ _ => nofun)

/-- Every claim uses up a start: of the attempts of any kind, no more are claimed than were started.
A claim falls in the ten minutes of its attempt. -/
theorem attempts_law (h : Traced signInSystem (fun _ _ => True) labels s) :
    (∀ p : NewYardOidcAttempt → Bool,
      labels.countP (SignInLabel.claims p) ≤ labels.countP (SignInLabel.creates p)) ∧
      ∀ stateHash nowMs record, .claim stateHash nowMs (.ok record) ∈ labels →
        record.attempt.stateHash = stateHash ∧ record.claimedAtMs = some nowMs ∧
          record.attempt.createdAtMs ≤ nowMs ∧
          nowMs < record.attempt.createdAtMs + yardOidcAttemptLifetimeMs ∧
          .create record.attempt (.ok ()) ∈ labels := by
  have hledger : Ledger labels s := by
    refine h.inv (P := Ledger) ⟨fun p => le_rfl, ?_, ?_⟩ fun _ _ _ _ ih _ hstep =>
      ledger_step ih hstep
    · exact fun record hrecord => absurd hrecord Table.not_mem_empty
    · exact fun stateHash nowMs record hmem => absurd hmem List.not_mem_nil
  exact ⟨fun p => le_trans (Nat.le_add_right _ _) (hledger.balance p), hledger.claimed⟩

/-! ### Bindings -/

/-- What an identity is bound to, with the time of the binding. -/
def bindingOf (identity : YardOidcIdentityRecord) :
    (String × String × String) × String × String × ℕ :=
  (identityKey identity, identity.yardSubjectId, identity.normalizedEmail, identity.createdAtMs)

/-- After these steps a callback made the binding of the identity: none before it was accepted for
the identity, which was unknown, it presented the email, and at its time the email stood for the
subject alone. -/
structure BoundBy (before : List SignInLabel) (s₀ : SignInStore)
    (authentication : NewYardOidcAuthentication) (audit : YardOidcAuditContext) (scope : YardScope)
    (identity : YardOidcIdentityRecord) : Prop where
  reached : Traced signInSystem (fun _ _ => True) before s₀
  first : ∀ authentication' audit' identity',
    .callback authentication' audit' (.ok identity') ∈ before →
      identityKey identity' ≠ identityKey identity
  unknown : ∀ known ∈ s₀.identities, ¬Identifies known authentication scope
  presented : Presented s₀ authentication audit scope
  identifies : Identifies identity authentication scope
  verified : authentication.normalizedEmail = some identity.normalizedEmail
  time : authentication.authenticatedAtMs = identity.createdAtMs
  only : s₀.repository.OnlyRecognised scope identity.normalizedEmail identity.createdAtMs
    identity.yardSubjectId

/-- The binding of the identity was made in the run, by its first accepted callback. -/
def BoundIn (labels : List SignInLabel) (identity : YardOidcIdentityRecord) : Prop :=
  ∃ before authentication audit bound rest, ∃ s₀ scope,
    labels = before ++ .callback authentication audit (.ok bound) :: rest ∧
      bindingOf bound = bindingOf identity ∧
      BoundBy before s₀ authentication audit scope identity

variable {authentication : NewYardOidcAuthentication} {audit : YardOidcAuditContext}
  {answer : Except RepositoryError YardOidcIdentityRecord} {identity : YardOidcIdentityRecord}

omit [Unicode] [IssuerParser] in
theorem bindingOf_touched (identity : YardOidcIdentityRecord) (nowMs : ℕ) :
    bindingOf (touchedIdentity identity nowMs) = bindingOf identity := rfl

/-- What follows in the run leaves a binding made. -/
theorem BoundIn.append (h : BoundIn labels identity) (label : SignInLabel) :
    BoundIn (labels ++ [label]) identity := by
  obtain ⟨before, authentication, audit, bound, rest, s₀, scope, rfl, hsame, hbound⟩ := h
  refine ⟨before, authentication, audit, bound, rest ++ [label], s₀, scope, ?_, hsame, hbound⟩
  rw [List.append_assoc, List.cons_append]

/-- Two identities with one binding were bound together. -/
theorem BoundIn.congr {other : YardOidcIdentityRecord} (h : BoundIn labels identity)
    (hsame : bindingOf identity = bindingOf other) : BoundIn labels other := by
  obtain ⟨before, authentication, audit, bound, rest, s₀, scope, hlabels, hbinding, hbound⟩ := h
  obtain ⟨hreached, hfirst, hunknown, hpresented, hidentifies, hverified, htime, honly⟩ := hbound
  refine ⟨before, authentication, audit, bound, rest, s₀, scope, hlabels, hbinding.trans hsame, ?_⟩
  -- the key, the subject, the email and the time are all there is to a binding
  obtain ⟨hkey, hsubject, hemail, hcreated⟩ : identityKey identity = identityKey other ∧
      identity.yardSubjectId = other.yardSubjectId ∧
      identity.normalizedEmail = other.normalizedEmail ∧
      identity.createdAtMs = other.createdAtMs := by
    simpa only [bindingOf, Prod.mk.injEq] using hsame
  refine ⟨hreached, hkey ▸ hfirst, hunknown, hpresented, hkey.symm.trans hidentifies,
    hemail ▸ hverified, hcreated ▸ htime, ?_⟩
  rw [← hsubject, ← hemail, ← hcreated]
  exact honly

/-- A callback keeps every binding. -/
theorem binding_kept (h : Callback s authentication audit answer s')
    (hmem : identity ∈ s.identities) :
    ∃ kept ∈ s'.identities, bindingOf kept = bindingOf identity := by
  cases h with
  | bound hbindable hinserted haudited => exact ⟨identity, hinserted.mem_of_mem hmem, rfl⟩
  | @returned scope known identities hpresented hidentifies hemail hcreated hactive hreplaced =>
    by_cases hsame : identity = known
    -- the identity that returns is replaced by one with the same binding
    · subst hsame
      exact ⟨_, hreplaced.mem_new, bindingOf_touched identity _⟩
    · exact ⟨identity, (hreplaced.mem identity).mpr (Or.inl ⟨hmem, hsame⟩), rfl⟩
  | drifted hpresented hknown hidentifies hemail hrevoke => exact ⟨identity, hmem, rfl⟩
  | refused e => exact ⟨identity, hmem, rfl⟩

/-- A callback answers a binding with the email that was presented. -/
theorem binding_answered (h : Callback s authentication audit (.ok identity) s') :
    authentication.issuer = identity.issuer ∧
      authentication.providerSubject = identity.providerSubject ∧
      authentication.normalizedEmail = some identity.normalizedEmail ∧
      ∃ kept ∈ s'.identities, bindingOf kept = bindingOf identity := by
  cases h with
  | bound hbindable hinserted haudited =>
    exact ⟨rfl, rfl, hbindable.verified, _, hinserted.mem_new, rfl⟩
  | returned hpresented hidentifies hemail hcreated hactive hreplaced =>
    obtain ⟨hissuer, hsubject⟩ := Prod.mk.inj hidentifies
    exact ⟨hissuer.symm, (Prod.mk.inj hsubject).1.symm, hemail, _, hreplaced.mem_new, rfl⟩

/-- The accepted callbacks agree with the bindings, each of which was made by the first of them. -/
structure Bindings (labels : List SignInLabel) (s : SignInStore) : Prop where
  accepted : ∀ authentication audit identity,
    .callback authentication audit (.ok identity) ∈ labels →
    authentication.issuer = identity.issuer ∧
      authentication.providerSubject = identity.providerSubject ∧
      authentication.normalizedEmail = some identity.normalizedEmail ∧
      ∃ kept ∈ s.identities, bindingOf kept = bindingOf identity
  boundIn : ∀ identity ∈ s.identities, BoundIn labels identity

/-- A callback binds its identity for the first time, or keeps how the identities were bound. -/
theorem boundIn_callback (htraced : Traced signInSystem (fun _ _ => True) labels s)
    (h : Bindings labels s) (hcallback : Callback s authentication audit answer s') :
    ∀ identity ∈ s'.identities,
      BoundIn (labels ++ [.callback authentication audit answer]) identity := by
  cases hcallback with
  | @bound scope email subjectId _ _ hbindable hinserted haudited =>
    intro identity hmem
    rcases (hinserted.mem identity).mp hmem with hmem | rfl
    · exact (h.boundIn identity hmem).append _
    · refine ⟨labels, authentication, audit, _, [], s, scope, rfl, rfl, htraced, ?_,
        hbindable.unknown, hbindable.presented, rfl, hbindable.verified, rfl, hbindable.only⟩
      -- an earlier accepted callback would have left the key of the identity behind
      intro authentication' audit' identity' hmem' hkey
      obtain ⟨-, -, -, kept, hkept, hsame⟩ := h.accepted authentication' audit' identity' hmem'
      exact hinserted.fresh kept hkept ((Prod.mk.inj hsame).1.trans hkey)
  | @returned scope known identities hpresented hidentifies hemail hcreated hactive hreplaced =>
    intro identity hmem
    rcases (hreplaced.mem identity).mp hmem with ⟨hmem, -⟩ | rfl
    · exact (h.boundIn identity hmem).append _
    · exact ((h.boundIn known hreplaced.mem_old).congr (bindingOf_touched known _).symm).append _
  | drifted hpresented hknown hidentifies hemail hrevoke =>
    exact fun identity hmem => (h.boundIn identity hmem).append _
  | refused e => exact fun identity hmem => (h.boundIn identity hmem).append _

/-- A request without an accepted callback that leaves the identities alone. -/
theorem Bindings.frame {label : SignInLabel} (h : Bindings labels s)
    (hidentities : s'.identities = s.identities) (hlabel : ∀ authentication audit identity,
      label ≠ .callback authentication audit (.ok identity)) :
    Bindings (labels ++ [label]) s' where
  accepted authentication audit identity hmem := by
    rw [hidentities]
    rcases List.mem_append.mp hmem with hmem | hmem
    · exact h.accepted authentication audit identity hmem
    · exact absurd (List.mem_singleton.mp hmem).symm (hlabel authentication audit identity)
  boundIn identity hmem := (h.boundIn identity (hidentities ▸ hmem)).append label

theorem bindings_step {label : SignInLabel}
    (htraced : Traced signInSystem (fun _ _ => True) labels s) (h : Bindings labels s)
    (hstep : SignInStep s label s') : Bindings (labels ++ [label]) s' := by
  cases hstep with
  | created hrun =>
    obtain ⟨attempts, rfl, -⟩ := createYardOidcAttempt_spec hrun
    exact h.frame rfl fun _ _ _ => nofun
  | notCreated hrun => exact h.frame rfl fun _ _ _ => nofun
  | claimed hrun =>
    obtain ⟨attempts, claimed, rfl, -⟩ := claimYardOidcAttempt_spec hrun
    exact h.frame rfl fun _ _ _ => nofun
  | notClaimed hrun => exact h.frame rfl fun _ _ _ => nofun
  | @callback authentication audit answer _ hcall =>
    have hcallback := callback_of_run hcall
    refine ⟨fun authentication' audit' identity hmem => ?_,
      boundIn_callback htraced h hcallback⟩
    -- earlier callbacks keep their bindings, and the last one answers its own
    rcases List.mem_append.mp hmem with hmem | hmem
    · obtain ⟨hissuer, hsubject, hemail, known, hknown, hsame⟩ :=
        h.accepted authentication' audit' identity hmem
      obtain ⟨kept, hkept, heq⟩ := binding_kept hcallback hknown
      exact ⟨hissuer, hsubject, hemail, kept, hkept, heq.trans hsame⟩
    · cases List.mem_singleton.mp hmem
      exact binding_answered hcallback
  | other hrepository => exact h.frame rfl fun _ _ _ => nofun

theorem bindings_of_traced (h : Traced signInSystem (fun _ _ => True) labels s) :
    Bindings labels s := by
  induction h with
  | init =>
    refine ⟨fun _ _ _ hmem => absurd hmem List.not_mem_nil, fun identity hmem => ?_⟩
    exact absurd hmem Table.not_mem_empty
  | step htraced _ hstep ih => exact bindings_step htraced ih hstep

/-- An accepted callback presented the email of its identity.  All accepted callbacks of an issuer,
provider subject and workspace answer the same binding, which the first of them made when the email
stood for the subject alone. -/
theorem binding_law (h : Traced signInSystem (fun _ _ => True) labels s)
    (hmem : .callback authentication audit (.ok identity) ∈ labels) :
    authentication.issuer = identity.issuer ∧
      authentication.providerSubject = identity.providerSubject ∧
      authentication.normalizedEmail = some identity.normalizedEmail ∧ BoundIn labels identity ∧
      ∀ authentication' audit' identity',
        .callback authentication' audit' (.ok identity') ∈ labels →
          identityKey identity' = identityKey identity →
            bindingOf identity' = bindingOf identity := by
  have hbindings := bindings_of_traced h
  obtain ⟨hissuer, hsubject, hemail, kept, hkept, hsame⟩ :=
    hbindings.accepted authentication audit identity hmem
  refine ⟨hissuer, hsubject, hemail, (hbindings.boundIn kept hkept).congr hsame,
    fun authentication' audit' identity' hmem' hkey => ?_⟩
  obtain ⟨-, -, -, kept', hkept', hsame'⟩ :=
    hbindings.accepted authentication' audit' identity' hmem'
  have hkeys : identityKey kept' = identityKey kept :=
    (Prod.mk.inj hsame').1.trans (hkey.trans (Prod.mk.inj hsame).1.symm)
  rw [← hsame, ← hsame', Table.eq_of_key hkept' hkept hkeys]

/-! ### Callbacks -/

/-- The stored identities pass the checks of their rows. -/
def Readable (s : SignInStore) : Prop :=
  SoundRecords s.repository ∧ ∀ identity ∈ s.identities, ValidIdentity identity

omit [Unicode] [IssuerParser] in
theorem SoundRecords.of_eq {r r' : Repository} (h : SoundRecords r)
    (hyards : r'.webYards = r.webYards) (hsubjects : r'.yardSubjects = r.yardSubjects) :
    SoundRecords r' :=
  ⟨hyards ▸ h.1, hsubjects ▸ h.2⟩

/-- A callback leaves the identities readable. -/
theorem readable_callback (h : Readable s) (hcallback : Callback s authentication audit answer s') :
    Readable s' := by
  cases hcallback with
  | @bound scope email subjectId _ _ hbindable hinserted haudited =>
    refine ⟨h.1.of_eq rfl rfl, fun identity hmem => ?_⟩
    rcases (hinserted.mem identity).mp hmem with hmem | rfl
    · exact h.2 identity hmem
    -- the texts of a new identity are those of the callback, of its yard and of its subject
    · obtain ⟨yard, hyard, -, -, _, -, -, hscope⟩ :=
        Repository.signInScope_spec hbindable.presented.scope
      obtain ⟨subject, hsubject, hid, -⟩ := hbindable.only
      have hvalid := hbindable.presented.valid
      simp only [validateAuthentication, bind_eq_ok, ensure_eq_ok] at hvalid
      obtain ⟨-, -, -, -, -, -, hissuer, hemails, hprovider⟩ := hvalid
      refine ⟨?_, hid ▸ h.1.2 subject hsubject, hissuer, (hemails email hbindable.verified).1,
        hprovider, le_rfl⟩
      show ValidText scope.workspaceId
      rw [hscope]
      exact h.1.1 yard hyard
  | @returned scope known identities hpresented hidentifies hemail hcreated hactive hreplaced =>
    -- the identity that was known keeps its texts, and its last login only gets later
    refine ⟨h.1, fun identity hmem => ?_⟩
    rcases (hreplaced.mem identity).mp hmem with ⟨hmem, -⟩ | rfl
    · exact h.2 identity hmem
    · obtain ⟨hw, hs, hi, he, hp, hc⟩ := h.2 known hreplaced.mem_old
      exact ⟨hw, hs, hi, he, hp, hc.trans (le_max_left _ _)⟩
  -- only sessions are revoked
  | drifted hpresented hknown hidentifies hemail hrevoke =>
    simp only [Repository.revokeForUser, Repository.revokeSessions, bind_eq_ok, pure_eq_ok]
      at hrevoke
    obtain ⟨-, -, rfl⟩ := hrevoke
    exact ⟨h.1.of_eq rfl rfl, h.2⟩
  | refused e => exact h

theorem readable_of_run (h : Run signInSystem (fun _ _ => True) s) : Readable s := by
  refine h.inv (P := Readable) ⟨⟨?_, ?_⟩, ?_⟩ fun s label s' ih _ hstep => ?_
  · exact fun y hy => absurd hy Table.not_mem_empty
  · exact fun x hx => absurd hx Table.not_mem_empty
  · exact fun identity hmem => absurd hmem Table.not_mem_empty
  · cases hstep with
    | created hrun =>
      obtain ⟨attempts, rfl, -⟩ := createYardOidcAttempt_spec hrun
      exact ih
    | notCreated hrun => exact ih
    | claimed hrun =>
      obtain ⟨attempts, claimed, rfl, -⟩ := claimYardOidcAttempt_spec hrun
      exact ih
    | notClaimed hrun => exact ih
    | callback hrun => exact readable_callback ih (callback_of_run hrun)
    | other hrepository => exact ⟨hrepository, ih.2⟩

/-- The sessions of the subject are over or revoked. -/
def SessionsEnded (s : SignInStore) (subjectId : String) (nowMs : ℕ) : Prop :=
  ∀ x ∈ s.repository.yardSessions, x.userId = subjectId →
    x.revokedAtMs ≠ none ∨ x.expiresAtMs ≤ nowMs

omit [Unicode] [IssuerParser] in
/-- Revoking the sessions of a subject ends all of them, or finds one that is younger. -/
theorem revokeForUser_ends (r : Repository) (subjectId : String) (nowMs : ℕ) :
    (∃ r', r.revokeForUser subjectId nowMs = .ok r' ∧ ∀ x ∈ r'.yardSessions,
        x.userId = subjectId → x.revokedAtMs ≠ none ∨ x.expiresAtMs ≤ nowMs) ∨
      r.revokeForUser subjectId nowMs = .error .conflict ∧ ∃ x ∈ r.yardSessions,
        x.userId = subjectId ∧ x.revokedAtMs = none ∧ nowMs < x.createdAtMs := by
  cases hrevoke : r.revokeForUser subjectId nowMs with
  | ok r' =>
    -- a session of the subject is revoked by the update, or it needed none
    refine Or.inl ⟨r', rfl, fun x hx huser => ?_⟩
    simp only [Repository.revokeForUser, Repository.revokeSessions, bind_eq_ok, pure_eq_ok]
      at hrevoke
    obtain ⟨-, -, rfl⟩ := hrevoke
    rw [Table.mem_update] at hx
    obtain ⟨before, -, rfl⟩ := hx
    split at huser
    · rename_i hlive
      rw [if_pos hlive]
      exact Or.inl (Option.some_ne_none _)
    -- what the update passes over was revoked or over before
    · rename_i hlive
      rw [if_neg hlive]
      by_contra hopen
      rw [not_or, not_not, not_le] at hopen
      exact hlive ⟨huser, hopen⟩
  | error e =>
    simp only [Repository.revokeForUser, Repository.revokeSessions, bind_eq_error, ensure_eq_error]
      at hrevoke
    -- the update is refused as a whole
    rcases hrevoke with ⟨hyoung, rfl⟩ | ⟨_, -, hpure⟩
    -- the check that fails: no session is revoked before it was created
    · push Not at hyoung
      obtain ⟨x, hx, ⟨huser, hopen, -⟩, hlater⟩ := hyoung
      exact Or.inr ⟨rfl, x, hx, huser, hopen, hlater⟩
    · cases hpure

/-- A callback of a known identity is decided by what is known of it. -/
theorem authenticate_of_known (h : Readable s) {scope : YardScope}
    (hpresented : Presented s authentication audit scope) (hmem : identity ∈ s.identities)
    (hidentifies : Identifies identity authentication scope) :
    s.authenticate authentication audit = s.authenticateExisting authentication identity := by
  have hexisting : s.existing authentication scope.workspaceId = .ok (some identity) := by
    have hfind := Table.find?_key hmem
    rw [show identityKey identity = _ from hidentifies] at hfind
    simp only [existing, hfind, bind_eq_ok, pure_eq_ok, ensure_eq_ok]
    exact ⟨(), h.2 identity hmem, trivial⟩
  have htime : toI64 authentication.authenticatedAtMs = .ok () := toI64_eq_ok.mpr hpresented.time
  simp only [authenticate, hpresented.valid, htime, hpresented.scope, hexisting, bind, Except.bind]

/-- A callback without the email of its identity is denied; it ends the sessions of the subject,
unless one of them is younger than the callback. -/
theorem drift_denied (h : Readable s) {scope : YardScope}
    (hpresented : Presented s authentication audit scope) (hmem : identity ∈ s.identities)
    (hidentifies : Identifies identity authentication scope)
    (hemail : authentication.normalizedEmail ≠ some identity.normalizedEmail) :
    ((s.authenticateYardOidcIdentity authentication audit).1 = .error .notFound ∧
        SessionsEnded (s.authenticateYardOidcIdentity authentication audit).2
          identity.yardSubjectId authentication.authenticatedAtMs) ∨
      s.authenticateYardOidcIdentity authentication audit = (.error .conflict, s) ∧
        ∃ x ∈ s.repository.yardSessions, x.userId = identity.yardSubjectId ∧
          x.revokedAtMs = none ∧ authentication.authenticatedAtMs < x.createdAtMs := by
  have hauthenticate : s.authenticate authentication audit =
      (s.repository.revokeForUser identity.yardSubjectId authentication.authenticatedAtMs).map
        fun repository => (none, { s with repository }) := by
    rw [authenticate_of_known h hpresented hmem hidentifies]
    simp only [authenticateExisting, ne_eq, hemail, not_false_eq_true, if_true, bind, Except.bind,
      pure, Except.pure, Except.map]
  rcases revokeForUser_ends s.repository identity.yardSubjectId
      authentication.authenticatedAtMs with
    ⟨repository, hrevoke, hended⟩ | ⟨hrevoke, x, hx, huser, hopen, hlater⟩
  · rw [hrevoke] at hauthenticate
    simp only [authenticateYardOidcIdentity, hauthenticate, Except.map]
    exact Or.inl ⟨trivial, hended⟩
  · rw [hrevoke] at hauthenticate
    simp only [authenticateYardOidcIdentity, hauthenticate, Except.map]
    exact Or.inr ⟨trivial, x, hx, huser, hopen, hlater⟩

/-- A callback with the email of its identity is accepted if the subject is active then, and denied
without a change if it is not. -/
theorem return_answered (h : Readable s) {scope : YardScope}
    (hpresented : Presented s authentication audit scope) (hmem : identity ∈ s.identities)
    (hidentifies : Identifies identity authentication scope)
    (hemail : authentication.normalizedEmail = some identity.normalizedEmail) :
    if identity.createdAtMs ≤ authentication.authenticatedAtMs ∧
        s.repository.SubjectActive identity authentication.authenticatedAtMs then
      (s.authenticateYardOidcIdentity authentication audit).1 =
        .ok (touchedIdentity identity authentication.authenticatedAtMs)
    else s.authenticateYardOidcIdentity authentication audit = (.error .notFound, s) := by
  have hauthenticate : s.authenticate authentication audit =
      s.authenticateExisting authentication identity :=
    authenticate_of_known h hpresented hmem hidentifies
  rw [authenticateYardOidcIdentity, hauthenticate, authenticateExisting]
  simp only [hemail, ne_eq, not_true_eq_false, if_false, ← not_le, ← not_and_or, ite_not]
  split <;> rfl

/-- What a callback in the state answers and leaves behind. -/
structure Answers (s : SignInStore) (authentication : NewYardOidcAuthentication)
    (audit : YardOidcAuditContext) (answer : Except RepositoryError YardOidcIdentityRecord)
    (s' : SignInStore) : Prop where
  /-- One that has all a first callback needs binds its identity, with its event. -/
  binds : ∀ scope email subjectId, Bindable s authentication audit scope email subjectId →
    answer = .ok (newIdentity authentication email scope.workspaceId subjectId) ∧
      s.identities.Inserted s'.identities
        (newIdentity authentication email scope.workspaceId subjectId) ∧
      Repository.Audited s.repository.auditEvents s'.repository.auditEvents
        (linkEvent audit scope subjectId authentication.authenticatedAtMs)
  /-- Any other one leaves no event and no new binding. -/
  silent : (∀ scope email subjectId, ¬Bindable s authentication audit scope email subjectId) →
    s'.repository.auditEvents = s.repository.auditEvents ∧
      ∀ kept ∈ s'.identities, ∃ known ∈ s.identities, bindingOf known = bindingOf kept
  /-- Any other one of an unknown identity is refused, and changes nothing. -/
  refuses : (∀ scope email subjectId, ¬Bindable s authentication audit scope email subjectId) →
    (∀ scope, Presented s authentication audit scope → ∀ identity ∈ s.identities,
      ¬Identifies identity authentication scope) → (∃ e, answer = .error e) ∧ s' = s
  /-- One of a known identity with its email is accepted if its subject is active. -/
  returns : ∀ scope identity, Presented s authentication audit scope → identity ∈ s.identities →
    Identifies identity authentication scope →
    authentication.normalizedEmail = some identity.normalizedEmail →
    if identity.createdAtMs ≤ authentication.authenticatedAtMs ∧
        s.repository.SubjectActive identity authentication.authenticatedAtMs then
      answer = .ok (touchedIdentity identity authentication.authenticatedAtMs)
    else answer = .error .notFound ∧ s' = s
  /-- One of a known identity without its email is denied, and ends the sessions of the subject
  unless one of them is younger. -/
  drifts : ∀ scope identity, Presented s authentication audit scope → identity ∈ s.identities →
    Identifies identity authentication scope →
    authentication.normalizedEmail ≠ some identity.normalizedEmail →
    answer = .error .notFound ∧
        SessionsEnded s' identity.yardSubjectId authentication.authenticatedAtMs ∨
      answer = .error .conflict ∧ s' = s ∧
        ∃ x ∈ s.repository.yardSessions, x.userId = identity.yardSubjectId ∧
          x.revokedAtMs = none ∧ authentication.authenticatedAtMs < x.createdAtMs

/-- A callback that is not a first one with all it needs binds nothing, and leaves no event. -/
theorem callback_silent (h : Callback s authentication audit answer s')
    (hunbindable : ∀ scope email subjectId,
      ¬Bindable s authentication audit scope email subjectId) :
    s'.repository.auditEvents = s.repository.auditEvents ∧
      ∀ kept ∈ s'.identities, ∃ known ∈ s.identities, bindingOf known = bindingOf kept := by
  cases h with
  | bound hbindable hinserted haudited => exact absurd hbindable (hunbindable _ _ _)
  | @returned scope known identities hpresented hidentifies hemail hcreated hactive hreplaced =>
    refine ⟨rfl, fun kept hkept => ?_⟩
    rcases (hreplaced.mem kept).mp hkept with ⟨hkept, -⟩ | rfl
    · exact ⟨kept, hkept, rfl⟩
    · exact ⟨known, hreplaced.mem_old, rfl⟩
  | drifted hpresented hknown hidentifies hemail hrevoke =>
    simp only [Repository.revokeForUser, Repository.revokeSessions, bind_eq_ok, pure_eq_ok]
      at hrevoke
    obtain ⟨-, -, rfl⟩ := hrevoke
    exact ⟨rfl, fun kept hkept => ⟨kept, hkept, rfl⟩⟩
  | refused e => exact ⟨rfl, fun kept hkept => ⟨kept, hkept, rfl⟩⟩

/-- A callback of an unknown identity without all it needs changes nothing. -/
theorem callback_refused (h : Callback s authentication audit answer s')
    (hunbindable : ∀ scope email subjectId,
      ¬Bindable s authentication audit scope email subjectId)
    (hunknown : ∀ scope, Presented s authentication audit scope → ∀ identity ∈ s.identities,
      ¬Identifies identity authentication scope) :
    (∃ e, answer = .error e) ∧ s' = s := by
  cases h with
  | bound hbindable hinserted haudited => exact absurd hbindable (hunbindable _ _ _)
  | returned hpresented hidentifies hemail hcreated hactive hreplaced =>
    exact absurd hidentifies (hunknown _ hpresented _ hreplaced.mem_old)
  | drifted hpresented hknown hidentifies hemail hrevoke =>
    exact absurd hidentifies (hunknown _ hpresented _ hknown)
  | refused e => exact ⟨⟨e, rfl⟩, rfl⟩

/-- In every reachable state a callback binds its identity, and leaves the event of the link behind,
if and only if it has all that a first callback needs; one of a known identity is accepted if it has
the email of the identity and the subject is active, and without the email it is denied and ends the
sessions of the subject, unless one of them is younger than the callback. -/
theorem callback_law (h : Run signInSystem (fun _ _ => True) s)
    (authentication : NewYardOidcAuthentication) (audit : YardOidcAuditContext) :
    Answers s authentication audit (s.authenticateYardOidcIdentity authentication audit).1
      (s.authenticateYardOidcIdentity authentication audit).2 where
  -- the first callback of a subject
  binds scope email subjectId hbindable := by
    obtain ⟨identities, auditEvents, hrun, hinserted, haudited⟩ := hbindable.authenticates
    rw [hrun]
    exact ⟨rfl, hinserted, haudited⟩
  silent hunbindable := callback_silent (callback_spec s authentication audit) hunbindable
  refuses hunbindable hunknown :=
    callback_refused (callback_spec s authentication audit) hunbindable hunknown
  -- a callback of a known identity with its email
  returns scope identity hpresented hmem hidentifies hemail := by
    have hanswer := return_answered (readable_of_run h) hpresented hmem hidentifies hemail
    split at hanswer
    · rename_i hactive
      rw [if_pos hactive]
      exact hanswer
    · rename_i hinactive
      rw [if_neg hinactive, hanswer]
      exact ⟨rfl, rfl⟩
  -- and one with another email
  drifts scope identity hpresented hmem hidentifies hemail := by
    rcases drift_denied (readable_of_run h) hpresented hmem hidentifies hemail with
      hended | ⟨hconflict, hyounger⟩
    · exact Or.inl hended
    · rw [hconflict]
      exact Or.inr ⟨rfl, rfl, hyounger⟩

end Runs

/-! ### A first sign-in -/

/-- A parser that knows one issuer. -/
@[reducible] def oneIssuer : IssuerParser where
  parse value :=
    if value = "https://id.example/" then
      some { scheme := "https", host := some (.domain "id.example"), username := "",
             password := none, query := none, fragment := none, asStr := value }
    else none

attribute [local instance] asciiUnicode oneIssuer

/-- The yard `y`, and a user of its workspace. -/
def staffedPress : Repository :=
  match startPress.run pressProject with
  | .ok s => match s.createLocalUser
      { id := "ua", workspaceId := "w", displayName := "Ann", email := some "ann@works.example",
        status := .active, createdAtMs := 5, deactivatedAtMs := none }
      { id := "ua-key", userId := "ua", tokenPrefix := "key", secretHash := repeatedDigit 'a',
        createdAtMs := 5, expiresAtMs := 900, lastUsedAtMs := none, revokedAtMs := none }
      (workspaceEvent "ua-created" "user.created" "local_user" 5 [("userId", .string "ua")]) with
    | .ok s => s
    | .error _ => s
  | .error _ => pressProject

def staffedStore : SignInStore where
  repository := staffedPress
  attempts := ∅
  identities := ∅

def pressAttempt : NewYardOidcAttempt where
  stateHash := repeatedDigit 'b'
  continuationHash := repeatedDigit 'c'
  hostLabel := "front-press"
  returnPath := "/"
  createdAtMs := 10
  expiresAtMs := 600010

def annSignsIn : NewYardOidcAuthentication where
  issuer := "https://id.example/"
  providerSubject := "ann"
  normalizedEmail := some "ann@works.example"
  hostLabel := "front-press"
  authenticatedAtMs := 20

def annAudit : YardOidcAuditContext where
  id := "linked"
  requestId := "r"

/-- A start and its claim. -/
def firstClaim : Except RepositoryError (YardOidcAttemptRecord × SignInStore) := do
  let s ← staffedStore.createYardOidcAttempt pressAttempt
  s.claimYardOidcAttempt (repeatedDigit 'b') 20

theorem firstClaim_isOk : firstClaim.isOk = true := by decide +kernel

theorem staffedPress_sound : SoundRecords staffedPress := by
  refine ⟨?_, ?_⟩
  · decide +kernel
  · decide +kernel

theorem staffed_step : SignInStep { repository := Repository.empty, attempts := ∅, identities := ∅ }
    (.other staffedPress) staffedStore :=
  .other staffedPress_sound

/-- The first claim is of a started attempt, in its ten minutes. -/
theorem attempts_firstClaim : ∃ record s, firstClaim = .ok (record, s) ∧
    record.attempt.createdAtMs ≤ 20 ∧
      20 < record.attempt.createdAtMs + yardOidcAttemptLifetimeMs := by
  have hok := firstClaim_isOk
  cases hrun : firstClaim with
  | error e =>
    rw [hrun] at hok
    cases hok
  | ok result =>
    obtain ⟨record, s⟩ := result
    obtain ⟨s₁, hcreate, hclaim⟩ := bind_eq_ok.mp hrun
    have htraced : Traced signInSystem (fun _ _ => True) [.other staffedPress,
        .create pressAttempt (.ok ()), .claim (repeatedDigit 'b') 20 (.ok record)] s :=
      ((Traced.init.step trivial staffed_step).step trivial
        (SignInStep.created hcreate)).step trivial (SignInStep.claimed hclaim)
    obtain ⟨-, -, hcreated, hexpires, -⟩ := (attempts_law htraced).2 (repeatedDigit 'b') 20 record
      (List.mem_cons_of_mem _ (List.mem_cons_of_mem _ List.mem_cons_self))
    exact ⟨record, s, rfl, hcreated, hexpires⟩

/-- The yard behind the host label. -/
def pressScope : YardScope where
  yardId := "y"
  environmentId := "yardenv_y"
  workspaceId := "w"

/-- What Ann is bound to by her first callback. -/
def annIdentity : YardOidcIdentityRecord :=
  newIdentity annSignsIn "ann@works.example" "w" "ua"

/-- Ann signs in again. -/
def annReturns : NewYardOidcAuthentication := { annSignsIn with authenticatedAtMs := 30 }

def signedStore : SignInStore := (staffedStore.authenticateYardOidcIdentity annSignsIn annAudit).2

def returnedStore : SignInStore := (signedStore.authenticateYardOidcIdentity annReturns annAudit).2

theorem annSignsIn_answer :
    staffedStore.authenticateYardOidcIdentity annSignsIn annAudit =
      (.ok annIdentity, signedStore) := by
  have hanswer : (staffedStore.authenticateYardOidcIdentity annSignsIn annAudit).1 =
      .ok annIdentity := by
    decide +kernel
  exact Prod.ext hanswer rfl

theorem annReturns_answer : signedStore.authenticateYardOidcIdentity annReturns annAudit =
    (.ok (touchedIdentity annIdentity 30), returnedStore) := by
  have hanswer : (signedStore.authenticateYardOidcIdentity annReturns annAudit).1 =
      .ok (touchedIdentity annIdentity 30) := by
    decide +kernel
  exact Prod.ext hanswer rfl

/-- The second callback answers what the first one bound. -/
theorem binding_annReturns :
    BoundIn [.other staffedPress, .callback annSignsIn annAudit (.ok annIdentity),
        .callback annReturns annAudit (.ok (touchedIdentity annIdentity 30))]
      (touchedIdentity annIdentity 30) ∧
    bindingOf annIdentity = bindingOf (touchedIdentity annIdentity 30) := by
  have htraced : Traced signInSystem (fun _ _ => True)
      [.other staffedPress, .callback annSignsIn annAudit (.ok annIdentity),
        .callback annReturns annAudit (.ok (touchedIdentity annIdentity 30))] returnedStore :=
    ((Traced.init.step trivial staffed_step).step trivial
      (SignInStep.callback annSignsIn_answer)).step trivial (SignInStep.callback annReturns_answer)
  have hreturns : SignInLabel.callback annReturns annAudit (.ok (touchedIdentity annIdentity 30)) ∈
      [SignInLabel.other staffedPress, .callback annSignsIn annAudit (.ok annIdentity),
        .callback annReturns annAudit (.ok (touchedIdentity annIdentity 30))] := by
    simp
  obtain ⟨-, -, -, hbound, hsame⟩ := binding_law htraced hreturns
  exact ⟨hbound, hsame annSignsIn annAudit annIdentity (by simp) rfl⟩

/-- The first callback of Ann has all it needs. -/
theorem annSignsIn_bindable :
    Bindable staffedStore annSignsIn annAudit pressScope "ann@works.example" "ua" where
  presented := ⟨by decide +kernel, by decide, by decide +kernel⟩
  unknown identity hmem := absurd hmem Table.not_mem_empty
  verified := rfl
  only := Repository.candidates_eq_singleton.mp (by decide +kernel)
  issuerLength := by decide
  lowercase := by decide
  recorded := by
    have hrecorded : (staffedPress.insertAudit (linkEvent annAudit pressScope "ua" 20)).isOk =
        true := by
      decide +kernel
    cases haudit : staffedPress.insertAudit (linkEvent annAudit pressScope "ua" 20) with
    | error e =>
      rw [haudit] at hrecorded
      cases hrecorded
    | ok r => exact ⟨r, haudit⟩

/-- A session of Ann. -/
def annSession : YardSessionRecord where
  id := "s"
  tokenHash := repeatedDigit 'd'
  yardId := "y"
  environmentId := "yardenv_y"
  hostLabel := "front-press"
  userId := "ua"
  createdAtMs := 25
  expiresAtMs := 1000
  lastUsedAtMs := none
  revokedAtMs := none

/-- The store with the session. -/
def visitedStore : SignInStore :=
  { signedStore with
    repository := { signedStore.repository with
      yardSessions := ⟨[annSession], List.nodup_singleton _⟩ } }

/-- The provider vouches for another email of Ann. -/
def annDrifts : NewYardOidcAuthentication :=
  { annSignsIn with normalizedEmail := some "ann@home.example", authenticatedAtMs := 40 }

theorem annDrifts_presented : Presented visitedStore annDrifts annAudit pressScope :=
  ⟨by decide +kernel, by decide, by decide +kernel⟩

theorem signed_run : Run signInSystem (fun _ _ => True) signedStore :=
  (Run.init.step trivial staffed_step).step trivial (SignInStep.callback annSignsIn_answer)

theorem visited_run : Run signInSystem (fun _ _ => True) visitedStore := by
  refine signed_run.step (a := .other visitedStore.repository) trivial (SignInStep.other ?_)
  refine ⟨?_, ?_⟩
  · decide +kernel
  · decide +kernel

/-- The first callback binds Ann and leaves its event; a callback with another email is denied, and
ends the session that she had. -/
theorem callback_ann :
    (staffedStore.identities.Inserted signedStore.identities annIdentity ∧
      Repository.Audited staffedPress.auditEvents signedStore.repository.auditEvents
        (linkEvent annAudit pressScope "ua" 20)) ∧
    (∃ x ∈ visitedStore.repository.yardSessions, x.userId = "ua" ∧ x.revokedAtMs = none ∧
        40 < x.expiresAtMs) ∧
      (visitedStore.authenticateYardOidcIdentity annDrifts annAudit).1 = .error .notFound ∧
      SessionsEnded (visitedStore.authenticateYardOidcIdentity annDrifts annAudit).2 "ua" 40 := by
  obtain ⟨-, hinserted, haudited⟩ :=
    (callback_law (Run.init.step trivial staffed_step) annSignsIn annAudit).binds pressScope
      "ann@works.example" "ua" annSignsIn_bindable
  refine ⟨⟨hinserted, haudited⟩, ⟨annSession, List.mem_singleton_self _, by decide⟩, ?_⟩
  have hdrift := (callback_law visited_run annDrifts annAudit).drifts pressScope annIdentity
    annDrifts_presented hinserted.mem_new rfl (by decide)
  rcases hdrift with hended | ⟨-, -, x, hx, -, -, hyounger⟩
  · exact hended
  -- her only session is older than the callback
  · obtain rfl : x = annSession := List.mem_singleton.mp hx
    exact absurd hyounger (by decide)

end YardSignIn

end BlobYard
