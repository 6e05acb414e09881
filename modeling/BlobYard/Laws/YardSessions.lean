/-
Exchange codes are used once.

Codes are issued, redeemed for sessions and forgotten again while policies, grants and
subjects change.  This file runs the session requests in any order, keeps the history of
those that succeeded, each with the state it met, and asks where sessions come from:

* `SingleUse` — no continuation hash and no code is redeemed twice;
* `Ledgered` — the invariant: a redeemed record stays in the table, consumed, until a purge
  removes it, and the hashes in the table are distinct;
* `session_law` — codes are redeemed once as long as no purge has removed their record,
  which happens a day after their expiry; sessions come from codes in force, for subjects
  admitted both when the code was issued and when it is redeemed;
* `singleUse_of_no_purge` — without a purge no code is redeemed twice;
* `purged_code_is_redeemed_again` — after such a purge the same code may be issued again.
-/
import BlobYard.Lib.Run
import BlobYard.Repository.YardSessions

namespace BlobYard

open Outcome Repository

namespace YardSessions

/-! ### Requests and runs -/

/-- The requests on sessions, or any other change of the remaining tables. -/
inductive Request where
  | issue (continuation : NewYardContinuation)
  | exchange (codeHash hostLabel : String) (session : NewYardSession)
    (audit : YardSessionAuditContext) (nowMs : ℕ)
  | revoke (yardId sessionId : String) (nowMs : ℕ) (event : NewAuditEvent)
  | revokeByToken (tokenHash hostLabel : String) (nowMs : ℕ)
  | revokeForUser (userId : String) (nowMs : ℕ)
  | serve (hostLabel path : String) (tokenHash : Option String) (nowMs : ℕ)
  | touch (sessionId : String) (nowMs : ℕ)
  | purge (nowMs : ℕ)
  | environment (other : Repository)

def Request.run (s : Repository) : Request → Except RepositoryError Repository
  | .issue continuation => s.issueYardExchangeCode continuation
  | .exchange codeHash hostLabel session audit nowMs =>
    Prod.snd <$> s.exchangeYardSessionCode codeHash hostLabel session audit nowMs
  | .revoke yardId sessionId nowMs event =>
    Prod.snd <$> s.revokeYardSession yardId sessionId nowMs event
  | .revokeByToken tokenHash hostLabel nowMs =>
    Prod.snd <$> s.revokeYardSessionByToken tokenHash hostLabel nowMs
  | .revokeForUser userId nowMs => s.revokeForUser userId nowMs
  | .serve hostLabel path tokenHash nowMs =>
    Prod.snd <$> s.yardFileByHost hostLabel path tokenHash nowMs
  | .touch sessionId nowMs => s.touchIdentity sessionId nowMs
  | .purge nowMs => s.purgeYardSessionHistory nowMs
  | .environment other =>
    .ok { other with
      yardContinuations := s.yardContinuations
      yardSessions := s.yardSessions }

/-- A request that succeeded, with the state it met. -/
structure Entry where
  before : Repository
  request : Request

/-- The repository with the history of successful requests, newest first. -/
structure Ledger where
  repository : Repository
  history : List Entry

def Ledger.init : Ledger := ⟨Repository.empty, []⟩

/-- A request that fails leaves everything as it was. -/
def Ledger.exec (l : Ledger) (request : Request) : Ledger :=
  match request.run l.repository with
  | .ok repository => ⟨repository, ⟨l.repository, request⟩ :: l.history⟩
  | .error _ => l

/-- Requests in any order, from an empty repository. -/
def system : System Ledger Request where
  init := Ledger.init
  step l request l' := l' = l.exec request

/-! ### The law -/

namespace Entry

/-- The continuations that the request redeems. -/
def redeemed (e : Entry) : List NewYardContinuation :=
  match e.request with
  | .exchange codeHash hostLabel _ _ nowMs =>
    (e.before.yardContinuations.select (Redeemable codeHash hostLabel nowMs)).map
      YardContinuationRecord.continuation
  | _ => []

/-- The request issues the code of the continuation to a subject who is admitted then. -/
def Issues (e : Entry) (c : NewYardContinuation) : Prop :=
  e.request = .issue c ∧
    e.before.AdmittedTo c.hostLabel c.yardId c.environmentId c.userId c.createdAtMs

/-- The request removes the record of the continuation more than a day after its expiry. -/
def Forgets (e : Entry) (c : NewYardContinuation) : Prop :=
  ∃ nowMs, e.request = .purge nowMs ∧ c.expiresAtMs + continuationHistoryMs < nowMs ∧
    ∃ row ∈ e.before.yardContinuations, row.continuation = c

/-- The request redeems a code of this host, in force, for the session. -/
def Creates (e : Entry) (x : YardSessionRecord) : Prop :=
  ∃ codeHash session audit nowMs, e.request = .exchange codeHash x.hostLabel session audit nowMs ∧
    ∃ c ∈ e.redeemed, x = sessionRecord session c

end Entry

/-- The continuations redeemed so far, the last one first. -/
def Ledger.redeemed (l : Ledger) : List NewYardContinuation := l.history.flatMap Entry.redeemed

/-- No continuation hash and no code is redeemed twice. -/
def SingleUse (l : Ledger) : Prop :=
  (l.redeemed.map NewYardContinuation.continuationHash).Nodup ∧
    (l.redeemed.map NewYardContinuation.codeHash).Nodup

instance (l : Ledger) : Decidable (SingleUse l) := inferInstanceAs (Decidable (_ ∧ _))

/-- The continuations have the same hash or the same code. -/
def SharesCode (c c' : NewYardContinuation) : Prop :=
  c.continuationHash = c'.continuationHash ∨ c.codeHash = c'.codeHash

/-- Where the sessions of a history come from. -/
structure Lawful (l : Ledger) : Prop where
  /-- A code redeemed twice was forgotten in between. -/
  forgotten : ∀ newer later between earlier older,
    l.history = newer ++ later :: (between ++ earlier :: older) →
      ∀ c' ∈ later.redeemed, ∀ c ∈ earlier.redeemed, SharesCode c c' →
        ∃ e ∈ between, e.Forgets c
  /-- A redeemed code is unexpired, unconsumed and of the same host; its subject is admitted
  when it is redeemed and was admitted when it was issued. -/
  admitted : ∀ newer e older, l.history = newer ++ e :: older →
    ∀ codeHash hostLabel session audit nowMs,
      e.request = .exchange codeHash hostLabel session audit nowMs →
        ∃ row ∈ e.before.yardContinuations, Redeemable codeHash hostLabel nowMs row ∧
          e.before.AdmittedTo hostLabel row.continuation.yardId row.continuation.environmentId
            row.continuation.userId nowMs ∧
          ∃ issue ∈ older, issue.Issues row.continuation
  /-- One request redeems one code. -/
  once : ∀ e ∈ l.history, ∀ c ∈ e.redeemed, e.redeemed = [c]
  /-- Every session was created by redeeming a code. -/
  created : ∀ x ∈ l.repository.yardSessions, ∃ e ∈ l.history, e.Creates (issuedRow x)

/-! ### What a request does -/

/-- The effect of a successful request on continuations and sessions. -/
inductive Effect (s s' : Repository) : Request → Prop
  | issued {c : NewYardContinuation}
    (hadmitted : s.AdmittedTo c.hostLabel c.yardId c.environmentId c.userId c.createdAtMs)
    (hfresh : ∀ row ∈ s.yardContinuations, ¬SharesCode row.continuation c)
    (hrows : s.yardContinuations.Inserted s'.yardContinuations ⟨c, none⟩)
    (hsessions : s'.yardSessions = s.yardSessions) : Effect s s' (.issue c)
  | exchanged {codeHash hostLabel : String} {session : NewYardSession}
    {audit : YardSessionAuditContext} {nowMs : ℕ} {row : YardContinuationRecord}
    (hrow : row ∈ s.yardContinuations) (hredeemable : Redeemable codeHash hostLabel nowMs row)
    (hadmitted : s.AdmittedTo hostLabel row.continuation.yardId row.continuation.environmentId
      row.continuation.userId nowMs)
    (hrows : s.yardContinuations.Mapped s'.yardContinuations (consumedRow codeHash hostLabel nowMs))
    (hsessions : s.yardSessions.Inserted s'.yardSessions (sessionRecord session row.continuation)) :
    Effect s s' (.exchange codeHash hostLabel session audit nowMs)
  | purged {nowMs : ℕ}
    (hrows : s'.yardContinuations = s.yardContinuations.erase (PurgedContinuation nowMs))
    (hsessions : s'.yardSessions = s.yardSessions.erase (PurgedSession nowMs)) :
    Effect s s' (.purge nowMs)
  | marked {request : Request} (hmarked : SessionsMarked s s')
    (hother : ∀ codeHash hostLabel session audit nowMs,
      request ≠ .exchange codeHash hostLabel session audit nowMs) : Effect s s' request

theorem Request.effect {s s' : Repository} {request : Request} (h : request.run s = .ok s') :
    Effect s s' request := by
  cases request with
  -- the new row shares neither its hash nor its code with another
  | issue c =>
    obtain ⟨hadmitted, hfresh, hrows, hsessions⟩ := issueYardExchangeCode_spec h
    refine .issued hadmitted (fun row hrow hshares => ?_) hrows hsessions
    exact hshares.elim (hfresh row hrow).1 (hfresh row hrow).2
  -- the row that was redeemed is marked, and the session inserted
  | exchange codeHash hostLabel session audit nowMs =>
    obtain ⟨⟨_, _⟩, hrun, rfl⟩ := map_eq_ok.mp h
    obtain ⟨row, hrow, hredeemable, hadmitted, hrows, hsessions⟩ := exchangeYardSessionCode_spec hrun
    exact .exchanged hrow hredeemable hadmitted hrows hsessions
  | revoke yardId sessionId nowMs event =>
    obtain ⟨⟨_, _⟩, hrun, rfl⟩ := map_eq_ok.mp h
    exact .marked (revokeYardSession_spec hrun) nofun
  | revokeByToken tokenHash hostLabel nowMs =>
    obtain ⟨⟨_, _⟩, hrun, rfl⟩ := map_eq_ok.mp h
    exact .marked (revokeYardSessionByToken_spec hrun) nofun
  -- the others mark sessions as revoked or used, and leave the codes
  | revokeForUser userId nowMs => exact .marked (revokeSessions_spec h) nofun
  | serve hostLabel path tokenHash nowMs =>
    obtain ⟨⟨_, _⟩, hrun, rfl⟩ := map_eq_ok.mp h
    exact .marked (yardFileByHost_marks hrun) nofun
  | touch sessionId nowMs => exact .marked (touchIdentity_spec h) nofun
  -- a purge may forget rows
  | purge nowMs =>
    obtain ⟨hrows, hsessions⟩ := purgeYardSessionHistory_spec h
    exact .purged hrows hsessions
  | environment other =>
    obtain rfl := Except.ok.inj h
    exact .marked ⟨rfl, id, Table.Mapped.refl _, fun _ _ => rfl⟩ nofun

/-! ### The invariant -/

/-- The hashes in the table are distinct; every record in it was issued to an admitted subject;
and a redeemed record is in the table, consumed, unless a later purge has forgotten it. -/
structure Ledgered (l : Ledger) : Prop where
  hashes : l.repository.yardContinuations.UniqueOn fun row => row.continuation.continuationHash
  codes : l.repository.yardContinuations.UniqueOn fun row => row.continuation.codeHash
  issued : ∀ row ∈ l.repository.yardContinuations, ∃ e ∈ l.history, e.Issues row.continuation
  spent : ∀ newer e older, l.history = newer ++ e :: older → ∀ c ∈ e.redeemed,
    (∃ row ∈ l.repository.yardContinuations, row.continuation = c ∧ row.consumedAtMs ≠ none) ∨
      ∃ purge ∈ newer, purge.Forgets c
  lawful : Lawful l

theorem ledgered_init : Ledgered Ledger.init where
  hashes _ h := absurd h Table.not_mem_empty
  codes _ h := absurd h Table.not_mem_empty
  issued _ h := absurd h Table.not_mem_empty
  spent newer _ _ h := absurd h.symm (List.append_ne_nil_of_right_ne_nil newer (List.cons_ne_nil _ _))
  lawful :=
    { forgotten := fun newer _ _ _ _ h =>
        absurd h.symm (List.append_ne_nil_of_right_ne_nil newer (List.cons_ne_nil _ _))
      admitted := fun newer _ _ h =>
        absurd h.symm (List.append_ne_nil_of_right_ne_nil newer (List.cons_ne_nil _ _))
      once := fun _ h => absurd h List.not_mem_nil
      created := fun _ h => absurd h Table.not_mem_empty }

section Steps

variable {l : Ledger} {s' : Repository} {request : Request}

theorem consumedRow_continuation (codeHash hostLabel : String) (nowMs : ℕ)
    (row : YardContinuationRecord) :
    (consumedRow codeHash hostLabel nowMs row).continuation = row.continuation := by
  unfold consumedRow
  split <;> rfl

/-- A column of the continuation that the table keeps distinct stays distinct. -/
theorem uniqueOn_effect {f : NewYardContinuation → String} {s : Repository}
    (h : s.yardContinuations.UniqueOn fun row => f row.continuation)
    (hshares : ∀ c c', f c = f c' → SharesCode c c') (heffect : Effect s s' request) :
    s'.yardContinuations.UniqueOn fun row => f row.continuation := by
  cases heffect with
  | issued _ hfresh hrows _ =>
    exact h.insert hrows fun row hrow he => hfresh row hrow (hshares _ _ he)
  | exchanged _ _ _ hrows _ =>
    exact h.mapped hrows fun row _ => congrArg f (consumedRow_continuation ..)
  | purged hrows _ => exact hrows ▸ h.erase
  | marked hmarked _ => exact hmarked.continuations ▸ h

theorem issued_effect (h : Ledgered l) (heffect : Effect l.repository s' request) :
    ∀ row ∈ s'.yardContinuations,
      ∃ e ∈ (⟨l.repository, request⟩ : Entry) :: l.history, e.Issues row.continuation := by
  -- the history grows, so what it explains stays explained
  have hold : ∀ row ∈ l.repository.yardContinuations,
      ∃ e ∈ (⟨l.repository, request⟩ : Entry) :: l.history, e.Issues row.continuation := by
    intro row hrow
    obtain ⟨e, he, hissues⟩ := h.issued row hrow
    exact ⟨e, List.mem_cons_of_mem _ he, hissues⟩
  intro row hrow
  cases heffect with
  -- the request that inserts the row is the one that issues it
  | issued hadmitted _ hrows _ =>
    rcases (hrows.mem row).mp hrow with hrow | rfl
    · exact hold row hrow
    · exact ⟨_, List.mem_cons_self, rfl, hadmitted⟩
  -- a row that is consumed is still of its continuation
  | exchanged _ _ _ hrows _ =>
    obtain ⟨row, hmem, rfl⟩ := hrows.mem_iff.mp hrow
    rw [consumedRow_continuation]
    exact hold row hmem
  -- no row is added by a purge
  | purged hrows _ =>
    rw [hrows] at hrow
    exact hold row (Table.mem_erase.mp hrow).1
  | marked hmarked _ =>
    rw [hmarked.continuations] at hrow
    exact hold row hrow

/-- A consumed record stays in the table unless the request forgets it. -/
theorem consumed_effect {s : Repository} {row : YardContinuationRecord}
    (hrow : row ∈ s.yardContinuations) (hconsumed : row.consumedAtMs ≠ none)
    (heffect : Effect s s' request) :
    row ∈ s'.yardContinuations ∨ (⟨s, request⟩ : Entry).Forgets row.continuation := by
  cases heffect with
  | issued _ _ hrows _ => exact Or.inl (hrows.mem_of_mem hrow)
  | exchanged _ _ _ hrows _ =>
    left
    have hsame := hrows.mem_of_mem hrow
    rwa [consumedRow, if_neg fun hredeemable => hconsumed hredeemable.2.2.1] at hsame
  | @purged nowMs hrows _ =>
    by_cases hold : PurgedContinuation nowMs row
    · right
      refine ⟨nowMs, rfl, ?_, row, hrow, rfl⟩
      unfold PurgedContinuation at hold
      omega
    · left
      rw [hrows]
      exact Table.mem_erase.mpr ⟨hrow, hold⟩
  | marked hmarked _ =>
    left
    rw [hmarked.continuations]
    exact hrow

/-- What a request redeems is in the table, consumed, afterwards. -/
theorem redeemed_effect {s : Repository} {c : NewYardContinuation}
    (hc : c ∈ (⟨s, request⟩ : Entry).redeemed) (heffect : Effect s s' request) :
    ∃ row ∈ s'.yardContinuations, row.continuation = c ∧ row.consumedAtMs ≠ none := by
  cases heffect with
  | issued => cases hc
  | exchanged _ _ _ hrows _ =>
    obtain ⟨row, hselected, rfl⟩ := List.mem_map.mp hc
    obtain ⟨hrow, hredeemable⟩ := Table.mem_select.mp hselected
    refine ⟨_, hrows.mem_of_mem hrow, consumedRow_continuation .., ?_⟩
    rw [consumedRow, if_pos hredeemable]
    nofun
  | purged => cases hc
  | marked _ hother =>
    cases request with
    | exchange codeHash hostLabel session audit nowMs => exact absurd rfl (hother _ _ _ _ _)
    | _ => cases hc

/-- A redeemed record was in the table before, unconsumed. -/
theorem mem_redeemed {e : Entry} {c : NewYardContinuation} (hc : c ∈ e.redeemed) :
    ∃ row ∈ e.before.yardContinuations, row.continuation = c ∧ row.consumedAtMs = none := by
  unfold Entry.redeemed at hc
  split at hc
  · obtain ⟨row, hselected, rfl⟩ := List.mem_map.mp hc
    obtain ⟨hrow, hredeemable⟩ := Table.mem_select.mp hselected
    exact ⟨row, hrow, rfl, hredeemable.2.2.1⟩
  · cases hc

theorem spent_effect (h : Ledgered l) (heffect : Effect l.repository s' request) :
    ∀ newer e older, (⟨l.repository, request⟩ : Entry) :: l.history = newer ++ e :: older →
      ∀ c ∈ e.redeemed,
        (∃ row ∈ s'.yardContinuations, row.continuation = c ∧ row.consumedAtMs ≠ none) ∨
          ∃ purge ∈ newer, purge.Forgets c := by
  intro newer e older hhistory c hc
  cases newer with
  | nil =>
    obtain ⟨rfl, rfl⟩ := List.cons.inj hhistory
    exact Or.inl (redeemed_effect hc heffect)
  | cons e' newer =>
    obtain ⟨rfl, htail⟩ := List.cons.inj hhistory
    rcases h.spent newer e older htail c hc with
      ⟨row, hrow, rfl, hconsumed⟩ | ⟨purge, hpurge, hforgets⟩
    · rcases consumed_effect hrow hconsumed heffect with hrow | hforgets
      · exact Or.inl ⟨row, hrow, rfl, hconsumed⟩
      · exact Or.inr ⟨_, List.mem_cons_self, hforgets⟩
    · exact Or.inr ⟨purge, List.mem_cons_of_mem _ hpurge, hforgets⟩

/-- The table cannot hold a redeemable record next to a consumed one with the same hash or
code. -/
theorem forgotten_effect (h : Ledgered l) :
    ∀ newer later between earlier older,
      (⟨l.repository, request⟩ : Entry) :: l.history =
        newer ++ later :: (between ++ earlier :: older) →
      ∀ c' ∈ later.redeemed, ∀ c ∈ earlier.redeemed, SharesCode c c' →
        ∃ e ∈ between, e.Forgets c := by
  intro newer later between earlier older hhistory c' hc' c hc hshares
  cases newer with
  | nil =>
    obtain ⟨rfl, htail⟩ := List.cons.inj hhistory
    rcases h.spent between earlier older htail c hc with
      ⟨row, hrow, rfl, hconsumed⟩ | hforgotten
    · obtain ⟨row', hrow', rfl, hunconsumed⟩ := mem_redeemed hc'
      have hsame : row = row' := by
        rcases hshares with hhash | hcode
        · exact h.hashes row hrow row' hrow' hhash
        · exact h.codes row hrow row' hrow' hcode
      rw [hsame] at hconsumed
      exact absurd hunconsumed hconsumed
    · exact hforgotten
  | cons e newer =>
    obtain ⟨rfl, htail⟩ := List.cons.inj hhistory
    exact h.lawful.forgotten newer later between earlier older htail c' hc' c hc hshares

theorem admitted_effect (h : Ledgered l) (heffect : Effect l.repository s' request) :
    ∀ newer e older, (⟨l.repository, request⟩ : Entry) :: l.history = newer ++ e :: older →
      ∀ codeHash hostLabel session audit nowMs,
        e.request = .exchange codeHash hostLabel session audit nowMs →
          ∃ row ∈ e.before.yardContinuations, Redeemable codeHash hostLabel nowMs row ∧
            e.before.AdmittedTo hostLabel row.continuation.yardId row.continuation.environmentId
              row.continuation.userId nowMs ∧
            ∃ issue ∈ older, issue.Issues row.continuation := by
  intro newer e older hhistory codeHash hostLabel session audit nowMs he
  cases newer with
  | nil =>
    obtain ⟨rfl, rfl⟩ := List.cons.inj hhistory
    dsimp only at he
    subst he
    cases heffect with
    | exchanged hrow hredeemable hadmitted _ _ =>
      exact ⟨_, hrow, hredeemable, hadmitted, h.issued _ hrow⟩
    | marked _ hother => exact absurd rfl (hother _ _ _ _ _)
  | cons e' newer =>
    obtain ⟨rfl, htail⟩ := List.cons.inj hhistory
    exact h.lawful.admitted newer e older htail codeHash hostLabel session audit nowMs he

theorem once_exec (h : Ledgered l) :
    ∀ e ∈ (⟨l.repository, request⟩ : Entry) :: l.history, ∀ c ∈ e.redeemed, e.redeemed = [c] := by
  intro e he c hc
  rcases List.mem_cons.mp he with rfl | he
  · unfold Entry.redeemed at hc ⊢
    split at hc
    · rename_i codeHash hostLabel _ _ nowMs _
      obtain ⟨row, hselected, rfl⟩ := List.mem_map.mp hc
      obtain ⟨hrow, hredeemable⟩ := Table.mem_select.mp hselected
      -- the code of the selected rows is the same, so they are one row
      have hall : ∀ x ∈ l.repository.yardContinuations.select
          (Redeemable codeHash hostLabel nowMs), x = row := by
        intro x hx
        obtain ⟨hx, hxredeemable⟩ := Table.mem_select.mp hx
        exact h.codes x hx row hrow (hxredeemable.1.trans hredeemable.1.symm)
      have hone : l.repository.yardContinuations.select (Redeemable codeHash hostLabel nowMs) =
          [row] := by
        refine List.perm_singleton.mp ?_
        refine (List.perm_ext_iff_of_nodup Table.select_nodup (List.nodup_singleton row)).mpr ?_
        intro x
        rw [List.mem_singleton]
        exact ⟨hall x, fun hx => hx ▸ hselected⟩
      rw [hone]
      rfl
    · cases hc
  · exact h.lawful.once e he c hc

theorem created_effect (h : Ledgered l) (heffect : Effect l.repository s' request) :
    ∀ x ∈ s'.yardSessions,
      ∃ e ∈ (⟨l.repository, request⟩ : Entry) :: l.history, e.Creates (issuedRow x) := by
  -- the history grows, so what it explains stays explained
  have hold : ∀ x ∈ l.repository.yardSessions,
      ∃ e ∈ (⟨l.repository, request⟩ : Entry) :: l.history, e.Creates (issuedRow x) := by
    intro x hx
    obtain ⟨e, he, hcreates⟩ := h.lawful.created x hx
    exact ⟨e, List.mem_cons_of_mem _ he, hcreates⟩
  intro x hx
  cases heffect with
  | issued _ _ _ hsessions =>
    rw [hsessions] at hx
    exact hold x hx
  -- the exchange creates the session, from a row that it could redeem
  | @exchanged codeHash hostLabel session audit nowMs row hrow hredeemable _ _ hsessions =>
    rcases (hsessions.mem x).mp hx with hx | rfl
    · exact hold x hx
    · refine ⟨_, List.mem_cons_self, codeHash, session, audit, nowMs, ?_, row.continuation, ?_, rfl⟩
      · exact congrArg (fun host => Request.exchange codeHash host session audit nowMs)
          hredeemable.2.1.symm
      · exact List.mem_map.mpr ⟨row, Table.mem_select.mpr ⟨hrow, hredeemable⟩, rfl⟩
  | purged _ hsessions =>
    rw [hsessions] at hx
    exact hold x (Table.mem_erase.mp hx).1
  -- a marked session keeps the columns of its creation
  | marked hmarked _ =>
    obtain ⟨f, hmapped, hkeeps⟩ := hmarked.sessions
    obtain ⟨y, hy, rfl⟩ := hmapped.mem_iff.mp hx
    rw [hkeeps y hy]
    exact hold y hy

/-- Every request keeps the invariant. -/
theorem ledgered_exec (h : Ledgered l) : Ledgered (l.exec request) := by
  unfold Ledger.exec
  cases hrun : request.run l.repository with
  | error e => exact h
  | ok s' =>
    have heffect := Request.effect hrun
    exact
      { hashes := uniqueOn_effect h.hashes (fun _ _ => Or.inl) heffect
        codes := uniqueOn_effect h.codes (fun _ _ => Or.inr) heffect
        issued := issued_effect h heffect
        spent := spent_effect h heffect
        lawful :=
          { forgotten := forgotten_effect h
            admitted := admitted_effect h heffect
            once := once_exec h
            created := created_effect h heffect } }

end Steps

theorem ledgered {guard : Ledger → Request → Prop} {l : Ledger} (h : Run system guard l) :
    Ledgered l := by
  refine Run.inv (P := Ledgered) ledgered_init ?_ h
  rintro l request _ hl - rfl
  exact ledgered_exec hl

/-! ### The law over runs -/

/-- **Exchange codes**: in every state reached by requests in any order, with any change of the
remaining tables in between, the history is lawful: a code is redeemed twice only when a purge
has removed its record in between, more than a day after its expiry, and sessions come from
codes in force for subjects admitted both when the code was issued and when it is redeemed.  An
exchange that fails changes nothing, and a purge spares every session that is neither expired
nor revoked and every continuation record that is not expired. -/
theorem session_law {l : Ledger} (h : Run system (fun _ _ => True) l) :
    Lawful l ∧
    (∀ codeHash hostLabel session audit nowMs e,
      l.repository.exchangeYardSessionCode codeHash hostLabel session audit nowMs = .error e →
      l.exec (.exchange codeHash hostLabel session audit nowMs) = l) ∧
    ∀ nowMs s', l.repository.purgeYardSessionHistory nowMs = .ok s' →
      (∀ x ∈ l.repository.yardSessions, nowMs < x.expiresAtMs → x.revokedAtMs = none →
        x ∈ s'.yardSessions) ∧
      ∀ row ∈ l.repository.yardContinuations, nowMs < row.continuation.expiresAtMs →
        row ∈ s'.yardContinuations := by
  refine ⟨(ledgered h).lawful, ?_, fun nowMs s' hpurge => purgeYardSessionHistory_keeps hpurge⟩
  intro codeHash hostLabel session audit nowMs e hfailed
  rw [Ledger.exec, Request.run, hfailed]
  rfl

/-- Elements of a list that stand at two places are related when no decomposition says
otherwise. -/
private theorem pairwise_of_split {α : Type} {R : α → α → Prop} {l : List α}
    (h : ∀ newer a between b older, l = newer ++ a :: (between ++ b :: older) → R a b) :
    l.Pairwise R := by
  induction l with
  | nil => exact List.Pairwise.nil
  | cons a l ih =>
    refine List.pairwise_cons.mpr ⟨fun b hb => ?_, ih fun newer a' between b older hl => ?_⟩
    · obtain ⟨between, older, rfl⟩ := List.append_of_mem hb
      exact h [] a between b older rfl
    · exact h (a :: newer) a' between b older (congrArg (a :: ·) hl)

/-- Without a purge no hash and no code is redeemed twice. -/
theorem singleUse_of_no_purge {l : Ledger}
    (h : Run system (fun _ request => ∀ nowMs, request ≠ .purge nowMs) l) : SingleUse l := by
  have hlawful := (ledgered h).lawful
  -- no step of the run is a purge
  have hnone : ∀ e ∈ l.history, ∀ nowMs, e.request ≠ .purge nowMs := by
    refine Run.inv (P := fun l => ∀ e ∈ l.history, ∀ nowMs, e.request ≠ .purge nowMs)
      (fun e he => absurd he List.not_mem_nil) ?_ h
    rintro l request _ hl hrequest rfl
    unfold Ledger.exec
    split
    · exact List.forall_mem_cons.mpr ⟨hrequest, hl⟩
    · exact hl
  -- two redemptions of one code have a purge between them, so there are none
  have hsplit : l.history.Pairwise fun later earlier =>
      ∀ c' ∈ later.redeemed, ∀ c ∈ earlier.redeemed, ¬SharesCode c c' := by
    refine pairwise_of_split fun newer later between earlier older hhistory c' hc' c hc hshares => ?_
    obtain ⟨e, he, nowMs, hpurge, -⟩ :=
      hlawful.forgotten newer later between earlier older hhistory c' hc' c hc hshares
    refine hnone e ?_ nowMs hpurge
    rw [hhistory]
    exact List.mem_append_right _ (List.mem_cons_of_mem _ (List.mem_append_left _ he))
  -- hence no value of either column is redeemed twice
  have hcolumn : ∀ f : NewYardContinuation → String, (∀ c c', f c = f c' → SharesCode c c') →
      (l.redeemed.map f).Nodup := by
    intro f hf
    rw [Ledger.redeemed, List.map_flatMap, List.nodup_flatMap]
    refine ⟨fun e he => ?_, hsplit.imp fun hne => ?_⟩
    -- one exchange redeems one row at most
    · cases hredeemed : e.redeemed with
      | nil => exact List.nodup_nil
      | cons c tail =>
        have hone := hlawful.once e he c (hredeemed ▸ List.mem_cons_self)
        rw [← hredeemed, hone]
        exact List.nodup_singleton _
    · intro x hx hx'
      obtain ⟨c', hc', rfl⟩ := List.mem_map.mp hx
      obtain ⟨c, hc, hsame⟩ := List.mem_map.mp hx'
      exact hne c' hc' c hc (hf c c' hsame)
  exact ⟨hcolumn _ fun _ _ => Or.inl, hcolumn _ fun _ _ => Or.inr⟩

/-! ### A code that is issued twice -/

/-- A yard for the colleagues of the workspace, and one colleague. -/
def staffYard : Repository :=
  let workspace : WorkspaceRecord := { id := "w", name := "Staff", slug := ⟨"staff", by decide⟩ }
  let yard : WebYardRecord :=
    { id := "y", workspaceId := "w", projectId := "p", name := ⟨"news", by decide⟩,
      hostLabel := "news-yard", currentDeployId := none, status := .active, createdAtMs := 1,
      updatedAtMs := 1, deletedAtMs := none }
  let environment : YardEnvironmentRecord :=
    { id := "production", yardId := "y", name := "production", kind := .production,
      status := .active, createdAtMs := 1, updatedAtMs := 1 }
  let policy : YardAccessPolicyRecord :=
    { yardId := "y", visibility := .workspace, updatedAtMs := 1, updatedByPrincipal := "owner" }
  let colleague : LocalUserRecord :=
    { id := "m", workspaceId := "w", displayName := "Max", email := none, status := .active,
      createdAtMs := 2, deactivatedAtMs := none }
  let subject : YardSubjectRecord :=
    { id := "m", kind := .member, workspaceId := "w", localUserId := some "m",
      invitationId := none, createdAtMs := 2, revokedAtMs := none }
  { Repository.empty with
    workspaces := ⟨[workspace], List.nodup_singleton _⟩
    webYards := ⟨[yard], List.nodup_singleton _⟩
    yardEnvironments := ⟨[environment], List.nodup_singleton _⟩
    yardAccessPolicies := ⟨[policy], List.nodup_singleton _⟩
    localUsers := ⟨[colleague], List.nodup_singleton _⟩
    yardSubjects := ⟨[subject], List.nodup_singleton _⟩ }

/-- Issues the code '2' of the continuation '1'. -/
def issueRequest (id : String) (createdAtMs : ℕ) : Request :=
  .issue
    { id, continuationHash := repeatedDigit '1', codeHash := repeatedDigit '2', yardId := "y",
      environmentId := "production", hostLabel := "news-yard", userId := "m", returnPath := "/",
      createdAtMs, expiresAtMs := createdAtMs + yardExchangeCodeLifetimeMs }

/-- Redeems the code '2' for a session. -/
def exchangeRequest (id eventId : String) (digit : Char) (nowMs : ℕ) : Request :=
  .exchange (repeatedDigit '2') "news-yard"
    { id, tokenHash := repeatedDigit digit, createdAtMs := nowMs,
      expiresAtMs := nowMs + yardSessionLifetimeMs }
    { id := eventId, requestId := "r" } nowMs

/-- A login: the code is issued and redeemed. -/
def login : List Request :=
  [.environment staffYard, issueRequest "c1" 1000, exchangeRequest "s1" "e1" '3' 2000]

/-- The login creates a session, and its history is lawful. -/
theorem lawful_login :
    (∃ x ∈ (login.foldl Ledger.exec Ledger.init).repository.yardSessions, x.userId = "m") ∧
      Lawful (login.foldl Ledger.exec Ledger.init) :=
  ⟨by decide +kernel, (session_law (Run.ofList_true (fun _ _ => rfl) Run.init _)).1⟩

/-- The code is issued and redeemed once more after a purge has forgotten it. -/
def repeatedLogin : List Request :=
  login ++ [.purge 86461001, issueRequest "c2" 86461002, exchangeRequest "s2" "e2" '4' 86461003]

/-- One continuation hash and one code yield two sessions. -/
theorem purged_code_is_redeemed_again : ∃ l, Run system (fun _ _ => True) l ∧ ¬SingleUse l ∧
    (l.repository.yardSessions.rows.map YardSessionRecord.id) = ["s1", "s2"] :=
  ⟨repeatedLogin.foldl Ledger.exec Ledger.init, Run.ofList_true (fun _ _ => rfl) Run.init _,
    by decide +kernel, by decide +kernel⟩

end YardSessions

end BlobYard
