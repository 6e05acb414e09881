/-
What a machine session can do stays within the trust that minted it.

A ledger records every minted session with the request it was minted for, and every trust that
was revoked.  Trusts are created, exchanged for sessions and revoked in any order, together with any
other requests on credentials and any change of the other tables; no request deletes a trust.

* `Covers` — a trust covers a minted session: its repository, workflow, environment and ref,
  its actions and its project;
* `Grounded` — the invariant: the stored sessions are the minted ones, each covered by its
  trust, and what derives from a revoked trust is revoked;
* `Authentic` — what an authenticated credential stands for;
* `containment_law` — the law.
-/
import BlobYard.Lib.Run
import BlobYard.Repository.Ci

namespace BlobYard

open Outcome Repository

namespace CiTrust

/-! ### Requests and runs -/

/-- A session with the request it was minted for. -/
structure Minted where
  request : NewMachineSession
  record : LocalMachineSessionRecord
  deriving DecidableEq

/-- The repository, the sessions minted so far, the trusts revoked so far, and the time of the
last exchange. -/
structure Ledger where
  repository : Repository
  minted : List Minted
  revoked : List String
  clock : ℕ

/-- The requests on trusts, machine sessions and credentials, or any other change of the
remaining tables. -/
inductive Request where
  | createTrust (trust : LocalCiTrustRecord) (event : NewAuditEvent)
  | revokeTrust (id workspaceId : String) (nowMs : ℕ) (event : NewAuditEvent)
  | mint (session : NewMachineSession) (event : NewAuditEvent)
  | authenticateSession (tokenId : String) (nowMs : ℕ)
  | authenticateToken (secretHash : String) (nowMs : ℕ)
  | credentials (request : CredentialRequest)
  | createProject (project : ProjectRecord)
  | environment (other : Repository)

namespace Ledger

def init : Ledger := { repository := Repository.empty, minted := [], revoked := [], clock := 0 }

/-- The ledger with the repository that a successful request leaves. -/
def commit (l : Ledger) (outcome : Except RepositoryError Repository) : Ledger :=
  match outcome with
  | .ok repository => { l with repository }
  | .error _ => l

/-- Executes a request; one that fails leaves the repository as it was. -/
def exec (l : Ledger) : Request → Ledger
  | .createTrust trust event => l.commit (l.repository.createCiTrust trust event)
  | .revokeTrust id workspaceId nowMs event =>
    match l.repository.revokeCiTrust id workspaceId nowMs event with
    | .ok (_, repository) => { l with repository, revoked := l.revoked ++ [id] }
    | .error _ => l
  | .mint session event =>
    let l := { l with clock := session.nowMs }
    match l.repository.mintMachineSession session event with
    | .ok (.minted record, repository) =>
      { l with repository, minted := l.minted ++ [{ request := session, record }] }
    | .ok (_, repository) => { l with repository }
    | .error _ => l
  | .authenticateSession tokenId nowMs =>
    l.commit (Prod.snd <$> l.repository.authenticateMachineSession tokenId nowMs)
  | .authenticateToken secretHash nowMs =>
    l.commit (Prod.snd <$> l.repository.authenticateApiToken secretHash nowMs)
  | .credentials request => l.commit (request.run l.repository)
  | .createProject project => l.commit (l.repository.createProject project)
  | .environment other =>
    let s := l.repository
    { l with
      repository := { other with
        projects := s.projects, apiTokens := s.apiTokens, cliSessions := s.cliSessions
        bootstrapAuthority := s.bootstrapAuthority, ciTrusts := s.ciTrusts
        machineSessions := s.machineSessions } }

end Ledger

/-- Requests in any order, from an empty repository. -/
def system : System Ledger Request where
  init := Ledger.init
  step l request l' := l' = l.exec request

/-! ### What a trust covers -/

/-- The trust covers the minted session: what the assertion claimed, what it asked for, and the
project it was given. -/
structure Covers (s : Repository) (trust : LocalCiTrustRecord) (m : Minted) : Prop where
  record : m.record = machineRecord m.request trust m.record.projectId
  repository : trust.repository = m.record.repository
  audience : trust.audience = m.request.identity.audience
  workflowPath : trust.workflowPath = m.request.identity.workflowPath
  workflowRef : trust.workflowRef = m.request.identity.workflowRef
  environment : trust.environment = m.request.identity.environment
  gitRef : Glob.Matches '*' trust.allowedRefGlob.toList m.record.gitRef.toList
  actions : ∀ action ∈ m.record.actions, action ∈ trust.allowedActions
  scope : ∀ id ∈ trust.projectId, m.record.projectId = id
  project : ∃ p ∈ s.projects, p.id = m.record.projectId ∧ p.workspaceId = trust.workspaceId ∧
    p.slug.asStr = m.request.project

/-- The stored session of a minted one. -/
def Minted.row (m : Minted) : MachineSessionRow :=
  { session := m.record, oidcTokenHash := m.request.oidcTokenHash }

/-! ### The invariant -/

/-- The sessions are the minted ones, each covered by its trust and backed by its token; the
revoked trusts are those on record, and nothing derived from them is in force. -/
structure Grounded (l : Ledger) : Prop where
  sessions : l.repository.machineSessions.rows.map MachineSessionRow.issued =
    l.minted.map Minted.row
  covered : ∀ m ∈ l.minted, ∃ trust ∈ l.repository.ciTrusts,
    trust.id = m.record.trustId ∧ Covers l.repository trust m
  backed : ∀ m ∈ l.minted, ∃ token ∈ l.repository.apiTokens,
    token.issued = machineToken m.request m.record ∧
      (m.record.trustId ∈ l.revoked → token.revokedAtMs ≠ none)
  revoked : ∀ trust ∈ l.repository.ciTrusts, trust.revokedAtMs ≠ none ↔ trust.id ∈ l.revoked
  trusts : ∀ id ∈ l.revoked, ∃ trust ∈ l.repository.ciTrusts, trust.id = id
  reached : ∀ x ∈ l.repository.machineSessions, x.session.trustId ∈ l.revoked →
    x.session.revokedAtMs ≠ none

theorem grounded_init : Grounded Ledger.init where
  sessions := rfl
  covered _ h := absurd h List.not_mem_nil
  backed _ h := absurd h List.not_mem_nil
  revoked _ h := absurd h Table.not_mem_empty
  trusts _ h := absurd h List.not_mem_nil
  reached _ h := absurd h Table.not_mem_empty

variable {l : Ledger} {s' : Repository}

/-- The minted session behind a stored one. -/
theorem Grounded.minted_of_mem (h : Grounded l) {x : MachineSessionRow}
    (hx : x ∈ l.repository.machineSessions) : ∃ m ∈ l.minted, x.issued = m.row := by
  have hmem : x.issued ∈ l.repository.machineSessions.rows.map MachineSessionRow.issued :=
    List.mem_map_of_mem hx
  rw [h.sessions] at hmem
  obtain ⟨m, hm, he⟩ := List.mem_map.mp hmem
  exact ⟨m, hm, he.symm⟩

/-- The stored session of a minted one. -/
theorem Grounded.mem_of_minted (h : Grounded l) {m : Minted} (hm : m ∈ l.minted) :
    ∃ x ∈ l.repository.machineSessions, x.issued = m.row := by
  have hmem : m.row ∈ l.minted.map Minted.row := List.mem_map_of_mem hm
  rw [← h.sessions] at hmem
  exact List.mem_map.mp hmem

/-! ### One lemma for each kind of request -/

/-- Nothing is minted or revoked.  Trusts may be added, and the rest is only used. -/
theorem Grounded.later (h : Grounded l)
    (hprojects : ∀ p ∈ l.repository.projects, p ∈ s'.projects)
    (htokens : LaterTokens l.repository.apiTokens s'.apiTokens)
    (hsessions : LaterSessions l.repository.machineSessions s'.machineSessions)
    (htrusts : s'.ciTrusts = l.repository.ciTrusts ∨
      ∃ trust, trust.revokedAtMs = none ∧ l.repository.ciTrusts.Inserted s'.ciTrusts trust) :
    Grounded { l with repository := s' } := by
  -- a trust stays, whichever way the trusts have changed
  have hkept : ∀ trust ∈ l.repository.ciTrusts, trust ∈ s'.ciTrusts := by
    rcases htrusts with he | ⟨trust, -, hinserted⟩
    · rw [he]
      exact fun _ => id
    · exact fun _ ht => hinserted.mem_of_mem ht
  refine ⟨hsessions.issued.trans h.sessions, fun m hm => ?_, fun m hm => ?_, fun trust ht => ?_,
    fun id hid => ?_, fun x hx => ?_⟩
  -- the scope of a session is that of a trust and a project that stay
  · obtain ⟨trust, ht, hid, hcovers⟩ := h.covered m hm
    obtain ⟨p, hp, hproject⟩ := hcovers.project
    exact ⟨trust, hkept trust ht, hid, { hcovers with project := ⟨p, hprojects p hp, hproject⟩ }⟩
  -- a token may be used and revoked, but is not put in force again
  · obtain ⟨token, htoken, hissued, hrevoked⟩ := h.backed m hm
    obtain ⟨token', htoken', hissued', hrevoked'⟩ := htokens token htoken
    exact ⟨token', htoken', hissued'.trans hissued, fun hr => hrevoked' (hrevoked hr)⟩
  -- no trust is revoked by adding one; a new one has an id that no revoked one had
  · rcases htrusts with he | ⟨new, hactive, hinserted⟩
    · rw [he] at ht
      exact h.revoked trust ht
    · rcases (hinserted.mem trust).mp ht with hold | rfl
      · exact h.revoked trust hold
      · refine iff_of_false (fun hr => hr hactive) fun hr => ?_
        obtain ⟨old, hold, hid⟩ := h.trusts _ hr
        exact hinserted.fresh old hold hid
  · obtain ⟨trust, ht, he⟩ := h.trusts id hid
    exact ⟨trust, hkept trust ht, he⟩
  -- sessions change in their use only, so a revoked one stays revoked
  · obtain ⟨f, hmapped, hissued, hrevoked⟩ := hsessions
    obtain ⟨y, hy, rfl⟩ := hmapped.mem_iff.mp hx
    have htrust : (f y).session.trustId = y.session.trustId :=
      (MachineSessionRow.eq_of_issued (hissued y)).2
    rw [htrust]
    exact fun hr => hrevoked y (h.reached y hy hr)

/-- A trust is revoked: its sessions and their tokens go with it. -/
theorem Grounded.revoke (h : Grounded l) {id workspaceId : String} {nowMs : ℕ}
    {event : NewAuditEvent} {changed : Bool}
    (hrun : l.repository.revokeCiTrust id workspaceId nowMs event = .ok (changed, s')) :
    Grounded { l with repository := s', revoked := l.revoked ++ [id] } := by
  obtain ⟨trust, htrust, rfl, ⟨hrevoked, rfl⟩ |
    ⟨ciTrusts, apiTokens, machineSessions, auditEvents, rfl, hreplaced, rfl, hmapped⟩⟩ :=
    revokeCiTrust_spec hrun
  -- the trust was on record already, so the record gains nothing
  · have hold : trust.id ∈ l.revoked := (h.revoked trust htrust).mp hrevoked
    have hsame : ∀ id, id ∈ l.revoked ++ [trust.id] ↔ id ∈ l.revoked := by
      intro id
      rw [List.mem_append, List.mem_singleton]
      exact or_iff_left_of_imp fun he => he ▸ hold
    refine ⟨h.sessions, h.covered, fun m hm => ?_, fun t ht => ?_, fun id hid => ?_,
      fun x hx hr => h.reached x hx ((hsame _).mp hr)⟩
    · obtain ⟨token, htoken, hissued, hr⟩ := h.backed m hm
      exact ⟨token, htoken, hissued, fun hin => hr ((hsame _).mp hin)⟩
    · exact (h.revoked t ht).trans (hsame _).symm
    · exact h.trusts id ((hsame id).mp hid)
  -- the sessions change in their time of revocation only
  · have hlater : LaterSessions l.repository.machineSessions machineSessions := by
      refine ⟨_, hmapped, fun x => ?_, fun x hr => ?_⟩
      · split <;> rfl
      · rw [if_neg fun hg => hr hg.2]
        exact hr
    refine ⟨hlater.issued.trans h.sessions, fun m hm => ?_, fun m hm => ?_, fun t ht => ?_,
      fun id hid => ?_, fun x hx hr => ?_⟩
    -- the scope of the trust is not touched by revoking it
    · obtain ⟨t, ht, hid, hcovers⟩ := h.covered m hm
      by_cases he : t = trust
      · subst he
        exact ⟨_, hreplaced.mem_new, hid, { hcovers with }⟩
      · exact ⟨t, (hreplaced.mem t).mpr (Or.inl ⟨ht, he⟩), hid, { hcovers with }⟩
    · obtain ⟨token, htoken, hissued, hr⟩ := h.backed m hm
      obtain ⟨token', htoken', hissued', hr'⟩ := laterTokens_revoke
        (p := fun t => ∃ x ∈ l.repository.machineSessions,
          x.session.trustId = trust.id ∧ x.session.id = t.id) token htoken
      refine ⟨token', htoken', hissued'.trans hissued, fun hin => ?_⟩
      rcases List.mem_append.mp hin with hold | hnew
      · exact hr' (hr hold)
      -- the token belongs to a session of the trust, so the update has reached it
      · rw [List.mem_singleton] at hnew
        obtain ⟨x, hx, hxm⟩ := h.mem_of_minted hm
        obtain ⟨hxid, hxtrust⟩ := MachineSessionRow.eq_of_issued hxm
        have htid : token'.id = m.record.id := by
          obtain ⟨t, -, -, hcovers⟩ := h.covered m hm
          have := congrArg LocalApiTokenRecord.id (hissued'.trans hissued)
          rw [hcovers.record]
          exact this
        obtain ⟨old, hold, rfl⟩ := mapped_revokeTokens.mem_iff.mp htoken'
        split
        · exact Option.some_ne_none _
        · rename_i hg
          rw [if_neg hg] at htid
          exact fun hnone => hg ⟨⟨x, hx, hxtrust.trans hnew, hxid.trans htid.symm⟩, hnone⟩
    -- a trust other than the revoked one is as it was
    · rcases (hreplaced.mem t).mp ht with ⟨hold, hne⟩ | rfl
      · rw [h.revoked t hold, List.mem_append, List.mem_singleton]
        refine (or_iff_left fun he => hne ?_).symm
        exact Table.eq_of_key hold htrust he
      · exact iff_of_true (Option.some_ne_none _)
          (List.mem_append_right _ (List.mem_singleton.mpr rfl))
    -- every revoked trust is on record
    · have hold : ∃ t ∈ l.repository.ciTrusts, t.id = id := by
        rcases List.mem_append.mp hid with hold | hnew
        · exact h.trusts id hold
        · exact ⟨trust, htrust, (List.mem_singleton.mp hnew).symm⟩
      obtain ⟨t, ht, rfl⟩ := hold
      by_cases he : t = trust
      · subst he
        exact ⟨_, hreplaced.mem_new, rfl⟩
      · exact ⟨t, (hreplaced.mem t).mpr (Or.inl ⟨ht, he⟩), rfl⟩
    -- each session of the trust is revoked by the same transaction
    · obtain ⟨y, hy, rfl⟩ := hmapped.mem_iff.mp hx
      split
      · exact Option.some_ne_none _
      · rename_i hg
        rw [if_neg hg] at hr
        rcases List.mem_append.mp hr with hold | hnew
        · exact h.reached y hy hold
        · exact fun hnone => hg ⟨List.mem_singleton.mp hnew, hnone⟩

/-- A session is minted, covered by a trust in force. -/
theorem Grounded.mint (h : Grounded l) {session : NewMachineSession} {event : NewAuditEvent}
    {record : LocalMachineSessionRecord}
    (hrun : l.repository.mintMachineSession session event = .ok (.minted record, s')) :
    Grounded { l with
      repository := s', minted := l.minted ++ [{ request := session, record }] } := by
  obtain ⟨-, h' | h' | ⟨_, _, _, -, -, h'⟩⟩ |
    ⟨trust, projectId, apiTokens, machineSessions, auditEvents, -, hmatch, -, hrecord, rfl,
      htokens, hsessions⟩ := mintMachineSession_cases hrun
  -- refused, nothing is minted
  · cases h'
  · cases h'
  · cases h'
  obtain rfl : record = machineRecord session trust projectId := by
    injection hrecord
  obtain ⟨htrust, hrepository, hactive, ⟨haudience, hpath, hworkflow, henvironment, href,
    hactions⟩, p, hp, hpid, hpworkspace, hslug, hscope⟩ := matchingTrust_spec hmatch
  -- the trust that matched is active, so the record has not revoked it
  have hnotRevoked : trust.id ∉ l.revoked := fun hr => (h.revoked trust htrust).mpr hr hactive
  refine ⟨?_, fun m hm => ?_, fun m hm => ?_, h.revoked, h.trusts, fun x hx hr => ?_⟩
  · rw [hsessions, List.map_append, List.map_append, h.sessions]
    rfl
  -- a new session is covered by the trust that matched it
  · rcases List.mem_append.mp hm with hold | hnew
    · obtain ⟨t, ht, hid, hcovers⟩ := h.covered m hold
      exact ⟨t, ht, hid, { hcovers with }⟩
    · obtain rfl := List.mem_singleton.mp hnew
      exact ⟨trust, htrust, rfl,
        { record := rfl, repository := hrepository, audience := haudience, workflowPath := hpath
          workflowRef := hworkflow, environment := henvironment
          gitRef := Glob.globMatch_iff.mp href, actions := hactions, scope := hscope
          project := ⟨p, hp, hpid, hpworkspace, hslug⟩ }⟩
  -- its token is in force, and the trust is not revoked
  · rcases List.mem_append.mp hm with hold | hnew
    · obtain ⟨token, htoken, hrest⟩ := h.backed m hold
      exact ⟨token, htokens.mem_of_mem htoken, hrest⟩
    · obtain rfl := List.mem_singleton.mp hnew
      exact ⟨_, htokens.mem_new, rfl, fun hr => absurd hr hnotRevoked⟩
  · rw [Table.mem_def, hsessions, List.mem_append, List.mem_singleton] at hx
    rcases hx with hold | rfl
    · exact h.reached x hold hr
    · exact absurd hr hnotRevoked

theorem Grounded.commit (h : Grounded l) {outcome : Except RepositoryError Repository}
    (hok : ∀ s', outcome = .ok s' → Grounded { l with repository := s' }) :
    Grounded (l.commit outcome) := by
  unfold Ledger.commit
  split
  · exact hok _ rfl
  · exact h

/-- Every request keeps the invariant. -/
theorem Grounded.exec (h : Grounded l) (request : Request) : Grounded (l.exec request) := by
  cases request with
  | createTrust trust event =>
    -- a new trust is not revoked
    refine h.commit fun s' hrun => ?_
    obtain ⟨hactive, ciTrusts, auditEvents, rfl, hinserted⟩ := createCiTrust_spec hrun
    exact h.later (fun _ => id) (LaterTokens.refl _) (LaterSessions.refl _)
      (Or.inr ⟨trust, hactive, hinserted⟩)
  | revokeTrust id workspaceId nowMs event =>
    simp only [Ledger.exec]
    split
    · rename_i changed s' hrun
      exact h.revoke hrun
    · exact h
  -- the clock moves even when the mint is refused
  | mint session event =>
    have hclock : Grounded { l with clock := session.nowMs } := { h with }
    simp only [Ledger.exec]
    split
    · rename_i record s' hrun
      exact hclock.mint hrun
    · rename_i answer s' hnot hrun
      rcases mintMachineSession_cases hrun with ⟨rfl, -⟩ | ⟨_, _, _, _, _, -, -, -, rfl, -⟩
      · exact hclock
      · exact absurd rfl (hnot _)
    · exact hclock
  -- authentication marks what was used
  | authenticateSession tokenId nowMs =>
    refine h.commit fun s' hrun => ?_
    obtain ⟨⟨session, s''⟩, hauthentic, rfl⟩ := map_eq_ok.mp hrun
    obtain ⟨-, machineSessions, rfl, hlater⟩ := authenticateMachineSession_spec hauthentic
    exact h.later (fun _ => id) (LaterTokens.refl _) hlater (Or.inl rfl)
  | authenticateToken secretHash nowMs =>
    refine h.commit fun s' hrun => ?_
    obtain ⟨⟨token, s''⟩, hauthentic, rfl⟩ := map_eq_ok.mp hrun
    obtain ⟨-, -, apiTokens, machineSessions, cliSessions, rfl, htokens, hsessions⟩ :=
      authenticateApiToken_spec hauthentic
    exact h.later (fun _ => id) htokens hsessions (Or.inl rfl)
  | credentials request =>
    refine h.commit fun s' hrun => ?_
    obtain ⟨_, _, _, _, rfl, htokens⟩ := CredentialRequest.spec hrun
    exact h.later (fun _ => id) htokens (LaterSessions.refl _) (Or.inl rfl)
  | createProject project =>
    refine h.commit fun s' hrun => ?_
    simp only [Repository.createProject, bind_eq_ok, pure_eq_ok, insertRow_eq_ok] at hrun
    obtain ⟨_, -, _, -, _, -, _, -, projects, hinsert, rfl⟩ := hrun
    exact h.later (fun _ => (Table.inserted_of_insert hinsert).mem_of_mem) (LaterTokens.refl _)
      (LaterSessions.refl _) (Or.inl rfl)
  -- the remaining requests are outside these tables
  | environment other =>
    exact h.later (fun _ => id) (LaterTokens.refl _) (LaterSessions.refl _) (Or.inl rfl)

theorem grounded {guard : Ledger → Request → Prop} (h : Run system guard l) : Grounded l :=
  h.inv grounded_init fun _ request _ hl _ hs => hs ▸ hl.exec request

/-! ### The law -/

/-- The minted session belongs to a trust in force that covers it. -/
def Authentic (l : Ledger) (m : Minted) : Prop :=
  m ∈ l.minted ∧ ∃ trust ∈ l.repository.ciTrusts, trust.id = m.record.trustId ∧
    trust.revokedAtMs = none ∧ trust.id ∉ l.revoked ∧ Covers l.repository trust m

/-- Whatever authenticates was minted by a trust in force that covers it; what was minted by a
revoked trust does not authenticate at any time. -/
structure Contained (l : Ledger) : Prop where
  session : ∀ tokenId nowMs session s',
    l.repository.authenticateMachineSession tokenId nowMs = .ok (session, s') →
    ∃ m, Authentic l m ∧ m.record.id = tokenId ∧
      m.record = { session with lastUsedAtMs := none, revokedAtMs := none }
  token : ∀ secretHash nowMs token s',
    l.repository.authenticateApiToken secretHash nowMs = .ok (token, s') →
    ∀ m ∈ l.minted, m.record.id = token.id →
      Authentic l m ∧ token.issued = machineToken m.request m.record
  revokedSession : ∀ m ∈ l.minted, m.record.trustId ∈ l.revoked →
    ∀ nowMs answer, l.repository.authenticateMachineSession m.record.id nowMs ≠ .ok answer
  revokedToken : ∀ m ∈ l.minted, m.record.trustId ∈ l.revoked →
    ∀ secretHash nowMs token s',
      l.repository.authenticateApiToken secretHash nowMs = .ok (token, s') →
      token.id ≠ m.record.id

/-- A stored session whose trust is in force is an authentic one. -/
theorem Grounded.authentic (h : Grounded l) {x : MachineSessionRow} {trust : LocalCiTrustRecord}
    {nowMs : ℕ} {m : Minted} (hm : m ∈ l.minted) (hissued : x.issued = m.row)
    (htrust : trust ∈ l.repository.ciTrusts) (hid : trust.id = x.session.trustId)
    (hvalid : SessionTrustValid x.session trust nowMs) : Authentic l m := by
  have hactive : trust.revokedAtMs = none := hvalid.2.2.1
  have hxtrust : x.session.trustId = m.record.trustId :=
    (MachineSessionRow.eq_of_issued hissued).2
  obtain ⟨t, ht, htid, hcovers⟩ := h.covered m hm
  obtain rfl : t = trust := Table.eq_of_key ht htrust (htid.trans (hid.trans hxtrust).symm)
  exact ⟨hm, t, ht, htid, hactive, fun hr => (h.revoked t ht).mpr hr hactive, hcovers⟩

theorem Grounded.contained (h : Grounded l) : Contained l where
  session tokenId nowMs session s' hrun := by
    -- the session that authenticates was minted, and its trust is still in force
    obtain ⟨⟨x, hx, hid, rfl, trust, htrust, htid, hvalid⟩, -⟩ :=
      authenticateMachineSession_spec hrun
    obtain ⟨m, hm, hissued⟩ := h.minted_of_mem hx
    refine ⟨m, h.authentic hm hissued htrust htid hvalid, ?_, ?_⟩
    · exact (MachineSessionRow.eq_of_issued hissued).1.symm.trans hid
    · exact (congrArg MachineSessionRow.session hissued).symm
  token secretHash nowMs token s' hrun m hm hmid := by
    -- a token of a session authenticates only while the session and its trust hold
    obtain ⟨⟨found, hfound, -, rfl⟩, hvalid, -⟩ := authenticateApiToken_spec hrun
    obtain ⟨x, hx, hissued⟩ := h.mem_of_minted hm
    obtain ⟨hxid, -⟩ := MachineSessionRow.eq_of_issued hissued
    obtain ⟨trust, htrust, htid, hvalid⟩ := hvalid x hx (hxid.trans hmid)
    refine ⟨h.authentic hm hissued htrust htid hvalid, ?_⟩
    obtain ⟨token, htoken, htissued, -⟩ := h.backed m hm
    obtain ⟨t, -, -, hcovers⟩ := h.covered m hm
    have hmrecord : m.request.id = m.record.id := by
      rw [hcovers.record]
      rfl
    obtain rfl : found = token := by
      refine Table.eq_of_key hfound htoken ?_
      have htid : token.id = m.request.id := congrArg LocalApiTokenRecord.id htissued
      rw [htid, hmrecord]
      exact hmid.symm
    exact htissued
  -- revoking the trust has revoked its sessions
  revokedSession m hm hr nowMs := by
    rintro ⟨session, s'⟩ hrun
    obtain ⟨⟨x, hx, hid, _, _, _, _, hvalid⟩, -⟩ := authenticateMachineSession_spec hrun
    obtain ⟨y, hy, hissued⟩ := h.mem_of_minted hm
    obtain ⟨hyid, hytrust⟩ := MachineSessionRow.eq_of_issued hissued
    obtain rfl := Table.eq_of_key hx hy (hid.trans hyid.symm)
    exact h.reached x hx (hytrust.symm ▸ hr) hvalid.1
  -- and a token is checked against its session
  revokedToken m hm hr secretHash nowMs token s' hrun he := by
    obtain ⟨-, hvalid, -⟩ := authenticateApiToken_spec hrun
    obtain ⟨x, hx, hissued⟩ := h.mem_of_minted hm
    obtain ⟨hxid, hxtrust⟩ := MachineSessionRow.eq_of_issued hissued
    obtain ⟨trust, -, -, hforce⟩ := hvalid x hx (hxid.trans he.symm)
    exact h.reached x hx (hxtrust.symm ▸ hr) hforce.1

/-- In every reachable state, whatever authenticates is contained in a trust in force. -/
theorem containment_law (h : Run system (fun _ _ => True) l) : Contained l :=
  (grounded h).contained

/-! ### An exchange -/

/-- A workspace with no project yet. -/
def forge : Repository :=
  let workspace : WorkspaceRecord := { id := "w", name := "Forge", slug := ⟨"forge", by decide⟩ }
  { Repository.empty with workspaces := ⟨[workspace], List.nodup_singleton _⟩ }

/-- A trust for the release branches of one repository. -/
def releaseTrust : LocalCiTrustRecord where
  id := "trust"
  workspaceId := "w"
  projectId := some "p"
  repository := "forge/engine"
  workflowPath := ".github/workflows/release.yml"
  workflowRef := "refs/heads/main"
  allowedRefGlob := "refs/heads/release-*"
  environment := none
  allowedActions := [.upload, .download]
  audience := "yard"
  createdAtMs := 1000
  revokedAtMs := none

/-- A request of the release workflow, with an assertion of its own. -/
def releaseSession (id : String) (digit : Char) (nowMs : ℕ) : NewMachineSession where
  id := id
  tokenPrefix := "by"
  secretHash := repeatedDigit digit
  identity :=
    { audience := "yard", repository := "forge/engine", gitRef := "refs/heads/release-2"
      workflowPath := ".github/workflows/release.yml", workflowRef := "refs/heads/main"
      environment := none, runId := "77", runAttempt := none, sha := none
      expiresAtMs := nowMs + 600000 }
  workspace := none
  project := "engine"
  actions := [.upload]
  oidcTokenHash := repeatedDigit digit
  nowMs := nowMs

/-- The event of a request on the trust. -/
def ciEvent (id action targetType targetId : String) (createdAtMs : ℕ) : NewAuditEvent where
  id := id
  workspaceId := "w"
  actor := "owner"
  action := action
  requestId := "r"
  targetType := targetType
  metadata := [("repository", .string "forge/engine"), ("targetId", .string targetId)]
  createdAtMs := createdAtMs

/-- A trust is created and exchanged for a session. -/
def release : List Request :=
  [.environment forge,
    .createProject
      { id := "p", workspaceId := "w", name := "Engine", slug := ⟨"engine", by decide⟩ },
    .createTrust releaseTrust (ciEvent "created" "ci.trust_created" "ci_trust" "trust" 1000),
    .mint (releaseSession "machine_1" '1' 2000)
      (ciEvent "minted" "ci.token_minted" "project" "p" 2000)]

/-- The trust is revoked, and a second assertion comes too late. -/
def withdrawal : List Request :=
  [.revokeTrust "trust" "w" 4000 (ciEvent "revoked" "ci.trust_revoked" "ci_trust" "trust" 4000),
    .mint (releaseSession "machine_2" '2' 5000)
      (ciEvent "refused" "ci.token_minted" "project" "p" 5000)]

/-- The ledger after the release, and after the withdrawal of its trust. -/
def released : Ledger := release.foldl Ledger.exec Ledger.init

def withdrawn : Ledger := withdrawal.foldl Ledger.exec released

/-- The session of the release authenticates, within its trust, until the trust is revoked. -/
theorem contained_release :
    (released.repository.authenticateMachineSession "machine_1" 3000).isOk = true ∧
      Contained released ∧ withdrawn.revoked = ["trust"] ∧
      (withdrawn.repository.authenticateMachineSession "machine_1" 4500).isOk = false ∧
      withdrawn.minted.map (fun m => m.record.id) = ["machine_1"] ∧ Contained withdrawn := by
  have hreleased : Run system (fun _ _ => True) released :=
    Run.ofList_true (fun _ _ => rfl) Run.init _
  exact ⟨by decide +kernel, containment_law hreleased, by decide +kernel, by decide +kernel,
    by decide +kernel, containment_law (Run.ofList_true (fun _ _ => rfl) hreleased _)⟩

end CiTrust

end BlobYard
