/-
The life of a guest invitation.

An invitation lives in four tables.  Its own three operations write several of them at once, and
the operations on grants, groups and users write some of the same tables; none of these may
disturb it.  The runs carry a clock and remember which tokens were issued and accepted.

* `Invited` — rows, grants, subjects and keys of the invitations agree;
* `Undisturbed` — what every other operation leaves of them;
* `sound_exec` — every request at or after the clock keeps the invariant;
* `invitation_law` — the law over runs with a clock that never goes back.
-/
import BlobYard.Lib.Run
import BlobYard.Repository.LocalUsers
import BlobYard.Repository.YardAdmission
import BlobYard.Repository.YardGuests
import BlobYard.Repository.YardRequests

namespace BlobYard

open Outcome Repository

namespace GuestInvitations

/-! ### Requests and runs -/

/-- The requests on invitations, grants, groups and users, or any other change of the remaining
tables. -/
inductive Request where
  | create (invitation : NewYardGuestInvite) (grant : NewYardAccessGrant) (event : NewAuditEvent)
  | accept (tokenHash : String) (subject : YardSubjectRecord) (key : YardGuestLoginKeyRecord)
    (continuation : NewYardContinuation) (event : NewAuditEvent) (nowMs : ℕ)
  | revoke (yardId invitationId : String) (nowMs : ℕ) (event : NewAuditEvent)
  | authenticate (secretHash : String) (nowMs : ℕ)
  | access (request : GrantRequest)
  | deactivateGroup (workspaceId groupId : String) (nowMs : ℕ) (event : NewAuditEvent)
  | createUser (user : LocalUserRecord) (key : LocalUserLoginKeyRecord) (event : NewAuditEvent)
  | deactivateUser (userId : String) (nowMs : ℕ) (event : NewAuditEvent)
  | environment (other : Repository)

/-- The time of a request on invitations; the times of the others do not matter here. -/
def Request.timeMs : Request → Option ℕ
  | .create invitation _ _ => some invitation.createdAtMs
  | .accept _ _ _ _ _ nowMs => some nowMs
  | .revoke _ _ nowMs _ => some nowMs
  | .authenticate _ nowMs => some nowMs
  | _ => none

/-- The token that a successful request issues. -/
def Request.issues : Request → List String
  | .create invitation _ _ => [invitation.tokenHash]
  | _ => []

/-- The invitation that a successful request accepts, and by which token. -/
def Request.accepts : Request → List (Option String × String)
  | .accept tokenHash subject _ _ _ _ => [(subject.invitationId, tokenHash)]
  | _ => []

/-- The repository at a time, with the tokens issued and the invitations accepted so far. -/
structure Ledger where
  repository : Repository
  clock : ℕ
  issued : List String
  accepted : List (Option String × String)

section Requests

variable [Unicode] [JsonWriter]

def Request.run (s : Repository) : Request → Except RepositoryError Repository
  | .create invitation grant event => Prod.snd <$> s.createYardGuestInvite invitation grant event
  | .accept tokenHash subject key continuation event nowMs =>
    Prod.snd <$> s.acceptYardGuestInvite tokenHash subject key continuation event nowMs
  | .revoke yardId invitationId nowMs event =>
    Prod.snd <$> s.revokeYardGuestInvite yardId invitationId nowMs event
  | .authenticate secretHash nowMs => Prod.snd <$> s.authenticateYardGuestKey secretHash nowMs
  | .access request => request.run s
  | .deactivateGroup workspaceId groupId nowMs event =>
    s.deactivateWorkspaceGroup workspaceId groupId nowMs event
  | .createUser user key event => s.createLocalUser user key event
  | .deactivateUser userId nowMs event => s.deactivateLocalUser userId nowMs event
  | .environment other =>
    .ok { other with
      yardAccessGrants := s.yardAccessGrants, yardSubjects := s.yardSubjects
      yardGuestInvitations := s.yardGuestInvitations
      yardGuestLoginKeys := s.yardGuestLoginKeys }

/-- A request that fails leaves the repository as it was. -/
def exec (l : Ledger) (request : Request) : Ledger :=
  match request.run l.repository with
  | .ok s' =>
    { repository := s', clock := request.timeMs.getD l.clock
      issued := request.issues ++ l.issued, accepted := request.accepts ++ l.accepted }
  | .error _ => { l with clock := request.timeMs.getD l.clock }

/-- Requests in any order, from an empty repository. -/
def system : System Ledger Request where
  init := { repository := Repository.empty, clock := 0, issued := [], accepted := [] }
  step l request l' := l' = exec l request

end Requests

/-- The clock does not go back. -/
def OnTime (l : Ledger) (request : Request) : Prop := ∀ nowMs ∈ request.timeMs, l.clock ≤ nowMs

instance (l : Ledger) (request : Request) : Decidable (OnTime l request) :=
  inferInstanceAs (Decidable (∀ nowMs ∈ request.timeMs, l.clock ≤ nowMs))

/-! ### The invariant -/

/-- The row holds the token. -/
def Carries (tokenHash : String) (row : YardGuestInvitationRow) : Prop :=
  row.tokenHash = some tokenHash

instance (tokenHash : String) : DecidablePred (Carries tokenHash) :=
  fun row => inferInstanceAs (Decidable (row.tokenHash = some tokenHash))

/-- The row is an invitation of the yard in force. -/
def OpenIn (yardId : String) (nowMs : ℕ) (row : YardGuestInvitationRow) : Prop :=
  row.yardId = yardId ∧ OpenInvitation nowMs row

instance (yardId : String) (nowMs : ℕ) : DecidablePred (OpenIn yardId nowMs) :=
  fun row => inferInstanceAs (Decidable (row.yardId = yardId ∧ OpenInvitation nowMs row))

/-- The tables of the invitations agree. -/
structure Invited (s : Repository) : Prop where
  grants : ∀ row ∈ s.yardGuestInvitations,
    ∃ grant ∈ s.yardAccessGrants, ScopeMatches row grant ∧ LifecycleMatches row grant
  tokens : ∀ row ∈ s.yardGuestInvitations, row.tokenHash ≠ none ↔ row.status = .pending
  subjects : ∀ row ∈ s.yardGuestInvitations, ∀ id ∈ row.acceptedSubjectId,
    ∃ x ∈ s.yardSubjects, x.id = id ∧ x.kind = .guest ∧ x.invitationId = some row.id
  keys : ∀ k ∈ s.yardGuestLoginKeys, ∃ row ∈ s.yardGuestInvitations, row.id = k.invitationId ∧
    row.acceptedSubjectId = some k.subjectId ∧ k.expiresAtMs = row.expiresAtMs ∧
    (row.status = .revoked → k.revokedAtMs ≠ none)
  secrets : s.yardGuestLoginKeys.UniqueOn YardGuestLoginKeyRecord.secretHash

theorem invited_init : Invited Repository.empty where
  grants _ h := absurd h Table.not_mem_empty
  tokens _ h := absurd h Table.not_mem_empty
  subjects _ h := absurd h Table.not_mem_empty
  keys _ h := absurd h Table.not_mem_empty
  secrets _ h := absurd h Table.not_mem_empty

/-! ### What other operations leave -/

/-- The grant row `g'` is `g`, with other roles at most. -/
def SameGrant (g g' : YardAccessGrantRecord) : Prop := g' = { g with appRoles := g'.appRoles }

/-- The guest grants are what they were, with other roles at most. -/
structure GuestGrantsKept (t t' : Table YardAccessGrantRecord.id) : Prop where
  kept : ∀ g ∈ t, g.principalKind = .guestInvite → ∃ g' ∈ t', SameGrant g g'
  nothingNew : ∀ g' ∈ t', g'.principalKind = .guestInvite → ∃ g ∈ t, SameGrant g g'

/-- The invitations are left alone: the rows, their grants but for the roles, the guests, and the
keys but for their last use. -/
structure Undisturbed (s s' : Repository) : Prop where
  invitations : s'.yardGuestInvitations = s.yardGuestInvitations
  grants : GuestGrantsKept s.yardAccessGrants s'.yardAccessGrants
  guests : ∀ x ∈ s.yardSubjects, x.kind = .guest → x ∈ s'.yardSubjects
  keys : ∃ f : YardGuestLoginKeyRecord → YardGuestLoginKeyRecord,
    s.yardGuestLoginKeys.Mapped s'.yardGuestLoginKeys f ∧
      ∀ k, f k = { k with lastUsedAtMs := (f k).lastUsedAtMs }

variable {s s' : Repository}

theorem GuestGrantsKept.refl (t : Table YardAccessGrantRecord.id) : GuestGrantsKept t t :=
  ⟨fun g hg _ => ⟨g, hg, rfl⟩, fun g hg _ => ⟨g, hg, rfl⟩⟩

/-- A change of grants that are not for guests. -/
theorem guestGrantsKept_of_iff {t t' : Table YardAccessGrantRecord.id}
    (h : ∀ g, g.principalKind = .guestInvite → (g ∈ t' ↔ g ∈ t)) : GuestGrantsKept t t' where
  kept g hg hkind := ⟨g, (h g hkind).mpr hg, rfl⟩
  nothingNew g hg hkind := ⟨g, (h g hkind).mp hg, rfl⟩

theorem guestGrantsKept_of_inserted {t t' : Table YardAccessGrantRecord.id}
    {grant : YardAccessGrantRecord} (h : t.Inserted t' grant)
    (hkind : grant.principalKind ≠ .guestInvite) : GuestGrantsKept t t' := by
  refine guestGrantsKept_of_iff fun g hguest => ?_
  rw [h.mem]
  refine or_iff_left ?_
  rintro rfl
  exact hkind hguest

theorem guestGrantsKept_of_replaced {t t' : Table YardAccessGrantRecord.id}
    {grant grant' : YardAccessGrantRecord} (h : t.Replaced t' grant grant')
    (hkind : grant.principalKind ≠ .guestInvite) (hkind' : grant'.principalKind ≠ .guestInvite) :
    GuestGrantsKept t t' := by
  refine guestGrantsKept_of_iff fun g hguest => ?_
  rw [h.mem]
  constructor
  · rintro (⟨hg, -⟩ | rfl)
    · exact hg
    · exact absurd hguest hkind'
  · refine fun hg => Or.inl ⟨hg, ?_⟩
    rintro rfl
    exact hkind hguest

theorem guestGrantsKept_of_mapped {t t' : Table YardAccessGrantRecord.id}
    {f : YardAccessGrantRecord → YardAccessGrantRecord} (h : t.Mapped t' f)
    (hf : ∀ g, (f g).principalKind = g.principalKind ∧
      (g.principalKind = .guestInvite → f g = g)) : GuestGrantsKept t t' := by
  refine guestGrantsKept_of_iff fun g hguest => ?_
  rw [h.mem_iff]
  constructor
  · rintro ⟨g', hg', rfl⟩
    rw [(hf g').1] at hguest
    rwa [(hf g').2 hguest]
  · exact fun hg => ⟨g, hg, ((hf g).2 hguest).symm⟩

theorem guestGrantsKept_of_roles {t t' : Table YardAccessGrantRecord.id}
    {grant : YardAccessGrantRecord} {roles : List String}
    (h : t.Replaced t' grant { grant with appRoles := roles }) : GuestGrantsKept t t' where
  kept g hg _ := by
    by_cases hgrant : g = grant
    · exact ⟨_, h.mem_new, by rw [hgrant]; rfl⟩
    · exact ⟨g, (h.mem g).mpr (Or.inl ⟨hg, hgrant⟩), rfl⟩
  nothingNew g hg _ := by
    rcases (h.mem g).mp hg with ⟨hg, -⟩ | rfl
    · exact ⟨g, hg, rfl⟩
    · exact ⟨grant, h.mem_old, rfl⟩

/-- No key changes. -/
theorem keys_same (t : Table YardGuestLoginKeyRecord.id) :
    ∃ f : YardGuestLoginKeyRecord → YardGuestLoginKeyRecord, t.Mapped t f ∧
      ∀ k, f k = { k with lastUsedAtMs := (f k).lastUsedAtMs } :=
  ⟨id, Table.Mapped.refl t, fun _ => rfl⟩

/-- The invitations of an undisturbed repository still agree. -/
theorem invited_of_undisturbed (h : Invited s) (hsame : Undisturbed s s') : Invited s' := by
  obtain ⟨hrows, hgrants, hguests, f, hmapped, hf⟩ := hsame
  refine ⟨?_, ?_, ?_, ?_, ?_⟩
  -- each invitation still has its grant
  · rw [hrows]
    intro row hrow
    obtain ⟨grant, hgrant, hscope, hlife⟩ := h.grants row hrow
    obtain ⟨grant', hgrant', hsame⟩ := hgrants.kept grant hgrant hscope.kind
    rw [SameGrant] at hsame
    refine ⟨grant', hgrant', ?_, ?_⟩
    · rw [hsame]
      exact ⟨hscope.id, hscope.yard, hscope.environment, hscope.kind, hscope.principal,
        hscope.created, hscope.expires⟩
    · rw [hsame]
      exact hlife
  · rw [hrows]
    exact h.tokens
  · rw [hrows]
    intro row hrow id hid
    obtain ⟨x, hx, hxid, hkind, hinvitation⟩ := h.subjects row hrow id hid
    exact ⟨x, hguests x hx hkind, hxid, hkind, hinvitation⟩
  · rw [hrows]
    intro k hk
    obtain ⟨k, hold, rfl⟩ := hmapped.mem_iff.mp hk
    rw [hf k]
    exact h.keys k hold
  -- a login key keeps its secret, whatever else is marked in it
  · refine h.secrets.mapped hmapped fun k _ => ?_
    rw [hf k]

/-- The operations on grants keep the guest grants: none is created and none is revoked. -/
theorem GrantRequest.kept [JsonWriter] {request : GrantRequest} (h : request.run s = .ok s') :
    ∃ grants audits, s' = { s with yardAccessGrants := grants, auditEvents := audits } ∧
      GuestGrantsKept s.yardAccessGrants grants := by
  cases request with
  | insert grant event =>
    simp only [GrantRequest.run, map_eq_ok] at h
    obtain ⟨⟨_, _⟩, h, rfl⟩ := h
    obtain ⟨_, grants, audits, rfl, -, -, -, -, hprincipal, hgrants⟩ := insertYardAccessGrant_spec h
    exact ⟨grants, audits, rfl, guestGrantsKept_of_inserted hgrants hprincipal.notGuest⟩
  | revoke yardId grantId revokedAtMs event =>
    simp only [GrantRequest.run, map_eq_ok] at h
    obtain ⟨⟨_, _⟩, h, rfl⟩ := h
    rcases revokeYardAccessGrant_spec h with rfl | ⟨grant, grants, audits, rfl, -, hkind, -, hgrants⟩
    · exact ⟨_, _, rfl, GuestGrantsKept.refl _⟩
    · exact ⟨grants, audits, rfl, guestGrantsKept_of_replaced hgrants hkind hkind⟩
  | setRoles yardId grantId appRoles nowMs event =>
    simp only [GrantRequest.run, map_eq_ok] at h
    obtain ⟨⟨_, _⟩, h, rfl⟩ := h
    obtain ⟨grant, roles, grants, audits, rfl, -, rfl, -, hgrants⟩ := setYardAccessRoles_spec h
    exact ⟨grants, audits, rfl, guestGrantsKept_of_roles hgrants⟩

/-- The request is one of the three that write invitations. -/
def Writes : Request → Prop
  | .create .. | .accept .. | .revoke .. => True
  | _ => False

/-- Every other request leaves the invitations alone. -/
theorem undisturbed_of_run [Unicode] [JsonWriter] {request : Request} (hnot : ¬Writes request)
    (h : request.run s = .ok s') : Undisturbed s s' := by
  cases request with
  | create invitation grant event => exact absurd trivial hnot
  | accept tokenHash subject key continuation event nowMs => exact absurd trivial hnot
  | revoke yardId invitationId nowMs event => exact absurd trivial hnot
  -- an authentication marks a key, and a grant request touches no grant of a guest
  | authenticate secretHash nowMs =>
    simp only [Request.run, map_eq_ok] at h
    obtain ⟨⟨_, _⟩, h, rfl⟩ := h
    obtain ⟨keys, key, rfl, hkeys, -⟩ := authenticateYardGuestKey_spec h
    refine ⟨rfl, GuestGrantsKept.refl _, fun _ hx _ => hx, _, hkeys, fun k => ?_⟩
    split
    · rfl
    · rfl
  | access request =>
    obtain ⟨grants, audits, rfl, hgrants⟩ := GrantRequest.kept h
    exact ⟨rfl, hgrants, fun _ hx _ => hx, keys_same _⟩
  -- the grants that go with a group are not those of guests
  | deactivateGroup workspaceId groupId nowMs event =>
    obtain ⟨_, _, _, rfl, -, -, -, -, -⟩ := deactivateWorkspaceGroup_spec h
    refine ⟨rfl, guestGrantsKept_of_mapped Table.mapped_update fun g => ?_,
      fun _ hx _ => hx, keys_same _⟩
    split
    · rename_i hgroup
      refine ⟨rfl, fun hguest => ?_⟩
      rw [hgroup.1] at hguest
      cases hguest
    · exact ⟨rfl, fun _ => rfl⟩
  | createUser user key event =>
    obtain ⟨_, _, _, _, rfl, -, -, hsubjects, -⟩ := createLocalUser_spec h
    exact ⟨rfl, GuestGrantsKept.refl _, fun x hx _ => hsubjects.mem_of_mem hx, keys_same _⟩
  | deactivateUser userId nowMs event =>
    obtain ⟨_, _, _, _, _, _, rfl, -, -, -, -, -, -, hsubjects⟩ := deactivateLocalUser_spec h
    refine ⟨rfl, GuestGrantsKept.refl _, fun x hx hguest => ?_, keys_same _⟩
    -- the subjects that go with a user are members, no guests
    have hmember : ¬LiveMember userId x := by
      rintro ⟨-, hkind, -⟩
      rw [hguest] at hkind
      cases hkind
    have hmem := hsubjects.mem_of_mem hx
    rwa [if_neg hmember] at hmem
  | environment other =>
    simp only [Request.run, Except.ok.injEq] at h
    subst h
    exact ⟨rfl, GuestGrantsKept.refl _, fun _ hx _ => hx, keys_same _⟩

/-! ### The three operations of an invitation -/

section Writers

variable {row : YardGuestInvitationRow} {rows : Table YardGuestInvitationRow.id}

/-- A new invitation agrees with its grant. -/
theorem invited_create [Unicode] {invitation : NewYardGuestInvite} {grant : YardAccessGrantRecord}
    {grants : Table YardAccessGrantRecord.id} (h : Invited s)
    (hvalid : ValidInvitation (invitationRow invitation) grant)
    (hgrants : s.yardAccessGrants.Inserted grants grant)
    (hrows : s.yardGuestInvitations.Inserted rows (invitationRow invitation))
    (hs : s'.yardGuestInvitations = rows ∧ s'.yardAccessGrants = grants ∧
      s'.yardSubjects = s.yardSubjects ∧ s'.yardGuestLoginKeys = s.yardGuestLoginKeys) :
    Invited s' := by
  obtain ⟨rfl, rfl, hx, hk⟩ := hs
  refine ⟨?_, ?_, ?_, ?_, ?_⟩
  -- an old invitation keeps its grant, the new one has the grant inserted with it
  · intro row hrow
    rcases (hrows.mem row).mp hrow with hrow | rfl
    · obtain ⟨g, hg, hmatch⟩ := h.grants row hrow
      exact ⟨g, hgrants.mem_of_mem hg, hmatch⟩
    · exact ⟨grant, hgrants.mem_new, hvalid.scope, hvalid.lifecycle⟩
  -- the new invitation is pending, so it carries a token
  · intro row hrow
    rcases (hrows.mem row).mp hrow with hrow | rfl
    · exact h.tokens row hrow
    · exact ⟨fun _ => rfl, fun _ => Option.some_ne_none _⟩
  · rw [hx]
    intro row hrow id hid
    rcases (hrows.mem row).mp hrow with hrow | rfl
    · exact h.subjects row hrow id hid
    · cases hid
  -- no login key is new
  · rw [hk]
    intro k hmem
    obtain ⟨row, hrow, hrest⟩ := h.keys k hmem
    exact ⟨row, hrows.mem_of_mem hrow, hrest⟩
  · rw [hk]
    exact h.secrets

/-- A pending invitation has no subject yet. -/
theorem unaccepted_of_pending (h : Invited s) (hrow : row ∈ s.yardGuestInvitations)
    (hpending : row.status = .pending) :
    row.acceptedSubjectId = none ∧ row.revokedAtMs = none ∧
      ∃ grant ∈ s.yardAccessGrants, ScopeMatches row grant ∧ grant.status = .active ∧
        grant.revokedAtMs = none := by
  obtain ⟨grant, hgrant, hscope, hlife⟩ := h.grants row hrow
  rw [LifecycleMatches, hpending] at hlife
  obtain ⟨hsubject, -, hrevoked, hactive, hlive⟩ := hlife
  exact ⟨hsubject, hrevoked, grant, hgrant, hscope, hactive, hlive⟩

/-- An accepted invitation has its subject and its key. -/
theorem invited_accept {subject : YardSubjectRecord} {key : YardGuestLoginKeyRecord} {nowMs : ℕ}
    {subjects : Table YardSubjectRecord.id} {keys : Table YardGuestLoginKeyRecord.id}
    (h : Invited s) (hpending : row.status = .pending)
    (hrows : s.yardGuestInvitations.Replaced rows row (acceptedRow subject.id nowMs row))
    (hkind : subject.kind = .guest) (hinvitation : subject.invitationId = some row.id)
    (hsubjects : s.yardSubjects.Inserted subjects subject)
    (hksubject : key.subjectId = subject.id) (hkinvitation : key.invitationId = row.id)
    (hkexpires : key.expiresAtMs = row.expiresAtMs)
    (hkeys : s.yardGuestLoginKeys.Inserted keys key)
    (hsecret : ∀ k ∈ s.yardGuestLoginKeys, k.secretHash ≠ key.secretHash)
    (hs : s'.yardGuestInvitations = rows ∧ s'.yardAccessGrants = s.yardAccessGrants ∧
      s'.yardSubjects = subjects ∧ s'.yardGuestLoginKeys = keys) : Invited s' := by
  obtain ⟨rfl, hg, rfl, rfl⟩ := hs
  obtain ⟨hnone, hunrevoked, grant, hgrant, hscope, hactive, hlive⟩ :=
    unaccepted_of_pending h hrows.mem_old hpending
  refine ⟨?_, ?_, ?_, ?_, ?_⟩
  · rw [hg]
    intro row' hrow'
    rcases (hrows.mem row').mp hrow' with ⟨hold, -⟩ | rfl
    · exact h.grants row' hold
    · refine ⟨grant, hgrant, ?_, ?_⟩
      · exact ⟨hscope.id, hscope.yard, hscope.environment, hscope.kind, hscope.principal,
          hscope.created, hscope.expires⟩
      · exact ⟨Option.some_ne_none _, Option.some_ne_none _, hunrevoked, hactive, hlive⟩
  · intro row' hrow'
    rcases (hrows.mem row').mp hrow' with ⟨hold, -⟩ | rfl
    · exact h.tokens row' hold
    · exact ⟨fun hne => absurd rfl hne, fun hstatus => by cases hstatus⟩
  · intro row' hrow' id hid
    rcases (hrows.mem row').mp hrow' with ⟨hold, -⟩ | rfl
    · obtain ⟨x, hx, hrest⟩ := h.subjects row' hold id hid
      exact ⟨x, hsubjects.mem_of_mem hx, hrest⟩
    · obtain rfl := Option.mem_some_iff.mp hid
      exact ⟨subject, hsubjects.mem_new, rfl, hkind, hinvitation⟩
  · intro k hk
    rcases (hkeys.mem k).mp hk with hold | rfl
    · obtain ⟨row', hrow', hid, haccepted, hrest⟩ := h.keys k hold
      -- the invitation of an older key has a subject, so it is not the one being accepted
      refine ⟨row', (hrows.mem row').mpr (Or.inl ⟨hrow', ?_⟩), hid, haccepted, hrest⟩
      rintro rfl
      rw [hnone] at haccepted
      cases haccepted
    · refine ⟨_, hrows.mem_new, hkinvitation.symm, ?_, hkexpires, fun hstatus => by cases hstatus⟩
      rw [hksubject]
      rfl
  · exact h.secrets.insert hkeys hsecret

/-- A revoked invitation takes its grant and its keys with it. -/
theorem invited_revoke {grant : YardAccessGrantRecord} {nowMs : ℕ}
    {grants : Table YardAccessGrantRecord.id} {keys : Table YardGuestLoginKeyRecord.id}
    (h : Invited s)
    (hrows : s.yardGuestInvitations.Replaced rows row (revokedRow nowMs row))
    (hgid : grant.id = row.grantId)
    (hgrants : s.yardAccessGrants.Replaced grants grant
      { grant with status := .revoked, revokedAtMs := some nowMs })
    (hkeys : s.yardGuestLoginKeys.Mapped keys fun k =>
      if k.invitationId = row.id ∧ k.revokedAtMs = none then { k with revokedAtMs := some nowMs }
      else k)
    (hs : s'.yardGuestInvitations = rows ∧ s'.yardAccessGrants = grants ∧
      s'.yardSubjects = s.yardSubjects ∧ s'.yardGuestLoginKeys = keys) : Invited s' := by
  obtain ⟨rfl, rfl, hx, rfl⟩ := hs
  have hscope : ScopeMatches row grant := by
    obtain ⟨g, hg, hscope, -⟩ := h.grants row hrows.mem_old
    obtain rfl := Table.eq_of_key hg hgrants.mem_old (hscope.id.trans hgid.symm)
    exact hscope
  refine ⟨?_, ?_, ?_, ?_, ?_⟩
  · intro row' hrow'
    rcases (hrows.mem row').mp hrow' with ⟨hold, hne⟩ | rfl
    · obtain ⟨g, hg, hscope', hlife⟩ := h.grants row' hold
      -- the grant names its invitation, so no other invitation shares it
      refine ⟨g, (hgrants.mem g).mpr (Or.inl ⟨hg, ?_⟩), hscope', hlife⟩
      rintro rfl
      exact hne (Table.eq_of_key hold hrows.mem_old
        (hscope'.principal.symm.trans hscope.principal))
    · refine ⟨_, hgrants.mem_new, ?_, Option.some_ne_none _, rfl, rfl⟩
      exact ⟨hscope.id, hscope.yard, hscope.environment, hscope.kind, hscope.principal,
        hscope.created, hscope.expires⟩
  · intro row' hrow'
    rcases (hrows.mem row').mp hrow' with ⟨hold, -⟩ | rfl
    · exact h.tokens row' hold
    · exact ⟨fun hne => absurd rfl hne, fun hstatus => by cases hstatus⟩
  · rw [hx]
    intro row' hrow' id hid
    rcases (hrows.mem row').mp hrow' with ⟨hold, -⟩ | rfl
    · exact h.subjects row' hold id hid
    · exact h.subjects row hrows.mem_old id hid
  · intro k' hk'
    obtain ⟨k, hk, rfl⟩ := hkeys.mem_iff.mp hk'
    obtain ⟨row', hrow', hid, haccepted, hexpires, hrevoked⟩ := h.keys k hk
    by_cases hrow : row' = row
    · subst hrow
      refine ⟨_, hrows.mem_new, ?_⟩
      split
      · exact ⟨hid, haccepted, hexpires, fun _ => Option.some_ne_none _⟩
      · rename_i hdone
        exact ⟨hid, haccepted, hexpires, fun _ hlive => hdone ⟨hid.symm, hlive⟩⟩
    · refine ⟨row', (hrows.mem row').mpr (Or.inl ⟨hrow', hrow⟩), ?_⟩
      split
      · exact ⟨hid, haccepted, hexpires, fun _ => Option.some_ne_none _⟩
      · exact ⟨hid, haccepted, hexpires, hrevoked⟩
  · refine h.secrets.mapped hkeys fun k _ => ?_
    split
    · rfl
    · rfl

end Writers

/-! ### Counting -/

section Counting

variable {rows rows' : Table YardGuestInvitationRow.id} {row : YardGuestInvitationRow}

/-- Two invitations in force for the same scope and address. -/
structure Rivals (nowMs : ℕ) (row row' : YardGuestInvitationRow) : Prop where
  yard : row.yardId = row'.yardId
  environment : row.environmentId = row'.environmentId
  email : row.email = row'.email
  left : OpenInvitation nowMs row
  right : OpenInvitation nowMs row'

theorem Rivals.symm {nowMs : ℕ} {row row' : YardGuestInvitationRow} (h : Rivals nowMs row row') :
    Rivals nowMs row' row :=
  ⟨h.yard.symm, h.environment.symm, h.email.symm, h.right, h.left⟩

/-- The limits on the invitations in force at a time. -/
structure Limited (rows : Table YardGuestInvitationRow.id) (nowMs : ℕ) : Prop where
  capacity : ∀ yardId, rows.count (OpenIn yardId nowMs) ≤ maximumActiveYardGuestInvites
  single : ∀ row ∈ rows, ∀ row' ∈ rows, Rivals nowMs row row' → row = row'

/-- An invitation in force was in force before. -/
theorem openInvitation_of_le {nowMs laterMs : ℕ} (hle : nowMs ≤ laterMs)
    (h : OpenInvitation laterMs row) : OpenInvitation nowMs row :=
  ⟨h.1, lt_of_le_of_lt hle h.2⟩

/-- The limits stay as time goes by. -/
theorem Limited.later {nowMs laterMs : ℕ} (h : Limited rows nowMs) (hle : nowMs ≤ laterMs) :
    Limited rows laterMs where
  capacity yardId := by
    refine le_trans (Table.count_mono _ fun row _ hopen => ?_) (h.capacity yardId)
    exact ⟨hopen.1, openInvitation_of_le hle hopen.2⟩
  single row hrow row' hrow' hrivals := by
    refine h.single row hrow row' hrow' ⟨hrivals.yard, hrivals.environment, hrivals.email, ?_, ?_⟩
    · exact openInvitation_of_le hle hrivals.left
    · exact openInvitation_of_le hle hrivals.right

/-- A new invitation within the limits. -/
theorem Limited.insert {nowMs : ℕ} (h : Limited rows nowMs) (hrows : rows.Inserted rows' row)
    (hroom : rows.count (OpenIn row.yardId nowMs) < maximumActiveYardGuestInvites)
    (hsingle : ∀ row' ∈ rows, ¬(row'.yardId = row.yardId ∧
      row'.environmentId = row.environmentId ∧ row'.email = row.email ∧
      OpenInvitation nowMs row')) : Limited rows' nowMs where
  capacity yardId := by
    rw [hrows.count (OpenIn yardId nowMs)]
    have hold := h.capacity yardId
    split
    · rename_i hopen
      rw [hopen.1] at hroom
      exact hroom
    · exact hold
  single x hx y hy hrivals := by
    rcases (hrows.mem x).mp hx with hx | rfl <;> rcases (hrows.mem y).mp hy with hy | rfl
    · exact h.single x hx y hy hrivals
    · exact absurd ⟨hrivals.yard, hrivals.environment, hrivals.email, hrivals.left⟩ (hsingle x hx)
    · have hback := hrivals.symm
      exact absurd ⟨hback.yard, hback.environment, hback.email, hback.left⟩ (hsingle y hy)
    · rfl

/-- An invitation that is rewritten, but stays where it was and comes into force no longer than
before. -/
theorem Limited.replace {nowMs : ℕ} {row' : YardGuestInvitationRow} (h : Limited rows nowMs)
    (hrows : rows.Replaced rows' row row') (hyard : row'.yardId = row.yardId)
    (henvironment : row'.environmentId = row.environmentId) (hemail : row'.email = row.email)
    (hopen : OpenInvitation nowMs row' → OpenInvitation nowMs row) : Limited rows' nowMs where
  capacity yardId := by
    refine (hrows.count_le _ fun hin => ?_).trans (h.capacity yardId)
    exact ⟨hyard.symm.trans hin.1, hopen hin.2⟩
  single x hx y hy hrivals := by
    -- a rival of the new row was a rival of the old one, which has none
    have hno : ∀ z ∈ rows, z ≠ row → ¬Rivals nowMs row' z := by
      intro z hz hne hr
      refine hne (h.single row hrows.mem_old z hz ⟨?_, ?_, ?_, hopen hr.left, hr.right⟩).symm
      · exact hyard.symm.trans hr.yard
      · exact henvironment.symm.trans hr.environment
      · exact hemail.symm.trans hr.email
    rcases (hrows.mem x).mp hx with ⟨hx, hxr⟩ | rfl <;>
      rcases (hrows.mem y).mp hy with ⟨hy, hyr⟩ | rfl
    · exact h.single x hx y hy hrivals
    · exact absurd hrivals.symm (hno x hx hxr)
    · exact absurd hrivals (hno y hy hyr)
    · rfl

end Counting

/-! ### One request -/

section Runs

/-- The ledger at its clock: the invitations agree and keep within the limits, and no token was
accepted more often than it was issued. -/
structure Sound (l : Ledger) : Prop where
  invited : Invited l.repository
  limited : Limited l.repository.yardGuestInvitations l.clock
  issued : ∀ tokenHash, (l.accepted.map Prod.snd).count tokenHash +
    l.repository.yardGuestInvitations.count (Carries tokenHash) ≤ l.issued.count tokenHash
  once : (l.accepted.map Prod.fst).Nodup
  done : ∀ id ∈ l.accepted.map Prod.fst,
    ∃ row ∈ l.repository.yardGuestInvitations, some row.id = id ∧ row.status ≠ .pending

variable [Unicode]

theorem sound_init [JsonWriter] : Sound system.init where
  invited := invited_init
  limited := ⟨fun _ => Nat.zero_le _, fun _ h => absurd h Table.not_mem_empty⟩
  issued _ := Nat.zero_le _
  once := List.nodup_nil
  done _ h := absurd h List.not_mem_nil

variable {l : Ledger} {clock : ℕ}

omit [Unicode] in
/-- Nothing happens to the invitations while time goes by. -/
theorem sound_undisturbed (h : Sound l) (hclock : l.clock ≤ clock)
    (hsame : Undisturbed l.repository s') :
    Sound { l with repository := s', clock := clock } where
  invited := invited_of_undisturbed h.invited hsame
  limited := by
    rw [hsame.invitations]
    exact h.limited.later hclock
  issued := by
    rw [hsame.invitations]
    exact h.issued
  once := h.once
  done := by
    rw [hsame.invitations]
    exact h.done

/-- An invitation is created. -/
theorem sound_create {invitation : NewYardGuestInvite} {grant : NewYardAccessGrant}
    {event : NewAuditEvent} {record : YardGuestInviteRecord} (h : Sound l)
    (hclock : l.clock ≤ invitation.createdAtMs)
    (hrun : l.repository.createYardGuestInvite invitation grant event = .ok (record, s')) :
    Sound { l with
      repository := s', clock := invitation.createdAtMs
      issued := invitation.tokenHash :: l.issued } := by
  obtain ⟨yard, roles, grants, rows, audits, rfl, -, -, -, -, -, hvalid, -, hgrants, hrows, -,
    hroom, hsingle, -⟩ := createYardGuestInvite_spec hrun
  refine ⟨invited_create h.invited hvalid hgrants hrows ⟨rfl, rfl, rfl, rfl⟩,
    (h.limited.later hclock).insert hrows hroom hsingle, fun tokenHash => ?_, h.once,
    fun id hid => ?_⟩
  -- the new row carries the token that was just issued
  · have hissued := h.issued tokenHash
    show (l.accepted.map Prod.snd).count tokenHash + rows.count (Carries tokenHash) ≤
      (invitation.tokenHash :: l.issued).count tokenHash
    rw [hrows.count (Carries tokenHash), List.count_cons]
    by_cases htoken : invitation.tokenHash = tokenHash
    · have hcarries : Carries tokenHash (invitationRow invitation) := congrArg some htoken
      rw [if_pos hcarries, if_pos (beq_iff_eq.mpr htoken)]
      omega
    · have hcarries : ¬Carries tokenHash (invitationRow invitation) :=
        fun heq => htoken (Option.some.inj heq)
      rw [if_neg hcarries, if_neg (by simpa using htoken)]
      exact hissued
  · obtain ⟨row, hrow, hdone⟩ := h.done id hid
    exact ⟨row, hrows.mem_of_mem hrow, hdone⟩

/-- An invitation is accepted. -/
theorem sound_accept {tokenHash : String} {subject : YardSubjectRecord}
    {key : YardGuestLoginKeyRecord} {continuation : NewYardContinuation} {event : NewAuditEvent}
    {nowMs : ℕ} {acceptance : YardGuestAcceptance} (h : Sound l) (hclock : l.clock ≤ nowMs)
    (hrun : l.repository.acceptYardGuestInvite tokenHash subject key continuation event nowMs =
      .ok (acceptance, s')) :
    Sound { l with
      repository := s', clock := nowMs
      accepted := (subject.invitationId, tokenHash) :: l.accepted } := by
  obtain ⟨row, rows, subjects, keys, _, _, rfl, hpending, -, hrows, hkind, hinvitation, -, -,
    hsubjects, hksubject, hkinvitation, -, hkexpires, hkeys, hsecret, -⟩ :=
    acceptYardGuestInvite_spec hrun
  refine ⟨invited_accept h.invited hpending.2.1 hrows hkind hinvitation hsubjects hksubject
      hkinvitation hkexpires hkeys hsecret ⟨rfl, rfl, rfl, rfl⟩,
    (h.limited.later hclock).replace hrows rfl rfl rfl fun hopen => ⟨Or.inl hpending.2.1, hopen.2⟩,
    fun tokenHash' => ?_, ?_, fun id hid => ?_⟩
  -- the token moves from the row to the accepted ones
  · have hissued := h.issued tokenHash'
    have hcount := hrows.count (Carries tokenHash')
    have hgone : ¬Carries tokenHash' (acceptedRow subject.id nowMs row) := by
      intro heq
      cases heq
    rw [if_neg hgone] at hcount
    show (tokenHash :: l.accepted.map Prod.snd).count tokenHash' +
      rows.count (Carries tokenHash') ≤ l.issued.count tokenHash'
    rw [List.count_cons]
    by_cases htoken : tokenHash = tokenHash'
    · have hcarries : Carries tokenHash' row := htoken ▸ hpending.1
      rw [if_pos hcarries] at hcount
      rw [if_pos (beq_iff_eq.mpr htoken)]
      omega
    · have hcarries : ¬Carries tokenHash' row :=
        fun heq => htoken (Option.some.inj (hpending.1.symm.trans heq))
      rw [if_neg hcarries] at hcount
      rw [if_neg (by simpa using htoken)]
      omega
  -- a pending invitation has not been accepted before
  · rw [List.map_cons, List.nodup_cons, hinvitation]
    refine ⟨fun hbefore => ?_, h.once⟩
    obtain ⟨row', hrow', hid, hdone⟩ := h.done _ hbefore
    obtain rfl := Table.eq_of_key hrow' hrows.mem_old (Option.some.inj hid)
    exact hdone hpending.2.1
  -- what is accepted is not pending any more
  · rw [List.map_cons, List.mem_cons] at hid
    rcases hid with rfl | hid
    · exact ⟨_, hrows.mem_new, hinvitation.symm, fun hstatus => by cases hstatus⟩
    · obtain ⟨row', hrow', hrid, hdone⟩ := h.done id hid
      refine ⟨row', (hrows.mem row').mpr (Or.inl ⟨hrow', ?_⟩), hrid, hdone⟩
      rintro rfl
      exact hdone hpending.2.1

/-- An invitation is revoked. -/
theorem sound_revoke {yardId invitationId : String} {nowMs : ℕ} {event : NewAuditEvent}
    {record : YardGuestInviteRecord} (h : Sound l) (hclock : l.clock ≤ nowMs)
    (hrun : l.repository.revokeYardGuestInvite yardId invitationId nowMs event =
      .ok (record, s')) :
    Sound { l with repository := s', clock := nowMs } := by
  obtain ⟨row, grant, rows, grants, keys, _, rfl, -, -, -, -, hrows, hgid, -, hgrants, hkeys, -⟩ :=
    revokeYardGuestInvite_spec hrun
  refine ⟨invited_revoke h.invited hrows hgid hgrants hkeys ⟨rfl, rfl, rfl, rfl⟩,
    (h.limited.later hclock).replace hrows rfl rfl rfl ?_, fun tokenHash => ?_, h.once,
    fun id hid => ?_⟩
  · rintro ⟨hstatus | hstatus, -⟩
    · cases hstatus
    · cases hstatus
  · refine le_trans (Nat.add_le_add_left (hrows.count_le _ ?_) _) (h.issued tokenHash)
    intro heq
    cases heq
  · obtain ⟨row', hrow', hrid, hdone⟩ := h.done id hid
    by_cases hrow : row' = row
    · subst hrow
      exact ⟨_, hrows.mem_new, hrid, fun hstatus => by cases hstatus⟩
    · exact ⟨row', (hrows.mem row').mpr (Or.inl ⟨hrow', hrow⟩), hrid, hdone⟩

/-- A request at or after the clock keeps the ledger sound. -/
theorem sound_exec [JsonWriter] {request : Request} (h : Sound l) (htime : OnTime l request) :
    Sound (exec l request) := by
  -- a request without a time does not move the clock
  have hclock : l.clock ≤ request.timeMs.getD l.clock := by
    cases hat : request.timeMs with
    | none => exact le_rfl
    | some nowMs => exact htime nowMs hat
  unfold exec
  cases hrun : request.run l.repository with
  | error e => exact ⟨h.invited, h.limited.later hclock, h.issued, h.once, h.done⟩
  | ok s' =>
    cases request with
    -- the requests on invitations have lemmas of their own, the others disturb none
    | create invitation grant event =>
      simp only [Request.run, map_eq_ok] at hrun
      obtain ⟨⟨_, _⟩, hrun, rfl⟩ := hrun
      exact sound_create h hclock hrun
    | accept tokenHash subject key continuation event nowMs =>
      simp only [Request.run, map_eq_ok] at hrun
      obtain ⟨⟨_, _⟩, hrun, rfl⟩ := hrun
      exact sound_accept h hclock hrun
    | revoke yardId invitationId nowMs event =>
      simp only [Request.run, map_eq_ok] at hrun
      obtain ⟨⟨_, _⟩, hrun, rfl⟩ := hrun
      exact sound_revoke h hclock hrun
    | authenticate secretHash nowMs =>
      exact sound_undisturbed h hclock (undisturbed_of_run id hrun)
    | access request => exact sound_undisturbed h hclock (undisturbed_of_run id hrun)
    | deactivateGroup workspaceId groupId nowMs event =>
      exact sound_undisturbed h hclock (undisturbed_of_run id hrun)
    | createUser user key event =>
      exact sound_undisturbed h hclock (undisturbed_of_run id hrun)
    | deactivateUser userId nowMs event =>
      exact sound_undisturbed h hclock (undisturbed_of_run id hrun)
    | environment other => exact sound_undisturbed h hclock (undisturbed_of_run id hrun)

/-! ### The law over runs -/

/-- The invitation is of no use any more. -/
def Closed (row : YardGuestInvitationRow) (nowMs : ℕ) : Prop :=
  row.status = .revoked ∨ row.expiresAtMs ≤ nowMs

/-- What holds of one invitation across the tables. -/
structure Consistent (s : Repository) (row : YardGuestInvitationRow) : Prop where
  grant : ∃ grant ∈ s.yardAccessGrants, ScopeMatches row grant ∧ LifecycleMatches row grant
  pending : row.status = .pending → row.tokenHash ≠ none ∧ row.acceptedSubjectId = none ∧
    ∀ k ∈ s.yardGuestLoginKeys, k.invitationId ≠ row.id
  accepted : row.status = .accepted → row.tokenHash = none ∧
    ∃ x ∈ s.yardSubjects, row.acceptedSubjectId = some x.id ∧ x.kind = .guest ∧
      x.invitationId = some row.id
  keys : ∀ k ∈ s.yardGuestLoginKeys, k.invitationId = row.id →
    row.acceptedSubjectId = some k.subjectId ∧ k.expiresAtMs = row.expiresAtMs
  unauthenticated : ∀ nowMs, Closed row nowMs → ∀ k ∈ s.yardGuestLoginKeys,
    k.invitationId = row.id → ∀ result,
      s.authenticateYardGuestKey k.secretHash nowMs ≠ .ok result
  unadmitted : ∀ nowMs, Closed row nowMs → ∀ x ∈ s.yardSubjects, x.kind = .guest →
    x.invitationId = some row.id → ∀ hostLabel admission,
      s.evaluateAdmission hostLabel x.id nowMs ≠ .ok admission

/-- What holds of the invitations of a ledger, now and at any later time. -/
structure Lawful (l : Ledger) : Prop where
  capacity : ∀ yardId nowMs, l.clock ≤ nowMs →
    (l.repository.yardGuestInvitations.select fun row =>
      row.yardId = yardId ∧ OpenInvitation nowMs row).length ≤ maximumActiveYardGuestInvites
  single : ∀ nowMs, l.clock ≤ nowMs → ∀ row ∈ l.repository.yardGuestInvitations,
    ∀ row' ∈ l.repository.yardGuestInvitations, row.yardId = row'.yardId →
      row.environmentId = row'.environmentId → row.email = row'.email →
        OpenInvitation nowMs row → OpenInvitation nowMs row' → row = row'
  consistent : ∀ row ∈ l.repository.yardGuestInvitations, Consistent l.repository row
  acceptedOnce : (l.accepted.map Prod.fst).Nodup
  tokenOnce : ∀ tokenHash, (l.accepted.map Prod.snd).count tokenHash ≤ l.issued.count tokenHash

omit [Unicode] in
/-- The invitation behind a key is accepted by the subject of the key. -/
theorem row_of_key (h : Invited s) {row : YardGuestInvitationRow}
    (hrow : row ∈ s.yardGuestInvitations) {k : YardGuestLoginKeyRecord}
    (hk : k ∈ s.yardGuestLoginKeys) (hid : k.invitationId = row.id) :
    row.acceptedSubjectId = some k.subjectId ∧ k.expiresAtMs = row.expiresAtMs := by
  obtain ⟨row', hrow', hid', haccepted, hexpires, -⟩ := h.keys k hk
  obtain rfl := Table.eq_of_key hrow' hrow (hid'.trans hid)
  exact ⟨haccepted, hexpires⟩

omit [Unicode] in
/-- A closed invitation neither authenticates nor admits anybody. -/
theorem closed_is_useless (h : Invited s) {row : YardGuestInvitationRow}
    (hrow : row ∈ s.yardGuestInvitations) {nowMs : ℕ} (hclosed : Closed row nowMs) :
    (∀ k ∈ s.yardGuestLoginKeys, k.invitationId = row.id → ∀ result,
      s.authenticateYardGuestKey k.secretHash nowMs ≠ .ok result) ∧
    ∀ x ∈ s.yardSubjects, x.kind = .guest → x.invitationId = some row.id →
      ∀ hostLabel admission, s.evaluateAdmission hostLabel x.id nowMs ≠ .ok admission := by
  have hnot : ¬(row.status = .accepted ∧ nowMs < row.expiresAtMs) := by
    rintro ⟨haccepted, hopen⟩
    rcases hclosed with hrevoked | hexpired
    · rw [haccepted] at hrevoked
      cases hrevoked
    · omega
  constructor
  · rintro k hk hid ⟨subject, s'⟩ hauthenticated
    obtain ⟨_, key, -, -, hkey, hsecret, -, -, -, hsubject, x, hx, hxid, -, -, row', hrow',
      hinvitation, -, haccepted, -, hopen, -⟩ := authenticateYardGuestKey_spec hauthenticated
    obtain rfl := h.secrets key hkey k hk hsecret
    -- the subject of the key is the one that accepted this invitation
    obtain ⟨x', hx', hxid', -, hinvitation'⟩ :=
      h.subjects row hrow _ (row_of_key h hrow hk hid).1
    obtain rfl := Table.eq_of_key hx' hx (hxid'.trans (hsubject.trans hxid.symm))
    obtain rfl := Table.eq_of_key hrow hrow'
      (Option.some.inj (hinvitation'.symm.trans hinvitation))
    exact hnot ⟨haccepted, hopen⟩
  · intro x hx hkind hinvitation hostLabel admission hadmitted
    obtain ⟨yard, environment, -, -, -, x', hx', hxid, -, hadmits⟩ :=
      evaluateAdmission_sound hadmitted
    obtain rfl := Table.eq_of_key hx' hx hxid
    rw [hkind] at hadmits
    obtain ⟨-, row', hrow', hforce, hinvitation', -⟩ := hadmits
    obtain rfl := Table.eq_of_key hrow hrow'
      (Option.some.inj (hinvitation.symm.trans hinvitation'))
    exact hnot ⟨hforce.2.2.1, hforce.2.2.2.2⟩

omit [Unicode] in
theorem consistent_of_invited (h : Invited s) {row : YardGuestInvitationRow}
    (hrow : row ∈ s.yardGuestInvitations) : Consistent s row where
  grant := h.grants row hrow
  pending hpending := by
    obtain ⟨hnone, -⟩ := unaccepted_of_pending h hrow hpending
    refine ⟨(h.tokens row hrow).mpr hpending, hnone, fun k hk hid => ?_⟩
    rw [(row_of_key h hrow hk hid).1] at hnone
    cases hnone
  accepted haccepted := by
    constructor
    · by_contra htoken
      rw [(h.tokens row hrow).mp htoken] at haccepted
      cases haccepted
    · obtain ⟨grant, -, -, hlife⟩ := h.grants row hrow
      rw [LifecycleMatches, haccepted] at hlife
      obtain ⟨id, hid⟩ := Option.ne_none_iff_exists'.mp hlife.1
      obtain ⟨x, hx, hxid, hguest⟩ := h.subjects row hrow id hid
      exact ⟨x, hx, hid.trans (congrArg some hxid.symm), hguest⟩
  keys _ hk hid := row_of_key h hrow hk hid
  unauthenticated _ hclosed := (closed_is_useless h hrow hclosed).1
  unadmitted _ hclosed := (closed_is_useless h hrow hclosed).2

omit [Unicode] in
theorem Sound.lawful (h : Sound l) : Lawful l where
  capacity yardId nowMs hle := by
    have hbound := (h.limited.later hle).capacity yardId
    rwa [Table.count_eq_sumBy, Table.sumBy_indicator] at hbound
  single nowMs hle row hrow row' hrow' hyard henvironment hemail hopen hopen' :=
    (h.limited.later hle).single row hrow row' hrow' ⟨hyard, henvironment, hemail, hopen, hopen'⟩
  consistent row hrow := consistent_of_invited h.invited hrow
  acceptedOnce := h.once
  tokenOnce tokenHash := by
    have hissued := h.issued tokenHash
    omega

/-- **Guest invitations**: in every run whose requests on invitations come in the order of the
clock, with any other change of the remaining tables in between, the invitations are lawful; the
operations on grants create and revoke no guest grant; and an acceptance that fails changes
nothing. -/
theorem invitation_law [JsonWriter] (h : Run system OnTime l) :
    Lawful l ∧
    (∀ (request : GrantRequest) (s s' : Repository), request.run s = .ok s' →
      s'.yardGuestInvitations = s.yardGuestInvitations ∧
        GuestGrantsKept s.yardAccessGrants s'.yardAccessGrants) ∧
    ∀ tokenHash subject key continuation event nowMs e,
      Request.run l.repository (.accept tokenHash subject key continuation event nowMs) = .error e →
        (exec l (.accept tokenHash subject key continuation event nowMs)).repository =
          l.repository := by
  refine ⟨Sound.lawful ?_, fun request s s' hrun => ?_, fun _ _ _ _ _ _ e hrun => ?_⟩
  · refine Run.inv (P := Sound) sound_init ?_ h
    rintro l request _ hl htime rfl
    exact sound_exec hl htime
  · obtain ⟨grants, audits, rfl, hgrants⟩ := GrantRequest.kept hrun
    exact ⟨rfl, hgrants⟩
  · rw [exec, hrun]

end Runs

/-! ### An invitation that is accepted and revoked -/

attribute [local instance] asciiUnicode compactWriter

/-- The yard of the press, for selected visitors. -/
def selectedPress : Repository :=
  match startPress.run pressProject with
  | .ok s =>
    { s with
      yardAccessPolicies :=
        ⟨[{ yardId := "y", visibility := .selected, updatedAtMs := 20,
            updatedByPrincipal := "owner" }], List.nodup_singleton _⟩ }
  | .error _ => pressProject

/-- The invitation that is told apart by the digit, and the guest who accepts it. -/
def invitationId (digit : Char) : String := "ygi_" ++ String.ofList (List.replicate 32 digit)

def guestId (digit : Char) : String := "guest_" ++ String.ofList (List.replicate 32 digit)

def grantId (digit : Char) : String := String.ofList ['g', digit]

/-- The metadata of the events of the invitation. -/
def invitationMetadata (digit : Char) (subjectId : AuditValue) : List (String × AuditValue) :=
  [("environmentId", .null), ("grantId", .string (grantId digit)),
   ("invitationId", .string (invitationId digit)), ("projectId", .string "p"),
   ("subjectId", subjectId), ("yardId", .string "y")]

/-- A guest is invited with the token of the digit `4`. -/
def invite (digit : Char) (nowMs : ℕ) : Request :=
  .create
    { id := invitationId digit, workspaceId := "w", projectId := "p", yardId := "y",
      environmentId := none, email := String.ofList (digit :: "@example.com".toList),
      tokenHash := repeatedDigit '4', grantId := grantId digit, createdAtMs := nowMs,
      expiresAtMs := 400000 }
    { id := grantId digit, yardId := "y", environmentId := none, principalKind := .guestInvite,
      principalId := invitationId digit, appRoles := [], createdAtMs := nowMs,
      createdByPrincipal := "owner", expiresAtMs := some 400000 }
    (workspaceEvent (String.ofList ['i', digit]) "yard.guest_invite.created" "yard_guest_invite"
      nowMs (invitationMetadata digit .null))

/-- The guest accepts the invitation. -/
def accept (digit : Char) (nowMs : ℕ) : Request :=
  .accept (repeatedDigit '4')
    { id := guestId digit, kind := .guest, workspaceId := "w", localUserId := none,
      invitationId := some (invitationId digit), createdAtMs := nowMs, revokedAtMs := none }
    { id := String.ofList ['k', digit], subjectId := guestId digit,
      invitationId := invitationId digit, workspaceId := "w", tokenPrefix := "key",
      secretHash := repeatedDigit digit, createdAtMs := nowMs, expiresAtMs := 400000,
      lastUsedAtMs := none, revokedAtMs := none }
    { id := String.ofList ['c', digit], continuationHash := repeatedDigit digit,
      codeHash := repeatedDigit digit, yardId := "y", environmentId := "yardenv_y",
      hostLabel := "front-press", userId := guestId digit, returnPath := "/",
      createdAtMs := nowMs, expiresAtMs := nowMs + 60000 }
    (workspaceEvent (String.ofList ['a', digit]) "yard.guest_invite.accepted" "yard_guest_invite"
      nowMs (invitationMetadata digit (.string (guestId digit)))) nowMs

/-- A guest is invited, accepts and loses the invitation again. -/
def visit : List Request :=
  [.environment selectedPress, invite '2' 100, accept '2' 200,
    .revoke "y" (invitationId '2') 300
      (workspaceEvent "revoked" "yard.guest_invite.revoked" "yard_guest_invite" 300
        (invitationMetadata '2' (.string (guestId '2'))))]

/-- The invitation was accepted once, is revoked, and the ledger is lawful. -/
theorem lawful_visit :
    ((visit.foldl exec system.init).accepted = [(some (invitationId '2'), repeatedDigit '4')] ∧
      ∃ row ∈ (visit.foldl exec system.init).repository.yardGuestInvitations,
        row.status = .revoked) ∧
      Lawful (visit.foldl exec system.init) :=
  ⟨by decide +kernel,
    (invitation_law (Run.ofList (fun _ _ => rfl) Run.init (by decide +kernel))).1⟩

/-- An acceptance takes the token from its row, so that a second guest can be invited with it. -/
def reissued : List Request :=
  [.environment selectedPress, invite '2' 100, accept '2' 200, invite '3' 300, accept '3' 400]

/-- A token may be accepted more than once. -/
theorem reissued_token_is_accepted_again :
    ¬∀ l, Run system OnTime l → (l.accepted.map Prod.snd).Nodup := by
  intro h
  have hrun : Run system OnTime (reissued.foldl exec system.init) :=
    Run.ofList (fun _ _ => rfl) Run.init (by decide +kernel)
  have htwice : (reissued.foldl exec system.init).accepted.map Prod.snd =
      [repeatedDigit '4', repeatedDigit '4'] := by decide +kernel
  have hnodup := h _ hrun
  rw [htwice] at hnodup
  exact (List.nodup_cons.mp hnodup).1 List.mem_cons_self

end GuestInvitations

end BlobYard
