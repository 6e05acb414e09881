/-
Reading access grants back.

Every read of a grant validates the row again, and one bad row makes the whole list of a yard
fail.  The writers check their inputs with predicates of their own; all of them imply what the
readers require, but for the principal a guest invitation is created by, of which only the white
space is checked.

* `Decodable` — every stored grant and invitation passes its decoder;
* `Attributed` — the creator of a guest grant is a valid text;
* `readable_of_decodable` — the lists succeed where every row decodes;
* `readable_iff_attributed` — the law: exactly the attributed writes keep the yard readable.
-/
import BlobYard.Lib.Run
import BlobYard.Repository.YardAdmission
import BlobYard.Repository.YardGuests
import BlobYard.Repository.YardRequests

namespace BlobYard

open Outcome Repository

namespace GrantReading

/-! ### Requests and runs -/

/-- The requests that write grants, invitations and environments, or any other change of the
remaining tables. -/
inductive Request where
  | createInvite (invitation : NewYardGuestInvite) (grant : NewYardAccessGrant)
    (event : NewAuditEvent)
  | acceptInvite (tokenHash : String) (subject : YardSubjectRecord)
    (key : YardGuestLoginKeyRecord) (continuation : NewYardContinuation) (event : NewAuditEvent)
    (nowMs : ℕ)
  | revokeInvite (yardId invitationId : String) (nowMs : ℕ) (event : NewAuditEvent)
  | access (request : GrantRequest)
  | deactivateGroup (workspaceId groupId : String) (nowMs : ℕ) (event : NewAuditEvent)
  | yard (request : YardRequest)
  | environment (other : Repository)

section Requests

variable [Unicode] [JsonWriter]

def Request.run (s : Repository) : Request → Except RepositoryError Repository
  | .createInvite invitation grant event =>
    Prod.snd <$> s.createYardGuestInvite invitation grant event
  | .acceptInvite tokenHash subject key continuation event nowMs =>
    Prod.snd <$> s.acceptYardGuestInvite tokenHash subject key continuation event nowMs
  | .revokeInvite yardId invitationId nowMs event =>
    Prod.snd <$> s.revokeYardGuestInvite yardId invitationId nowMs event
  | .access request => request.run s
  | .deactivateGroup workspaceId groupId nowMs event =>
    s.deactivateWorkspaceGroup workspaceId groupId nowMs event
  | .yard request => request.run s
  | .environment other =>
    .ok { other with
      yardAccessGrants := s.yardAccessGrants, yardGuestInvitations := s.yardGuestInvitations
      yardEnvironments := s.yardEnvironments }

/-- A request that fails leaves everything as it was. -/
def exec (s : Repository) (request : Request) : Repository :=
  match request.run s with
  | .ok s' => s'
  | .error _ => s

/-- Requests in any order, from an empty repository. -/
def system : System Repository Request where
  init := Repository.empty
  step s request s' := s' = exec s request

end Requests

/-- The grant of a new invitation names a creator that is a valid text. -/
def Attributed : Request → Prop
  | .createInvite _ grant _ => ValidText grant.createdByPrincipal
  | _ => True

instance : DecidablePred Attributed
  | .createInvite _ grant _ => inferInstanceAs (Decidable (ValidText grant.createdByPrincipal))
  | .acceptInvite .. | .revokeInvite .. | .access _ | .deactivateGroup .. | .yard _
  | .environment _ => inferInstanceAs (Decidable True)

/-! ### The invariant -/

section Invariant

variable [Unicode]

/-- Every stored grant passes its decoder, and every invitation passes its own together with its
grant; the identifiers of the environments, which both may name, are texts. -/
structure Decodable (s : Repository) : Prop where
  environments : ∀ e ∈ s.yardEnvironments, ValidText e.id
  grants : ∀ grant ∈ s.yardAccessGrants, ValidGrant grant
  invitations : ∀ row ∈ s.yardGuestInvitations,
    ∃ grant ∈ s.yardAccessGrants, ValidInvitation row grant

theorem decodable_init : Decodable Repository.empty where
  environments _ h := absurd h Table.not_mem_empty
  grants _ h := absurd h Table.not_mem_empty
  invitations _ h := absurd h Table.not_mem_empty

variable {s s' : Repository} {row : YardGuestInvitationRow} {grant : YardAccessGrantRecord}
  {grants : Table YardAccessGrantRecord.id}

/-- The grant of a new invitation, whose creator is a valid text, passes its decoder. -/
theorem validGrant_of_create {invitation : NewYardGuestInvite}
    {new : NewYardAccessGrant} {roles : List String}
    (hvalid : ValidInvitation (invitationRow invitation) (grantRow new roles))
    (hroles : ValidRoles roles) (hcreator : ValidText new.createdByPrincipal)
    (henvironment : ∀ id ∈ new.environmentId, ValidText id) : ValidGrant (grantRow new roles) where
  texts := by
    have htext : ∀ text ∈ invitationTexts (invitationRow invitation), ValidText text := hvalid.texts
    simp only [invitationTexts, invitationRow, List.forall_mem_cons] at htext
    obtain ⟨hid, -, -, hyard, -, hgrant, -⟩ := htext
    have hscope := hvalid.scope
    simp only [List.forall_mem_cons]
    refine ⟨?_, ?_, ?_, hcreator, List.forall_mem_nil _⟩
    · rw [hscope.id]
      exact hgrant
    · rw [hscope.yard]
      exact hyard
    · rw [hscope.principal]
      exact hid
  environment := henvironment
  lifecycle := rfl
  expiry := by
    intro atMs hat
    rw [hvalid.scope.expires, Option.mem_some_iff] at hat
    have hlifetime := hvalid.lifetime
    have hcreated : new.createdAtMs = (invitationRow invitation).createdAtMs := hvalid.scope.created
    show new.createdAtMs ≤ atMs
    omega
  roles := hroles

/-- The decoder of an invitation looks at everything of the grant but its roles, creator and
identity. -/
theorem validInvitation_of_roles {roles : List String} (h : ValidInvitation row grant) :
    ValidInvitation row { grant with appRoles := roles } where
  texts := h.texts
  scope := ⟨h.scope.id, h.scope.yard, h.scope.environment, h.scope.kind, h.scope.principal,
    h.scope.created, h.scope.expires⟩
  lifecycle := h.lifecycle
  lifetime := h.lifetime
  email := h.email

/-- A pending invitation still decodes when it is accepted. -/
theorem validInvitation_accepted {subjectId : String} {nowMs : ℕ} (h : ValidInvitation row grant)
    (hpending : row.status = .pending) : ValidInvitation (acceptedRow subjectId nowMs row) grant where
  texts := h.texts
  scope := ⟨h.scope.id, h.scope.yard, h.scope.environment, h.scope.kind, h.scope.principal,
    h.scope.created, h.scope.expires⟩
  lifecycle := by
    have hlife := h.lifecycle
    rw [LifecycleMatches, hpending] at hlife
    obtain ⟨-, -, hunrevoked, hactive, hlive⟩ := hlife
    exact ⟨Option.some_ne_none _, Option.some_ne_none _, hunrevoked, hactive, hlive⟩
  lifetime := h.lifetime
  email := h.email

/-- An invitation still decodes when it is revoked together with its grant. -/
theorem validInvitation_revoked {nowMs : ℕ} (h : ValidInvitation row grant) :
    ValidInvitation (revokedRow nowMs row)
      { grant with status := .revoked, revokedAtMs := some nowMs } where
  texts := h.texts
  scope := ⟨h.scope.id, h.scope.yard, h.scope.environment, h.scope.kind, h.scope.principal,
    h.scope.created, h.scope.expires⟩
  lifecycle := ⟨Option.some_ne_none _, rfl, rfl⟩
  lifetime := h.lifetime
  email := h.email

omit [Unicode] in
/-- A grant still decodes when it is revoked no earlier than it was created. -/
theorem validGrant_revoked {nowMs : ℕ} (h : ValidGrant grant) (htime : grant.createdAtMs ≤ nowMs) :
    ValidGrant { grant with status := .revoked, revokedAtMs := some nowMs } where
  texts := h.texts
  environment := h.environment
  lifecycle := by simpa using htime
  expiry := h.expiry
  roles := h.roles

/-! ### One request -/

/-- A new grant that decodes. -/
theorem decodable_insertGrant (h : Decodable s) (hgrants : s.yardAccessGrants.Inserted grants grant)
    (hvalid : ValidGrant grant)
    (hs : s'.yardEnvironments = s.yardEnvironments ∧ s'.yardAccessGrants = grants ∧
      s'.yardGuestInvitations = s.yardGuestInvitations) : Decodable s' := by
  obtain ⟨he, rfl, hi⟩ := hs
  refine ⟨?_, ?_, ?_⟩
  · rw [he]
    exact h.environments
  · intro g hg
    rcases (hgrants.mem g).mp hg with hg | rfl
    · exact h.grants g hg
    · exact hvalid
  · rw [hi]
    intro row hrow
    obtain ⟨g, hg, hrowValid⟩ := h.invitations row hrow
    exact ⟨g, hgrants.mem_of_mem hg, hrowValid⟩

/-- A grant that is rewritten, decodes and still fits its invitation. -/
theorem decodable_replaceGrant {grant' : YardAccessGrantRecord} (h : Decodable s)
    (hgrants : s.yardAccessGrants.Replaced grants grant grant') (hvalid : ValidGrant grant')
    (hinvited : ∀ row ∈ s.yardGuestInvitations, ValidInvitation row grant →
      ValidInvitation row grant')
    (hs : s'.yardEnvironments = s.yardEnvironments ∧ s'.yardAccessGrants = grants ∧
      s'.yardGuestInvitations = s.yardGuestInvitations) : Decodable s' := by
  obtain ⟨he, rfl, hi⟩ := hs
  refine ⟨?_, ?_, ?_⟩
  · rw [he]
    exact h.environments
  · intro g hg
    rcases (hgrants.mem g).mp hg with ⟨hg, -⟩ | rfl
    · exact h.grants g hg
    · exact hvalid
  · rw [hi]
    intro row hrow
    obtain ⟨g, hg, hrowValid⟩ := h.invitations row hrow
    by_cases hgrant : g = grant
    · subst hgrant
      exact ⟨grant', hgrants.mem_new, hinvited row hrow hrowValid⟩
    · exact ⟨g, (hgrants.mem g).mpr (Or.inl ⟨hg, hgrant⟩), hrowValid⟩

theorem decodable_access [JsonWriter] {request : GrantRequest} (h : Decodable s)
    (hrun : request.run s = .ok s') : Decodable s' := by
  cases request with
  | insert grant event =>
    simp only [GrantRequest.run, map_eq_ok] at hrun
    obtain ⟨⟨_, _⟩, hrun, rfl⟩ := hrun
    obtain ⟨_, grants, _, rfl, -, -, -, hvalid, -, hgrants⟩ := insertYardAccessGrant_spec hrun
    exact decodable_insertGrant h hgrants hvalid ⟨rfl, rfl, rfl⟩
  | revoke yardId grantId revokedAtMs event =>
    simp only [GrantRequest.run, map_eq_ok] at hrun
    obtain ⟨⟨_, _⟩, hrun, rfl⟩ := hrun
    rcases revokeYardAccessGrant_spec hrun with rfl | ⟨grant, grants, _, rfl, -, hkind, htime, hgrants⟩
    · exact h
    · refine decodable_replaceGrant h hgrants ?_ (fun row _ hrowValid => ?_) ⟨rfl, rfl, rfl⟩
      · exact validGrant_revoked (h.grants grant hgrants.mem_old) htime
      · exact absurd hrowValid.scope.kind hkind
  | setRoles yardId grantId appRoles nowMs event =>
    simp only [GrantRequest.run, map_eq_ok] at hrun
    obtain ⟨⟨_, _⟩, hrun, rfl⟩ := hrun
    obtain ⟨grant, roles, grants, _, rfl, -, rfl, hvalid, hgrants⟩ := setYardAccessRoles_spec hrun
    exact decodable_replaceGrant h hgrants hvalid
      (fun _ _ hrowValid => validInvitation_of_roles hrowValid) ⟨rfl, rfl, rfl⟩

theorem decodable_create {invitation : NewYardGuestInvite} {new : NewYardAccessGrant}
    {event : NewAuditEvent} {record : YardGuestInviteRecord} (h : Decodable s)
    (hcreator : ValidText new.createdByPrincipal)
    (hrun : s.createYardGuestInvite invitation new event = .ok (record, s')) : Decodable s' := by
  obtain ⟨_, roles, grants, rows, _, rfl, -, -, -, -, hroles, hvalid, henvironment, hgrants, hrows,
    -⟩ := createYardGuestInvite_spec hrun
  have hscope : new.environmentId = invitation.environmentId := hvalid.scope.environment
  have hgrantValid : ValidGrant (grantRow new roles) := by
    refine validGrant_of_create hvalid hroles hcreator fun id hid => ?_
    obtain ⟨e, he, rfl, -⟩ := henvironment id (hscope ▸ hid)
    exact h.environments e he
  have hgranted : Decodable { s with yardAccessGrants := grants } :=
    decodable_insertGrant h hgrants hgrantValid ⟨rfl, rfl, rfl⟩
  refine ⟨hgranted.environments, hgranted.grants, fun row hrow => ?_⟩
  rcases (hrows.mem row).mp hrow with hrow | rfl
  · exact hgranted.invitations row hrow
  · exact ⟨_, hgrants.mem_new, hvalid⟩

theorem decodable_accept {tokenHash : String} {subject : YardSubjectRecord}
    {key : YardGuestLoginKeyRecord} {continuation : NewYardContinuation} {event : NewAuditEvent}
    {nowMs : ℕ} {acceptance : YardGuestAcceptance} (h : Decodable s)
    (hrun : s.acceptYardGuestInvite tokenHash subject key continuation event nowMs =
      .ok (acceptance, s')) : Decodable s' := by
  obtain ⟨row, rows, _, _, _, _, rfl, hpending, -, hrows, -⟩ := acceptYardGuestInvite_spec hrun
  refine ⟨h.environments, h.grants, fun row' hrow' => ?_⟩
  rcases (hrows.mem row').mp hrow' with ⟨hold, -⟩ | rfl
  · exact h.invitations row' hold
  · obtain ⟨g, hg, hvalid⟩ := h.invitations row hrows.mem_old
    exact ⟨g, hg, validInvitation_accepted hvalid hpending.2.1⟩

theorem decodable_revoke {yardId invitationId : String} {nowMs : ℕ} {event : NewAuditEvent}
    {record : YardGuestInviteRecord} (h : Decodable s)
    (hrun : s.revokeYardGuestInvite yardId invitationId nowMs event = .ok (record, s')) :
    Decodable s' := by
  obtain ⟨row, grant, rows, grants, _, _, rfl, -, -, -, -, hrows, hgid, htime, hgrants, -⟩ :=
    revokeYardGuestInvite_spec hrun
  obtain ⟨g, hg, hvalid⟩ := h.invitations row hrows.mem_old
  obtain rfl := Table.eq_of_key hg hgrants.mem_old (hvalid.scope.id.trans hgid.symm)
  refine ⟨h.environments, fun g' hg' => ?_, fun row' hrow' => ?_⟩
  · rcases (hgrants.mem g').mp hg' with ⟨hold, -⟩ | rfl
    · exact h.grants g' hold
    · exact validGrant_revoked (h.grants g hg) htime
  · rcases (hrows.mem row').mp hrow' with ⟨hold, hne⟩ | rfl
    · obtain ⟨g', hg', hvalid'⟩ := h.invitations row' hold
      -- the grant names its invitation, so no other invitation shares it
      refine ⟨g', (hgrants.mem g').mpr (Or.inl ⟨hg', ?_⟩), hvalid'⟩
      rintro rfl
      exact hne (Table.eq_of_key hold hrows.mem_old
        (hvalid'.scope.principal.symm.trans hvalid.scope.principal))
    · exact ⟨_, hgrants.mem_new, validInvitation_revoked hvalid⟩

theorem decodable_deactivateGroup {workspaceId groupId : String} {nowMs : ℕ}
    {event : NewAuditEvent} (h : Decodable s)
    (hrun : s.deactivateWorkspaceGroup workspaceId groupId nowMs event = .ok s') :
    Decodable s' := by
  obtain ⟨_, _, _, rfl, -, -, htimes, -, -⟩ := deactivateWorkspaceGroup_spec hrun
  have hmapped : s.yardAccessGrants.Mapped _ _ := Table.mapped_update (p := ActiveGroupGrant groupId)
    (f := fun grant => { grant with status := .revoked, revokedAtMs := some nowMs })
  refine ⟨h.environments, fun g' hg' => ?_, fun row hrow => ?_⟩
  · obtain ⟨g, hg, rfl⟩ := hmapped.mem_iff.mp hg'
    split
    · rename_i hgroup
      exact validGrant_revoked (h.grants g hg) (htimes g hg hgroup)
    · exact h.grants g hg
  · obtain ⟨g, hg, hvalid⟩ := h.invitations row hrow
    refine ⟨g, ?_, hvalid⟩
    have hother : ¬ActiveGroupGrant groupId g := by
      rintro ⟨hkind, -⟩
      rw [hvalid.scope.kind] at hkind
      cases hkind
    have hmem := hmapped.mem_of_mem hg
    rwa [if_neg hother] at hmem

/-- Every attributed request keeps the rows decodable. -/
theorem decodable_run [JsonWriter] {request : Request} (h : Decodable s)
    (hattributed : Attributed request) (hrun : request.run s = .ok s') : Decodable s' := by
  cases request with
  | createInvite invitation grant event =>
    simp only [Request.run, map_eq_ok] at hrun
    obtain ⟨⟨_, _⟩, hrun, rfl⟩ := hrun
    exact decodable_create h hattributed hrun
  | acceptInvite tokenHash subject key continuation event nowMs =>
    simp only [Request.run, map_eq_ok] at hrun
    obtain ⟨⟨_, _⟩, hrun, rfl⟩ := hrun
    exact decodable_accept h hrun
  | revokeInvite yardId invitationId nowMs event =>
    simp only [Request.run, map_eq_ok] at hrun
    obtain ⟨⟨_, _⟩, hrun, rfl⟩ := hrun
    exact decodable_revoke h hrun
  | access request => exact decodable_access h hrun
  | deactivateGroup workspaceId groupId nowMs event => exact decodable_deactivateGroup h hrun
  | yard request =>
    obtain ⟨_, environments, _, _, _, _, _, rfl, hfrom⟩ := YardRequest.hosting hrun
    refine ⟨fun e he => ?_, h.grants, h.invitations⟩
    rcases hfrom e he with hold | hid
    · exact h.environments e hold
    · exact hid
  | environment other =>
    simp only [Request.run, Except.ok.injEq] at hrun
    subst hrun
    exact ⟨h.environments, h.grants, h.invitations⟩

/-! ### Reading -/

/-- The lists of every yard, asked for properly, are returned, and no admission query fails over
a stored row. -/
structure Readable (s : Repository) : Prop where
  grants : ∀ yardId nowMs, ValidText yardId → nowMs ≤ i64Max →
    ∃ grants, s.listYardAccessGrants yardId nowMs = .ok grants
  invitations : ∀ yardId (cursor : Option YardGuestInviteCursor) limit, ValidText yardId →
    (∀ position ∈ cursor, position.createdAtMs ≤ i64Max ∧ ValidText position.id) → limit ≠ 0 →
      limit ≤ yardGuestInvitePageSize → ∃ page, s.listYardGuestInvites yardId cursor limit = .ok page
  admission : ∀ hostLabel subjectId nowMs,
    s.evaluateAdmission hostLabel subjectId nowMs ≠ .error .unavailable

omit [Unicode] in
/-- Admission compares columns and decodes nothing. -/
theorem evaluateAdmission_available (hostLabel subjectId : String) (nowMs : ℕ) :
    s.evaluateAdmission hostLabel subjectId nowMs ≠ .error .unavailable := by
  intro h
  simp only [evaluateAdmission, validateHostLabel, validateText, requireRow, bind_eq_error,
    ensure_eq_error, ofOption_eq_error, reduceCtorEq, and_false, exists_false, false_or] at h
  obtain ⟨_, -, _, -, subject, -, h⟩ := h
  split at h
  · simp only [evaluateGuest, requireRow, pure, Except.pure, bind_eq_error, ofOption_eq_error,
      reduceCtorEq, and_false, false_or, exists_false] at h
  · simp only [evaluateMember, requireRow, bind_eq_error, ofOption_eq_error, reduceCtorEq,
      and_false, false_or, exists_false] at h

omit [Unicode] in
/-- The list of grants succeeds exactly when the selected rows decode. -/
theorem listYardAccessGrants_ok_iff {yardId : String} {nowMs : ℕ} (hyard : ValidText yardId)
    (htime : nowMs ≤ i64Max) : (∃ grants, s.listYardAccessGrants yardId nowMs = .ok grants) ↔
      ∀ g ∈ s.yardAccessGrants, g.yardId = yardId → g.status = .active →
        (∀ expires ∈ g.expiresAtMs, nowMs < expires) → ValidGrant g := by
  have hchecks : s.listYardAccessGrants yardId nowMs = (orderBy
      (fun g : YardAccessGrantRecord =>
        toLex (OrderDual.toDual g.createdAtMs, OrderDual.toDual g.id))
      (s.yardAccessGrants.select fun g => g.yardId = yardId ∧ g.status = .active ∧
        ∀ expires ∈ g.expiresAtMs, nowMs < expires)).mapM decodeGrant := by
    rw [listYardAccessGrants, validateText, toI64, ensure, ensure, if_pos hyard, if_pos htime]
    rfl
  rw [hchecks, mapM_ok_iff]
  constructor
  · intro h g hg hgyard hactive hopen
    obtain ⟨_, hdecoded⟩ := h g (mem_orderBy.mpr (Table.mem_select.mpr ⟨hg, hgyard, hactive, hopen⟩))
    exact (decodeGrant_eq_ok.mp hdecoded).1
  · intro h g hg
    obtain ⟨hg, hgyard, hactive, hopen⟩ := Table.mem_select.mp (mem_orderBy.mp hg)
    exact ⟨g, decodeGrant_eq_ok.mpr ⟨h g hg hgyard hactive hopen, rfl⟩⟩

/-- Invitations that decode are listed. -/
theorem listYardGuestInvites_ok (h : Decodable s) {yardId : String}
    {cursor : Option YardGuestInviteCursor} {limit : ℕ} (hyard : ValidText yardId)
    (hcursor : ∀ position ∈ cursor, position.createdAtMs ≤ i64Max ∧ ValidText position.id)
    (hzero : limit ≠ 0) (hlimit : limit ≤ yardGuestInvitePageSize) :
    ∃ page, s.listYardGuestInvites yardId cursor limit = .ok page := by
  have hdecoded : ∀ rows : List YardGuestInvitationRow, (∀ row ∈ rows, row ∈ s.yardGuestInvitations) →
      ∃ records, s.decodeJoined rows = .ok records := by
    intro rows hrows
    refine mapM_ok_iff.mpr fun joined hjoined => ?_
    obtain ⟨row, hrow, hjoin⟩ := List.mem_filterMap.mp hjoined
    obtain ⟨grant, hgrant, rfl⟩ := Option.map_eq_some_iff.mp hjoin
    obtain ⟨hmem, hid, -⟩ := grantOf_eq_some.mp hgrant
    obtain ⟨grant', hmem', hvalid⟩ := h.invitations row (hrows row hrow)
    obtain rfl := Table.eq_of_key hmem' hmem (hvalid.scope.id.trans hid.symm)
    refine ⟨inviteRecord row grant', ?_⟩
    rw [decodeInvitation, ensure, if_pos hvalid]
    rfl
  simp only [listYardGuestInvites, bind_eq_ok, pure_eq_ok]
  obtain ⟨records, hrecords⟩ := hdecoded
    ((orderBy invitationOrder (s.yardGuestInvitations.select fun row =>
      row.yardId = yardId ∧ (s.grantOf row).isSome ∧ ∀ position ∈ cursor,
        row.createdAtMs < position.createdAtMs ∨
          (row.createdAtMs = position.createdAtMs ∧ row.id < position.id))).take (limit + 1))
    fun row hrow => (Table.mem_select.mp (mem_orderBy.mp (List.mem_of_mem_take hrow))).1
  refine ⟨_, (), ensure_eq_ok.mpr hyard, (), ensure_eq_ok.mpr ⟨hzero, hlimit⟩, (),
    forM_eq_ok.mpr fun position hposition => ?_, records, hrecords, rfl⟩
  obtain ⟨htime, htext⟩ := hcursor position (Option.mem_toList.mp hposition)
  simp only [bind_eq_ok]
  exact ⟨(), toI64_eq_ok.mpr htime, ensure_eq_ok.mpr htext⟩

/-- Where every row decodes, every list is returned. -/
theorem readable_of_decodable (h : Decodable s) : Readable s where
  grants _ _ hyard htime := (listYardAccessGrants_ok_iff hyard htime).mpr
    fun g hg _ _ _ => h.grants g hg
  invitations _ _ _ hyard hcursor hzero hlimit := listYardGuestInvites_ok h hyard hcursor hzero hlimit
  admission := evaluateAdmission_available

/-- The grant of an invitation by nobody cannot be read back. -/
theorem attributed_of_readable {invitation : NewYardGuestInvite} {new : NewYardAccessGrant}
    {event : NewAuditEvent} {record : YardGuestInviteRecord} (h : Readable s')
    (hrun : s.createYardGuestInvite invitation new event = .ok (record, s')) :
    ValidText new.createdByPrincipal := by
  obtain ⟨_, roles, grants, _, _, rfl, -, -, -, -, -, hvalid, -, hgrants, -⟩ :=
    createYardGuestInvite_spec hrun
  have hyard : ValidText new.yardId := by
    rw [show new.yardId = invitation.yardId from hvalid.scope.yard]
    exact hvalid.texts _ (by simp [invitationTexts, invitationRow])
  have hlist := (listYardAccessGrants_ok_iff hyard (Nat.zero_le _)).mp (h.grants _ 0 hyard (Nat.zero_le _))
  have hgrant := hlist (grantRow new roles) hgrants.mem_new rfl rfl fun expires hexpires => by
    rw [hvalid.scope.expires, Option.mem_some_iff] at hexpires
    have hlifetime := hvalid.lifetime
    omega
  exact hgrant.texts _ (by simp [grantRow])

/-! ### The law over runs -/

/-- **Reading back**: in every run in which the creators of guest grants are valid texts, the
grants and invitations of every yard can be listed; and from there an accepted request, whatever
it is, leaves them readable exactly when its creator, if it is a guest invitation, is one too. -/
theorem readable_iff_attributed [JsonWriter]
    (h : Run system (fun _ request => Attributed request) s) :
    Readable s ∧ ∀ request s', request.run s = .ok s' → (Readable s' ↔ Attributed request) := by
  have hdecodable : Decodable s := by
    refine Run.inv (P := Decodable) decodable_init ?_ h
    rintro s request _ hs hattributed rfl
    unfold exec
    cases hrun : request.run s with
    | error e => exact hs
    | ok s' => exact decodable_run hs hattributed hrun
  refine ⟨readable_of_decodable hdecodable, fun request s' hrun => ⟨fun hreadable => ?_, fun hwell =>
    readable_of_decodable (decodable_run hdecodable hwell hrun)⟩⟩
  cases request with
  | createInvite invitation grant event =>
    simp only [Request.run, map_eq_ok] at hrun
    obtain ⟨⟨_, _⟩, hrun, rfl⟩ := hrun
    exact attributed_of_readable hreadable hrun
  | acceptInvite tokenHash subject key continuation event nowMs => exact trivial
  | revokeInvite yardId invitationId nowMs event => exact trivial
  | access request => exact trivial
  | deactivateGroup workspaceId groupId nowMs event => exact trivial
  | yard request => exact trivial
  | environment other => exact trivial

end Invariant

/-! ### An invitation by nobody -/

attribute [local instance] asciiUnicode compactWriter

def invitationId : String := "ygi_88888888888888888888888888888888"

/-- Invites a guest to the yard in the name of `creator`. -/
def inviteRequest (creator : String) : Request :=
  .createInvite
    { id := invitationId, workspaceId := "w", projectId := "p", yardId := "y",
      environmentId := none, email := "reader@example.com", tokenHash := repeatedDigit '9',
      grantId := "g", createdAtMs := 100, expiresAtMs := 500000 }
    { id := "g", yardId := "y", environmentId := none, principalKind := .guestInvite,
      principalId := invitationId, appRoles := [], createdAtMs := 100,
      createdByPrincipal := creator, expiresAtMs := some 500000 }
    (workspaceEvent "invited" "yard.guest_invite.created" "yard_guest_invite" 100
      [("environmentId", .null), ("grantId", .string "g"), ("invitationId", .string invitationId),
       ("projectId", .string "p"), ("subjectId", .null), ("yardId", .string "y")])

/-- The press, with an invitation in the name of `creator`. -/
def invitedPress (creator : String) : Repository :=
  ([.environment pressProject, .yard startPress, inviteRequest creator] : List Request).foldl exec
    Repository.empty

/-- The invitation by the owner is there and can be read. -/
theorem readable_invitedPress :
    (∃ g ∈ (invitedPress "owner").yardAccessGrants, g.id = "g") ∧ Readable (invitedPress "owner") :=
  ⟨by decide +kernel,
    (readable_iff_attributed (Run.ofList (fun _ _ => rfl) Run.init (by decide +kernel))).1⟩

/-- The invitation by the empty text is accepted, and the grants of the yard cannot be listed any
more. -/
theorem anonymous_invite_breaks_list :
    Run system (fun _ _ => True) (invitedPress "") ∧
      (∃ g ∈ (invitedPress "").yardAccessGrants, g.id = "g") ∧
      (invitedPress "").listYardAccessGrants "y" 200 = .error .unavailable :=
  ⟨Run.ofList_true (fun _ _ => rfl) Run.init _, by decide +kernel⟩

end GrantReading

end BlobYard
