/-
The listings that come in pages are complete.

* `Visited` — following the cursors visits all rows once, in order, and stops, with the cursors
  as they are and with the cursors as texts;
* `AuditComplete`, `GroupsComplete`, `MembersComplete`, `InvitesComplete`, `RolesComplete`;
* `pagination_law` — the five listings in every reachable repository, and the texts of cursors;
* `longIds_refused` — a text that is too long is refused.
-/
import BlobYard.Laws.StoredRows
import BlobYard.Lib.Keyset
import BlobYard.Server.Cursors

namespace BlobYard

open Outcome Repository

namespace Pagination

open Keyset StoredRows

/-! ### Complete listings -/

/-- Following the cursors of the listing visits the rows, each once and in the order of the keys,
and stops; so it does with the cursors as texts, when these are within the limit. -/
structure Visited {α β γ κ π : Type} [LinearOrder κ] (list : Option γ → Except RepositoryError π)
    (items : π → List β) (next : π → Option γ) (encode : γ → String)
    (decode : Option String → Except ApiError (Option γ)) (cursor : α → γ) (key : γ → κ)
    (read : α → β) (rows visited : List α) : Prop where
  once : visited.Perm rows
  ordered : visited.Pairwise fun a b => key (cursor a) < key (cursor b)
  follows : Follows list items next none (visited.map read)
  texts : (∀ row ∈ rows, (encode (cursor row)).utf8ByteSize ≤ Server.maximumCursorLength) →
    Follows (written (fun position => (list position).mapError ApiError.fromRepository) decode)
      items (fun page => (next page).map encode) none (visited.map read)

section Rule

variable {α β γ κ π : Type} [LinearOrder κ] {list : Option γ → Except RepositoryError π}
  {items : π → List β} {next : π → Option γ} {encode : γ → String}
  {decode : Option String → Except ApiError (Option γ)} {cursor : α → γ} {key : γ → κ}
  {read : α → β} {rows : List α} {limit : ℕ}

/-- A listing that cuts its rows into pages is complete. -/
theorem visited_of_paged (h : Paged list items next cursor key read limit rows)
    (hstart : decode none = .ok none)
    (hwritten : ∀ row ∈ rows,
      (encode (cursor row)).utf8ByteSize ≤ Server.maximumCursorLength →
        decode (some (encode (cursor row))) = .ok (some (cursor row))) :
    ∃ visited, Visited list items next encode decode cursor key read rows visited := by
  refine ⟨orderBy (fun row => key (cursor row)) rows, orderBy_perm _ rows, h.sorted, h.follows,
    fun hfits => ?_⟩
  have hmapped : Paged (fun position => (list position).mapError ApiError.fromRepository) items next
      cursor key read limit rows := by
    refine ⟨h.positive, h.nodup, h.inj, fun position hposition => ?_⟩
    obtain ⟨page, hpage, hat⟩ := h.page position hposition
    exact ⟨page, by rw [hpage]; rfl, hat⟩
  exact hmapped.follows_written hstart fun row hrow => hwritten row hrow (hfits row hrow)

end Rule

/-! ### Newest first -/

theorem newestFirst_lt {atMs atMs' : ℕ} {id id' : String} :
    newestFirst atMs id < newestFirst atMs' id' ↔ atMs' < atMs ∨ (atMs' = atMs ∧ id' < id) := by
  rw [newestFirst, newestFirst, Prod.Lex.toLex_lt_toLex, OrderDual.toDual_lt_toDual,
    OrderDual.toDual_lt_toDual, EmbeddingLike.apply_eq_iff_eq, eq_comm]

theorem newestFirst_inj {atMs atMs' : ℕ} {id id' : String}
    (h : newestFirst atMs id = newestFirst atMs' id') : atMs = atMs' ∧ id = id' := by
  simpa [newestFirst] using h

/-- A selection by two conditions is one of the rows selected by the first. -/
theorem select_and {ρ κ : Type} {key : ρ → κ} {t : Table key} {p q : ρ → Prop} [DecidablePred p]
    [DecidablePred q] :
    (t.select fun row => p row ∧ q row) = (t.select p).filter fun row => q row := by
  rw [Table.select, Table.select, List.filter_filter]
  refine List.filter_congr fun row _ => ?_
  rw [Bool.decide_and, Bool.and_comm]

/-- Rows that their decoder takes are read one by one. -/
theorem mapM_decode {α β : Type} {decode : α → Except RepositoryError β} {read : α → β}
    {rows : List α} (h : ∀ row ∈ rows, decode row = .ok (read row)) :
    rows.mapM decode = .ok (rows.map read) := by
  induction rows with
  | nil => rfl
  | cons row rows ih =>
    exact mapM_cons_eq_ok.mpr ⟨read row, _, h row List.mem_cons_self,
      ih fun other hother => h other (List.mem_cons_of_mem row hother), rfl⟩

variable {s : Repository}

/-! ### The audit trail -/

/-- The events of the workspace. -/
def auditRows (s : Repository) (workspaceId : String) : List AuditEventRecord :=
  s.auditEvents.select fun row => row.event.workspaceId = workspaceId

/-- The page of at most one row more than the limit. -/
theorem audit_page {limit : ℕ} {fetched : List AuditEventRecord} (hpositive : 0 < limit)
    (hlength : fetched.length ≤ limit + 1) :
    (if (fetched.zipIdx.any fun item => item.2 == limit) = true then fetched.dropLast
        else fetched) = fetched.take limit ∧
      (if (fetched.zipIdx.any fun item => item.2 == limit) = true then
        (if (fetched.zipIdx.any fun item => item.2 == limit) = true then fetched.dropLast
          else fetched).getLast?.map AuditEventRecord.sequence else none) =
        if limit < fetched.length then fetched[limit - 1]?.map AuditEventRecord.sequence
        else none := by
  -- some index is the limit exactly when there is one row more than asked for
  have hmore : (fetched.zipIdx.any fun item => item.2 == limit) = true ↔
      limit < fetched.length := by
    rw [List.any_eq_true]
    constructor
    · rintro ⟨⟨event, index⟩, hmem, hindex⟩
      have hget := List.mem_zipIdx_iff_getElem?.mp hmem
      obtain ⟨hlt, -⟩ := List.getElem?_eq_some_iff.mp hget
      rwa [beq_iff_eq.mp hindex] at hlt
    · intro hlt
      exact ⟨(fetched.get ⟨limit, hlt⟩, limit),
        List.mem_zipIdx_iff_getElem?.mpr (List.getElem?_eq_getElem hlt), beq_self_eq_true limit⟩
  by_cases hlt : limit < fetched.length
  · have hdrop : fetched.dropLast = fetched.take limit := by
      rw [List.dropLast_eq_take]
      congr 1
      omega
    rw [if_pos (hmore.mpr hlt), if_pos (hmore.mpr hlt), if_pos hlt, hdrop]
    refine ⟨rfl, ?_⟩
    rw [List.getLast?_eq_getElem?, List.length_take_of_le (le_of_lt hlt),
      List.getElem?_take_of_lt (by omega)]
  -- without a row more there is no next page
  · rw [if_neg (mt hmore.mp hlt), if_neg (mt hmore.mp hlt), if_neg hlt]
    exact ⟨(List.take_of_length_le (not_lt.mp hlt)).symm, rfl⟩

theorem audit_paged {workspaceId : String} {limit : ℕ} (hworkspace : ValidText workspaceId)
    (hlow : 1 ≤ limit) (hhigh : limit ≤ 100)
    (hsequence : ∀ row ∈ s.auditEvents, row.sequence ≤ i64Max) :
    Paged (fun before => s.listAudit workspaceId before limit) AuditPage.items AuditPage.nextBefore
      AuditEventRecord.sequence OrderDual.toDual auditRow limit (auditRows s workspaceId) where
  positive := hlow
  nodup := Table.select_nodup
  inj a ha b hb heq :=
    Table.eq_of_key (Table.mem_select.mp ha).1 (Table.mem_select.mp hb).1
      (OrderDual.toDual.injective heq)
  page before hbefore := by
    -- the filter of the query is the tail of the ordered rows behind the cursor
    have hrows : orderBy (fun row : AuditEventRecord => OrderDual.toDual row.sequence)
        (s.auditEvents.select fun row =>
          row.event.workspaceId = workspaceId ∧ ∀ sequence ∈ before, row.sequence < sequence) =
        rowsBehind AuditEventRecord.sequence OrderDual.toDual (auditRows s workspaceId) before := by
      rw [select_and]
      exact orderBy_behind (fun _ => rfl) fun row => Iff.rfl
    -- a cursor comes from a row, so its sequence passes the check
    have htimes : forM before.toList toI64 = .ok () := by
      rw [forM_eq_ok]
      intro sequence hmem
      obtain ⟨row, hrow, rfl⟩ := hbefore sequence (Option.mem_toList.mp hmem)
      exact toI64_eq_ok.mpr (hsequence row (Table.mem_select.mp hrow).1)
    generalize hbehind : rowsBehind AuditEventRecord.sequence OrderDual.toDual
      (auditRows s workspaceId) before = behind at hrows
    have hlength : ((behind.take (limit + 1)).map auditRow).length ≤ limit + 1 := by
      rw [List.length_map, List.length_take]
      exact Nat.min_le_left _ _
    obtain ⟨hitems, hnext⟩ := audit_page hlow hlength
    -- the page is what the two cases of `audit_page` say of these rows
    have hpage : s.listAudit workspaceId before limit =
        .ok { items := ((behind.take (limit + 1)).map auditRow).take limit
              nextBefore :=
                if limit < ((behind.take (limit + 1)).map auditRow).length then
                  ((behind.take (limit + 1)).map auditRow)[limit - 1]?.map
                    AuditEventRecord.sequence
                else none } := by
      rw [← hnext, ← hitems, ← hrows]
      simp only [listAudit, bind_eq_ok, validateText_eq_ok, ensure_eq_ok, pure_eq_ok]
      exact ⟨(), hworkspace, (), ⟨hlow, hhigh⟩, (), htimes, trivial⟩
    refine ⟨_, hpage, ?_⟩
    exact pageAt_fetched auditRow AuditEventRecord.sequence hlow (fun _ _ => rfl) rfl

/-- Following the cursors visits the events of the workspace, the newest first. -/
def AuditComplete (s : Repository) (workspaceId : String) (limit : ℕ) : Prop :=
  ∃ visited, Visited (fun before => s.listAudit workspaceId before limit) AuditPage.items
    AuditPage.nextBefore Server.encodeBefore Server.decodeBefore AuditEventRecord.sequence
    OrderDual.toDual auditRow (auditRows s workspaceId) visited

theorem audit_complete {workspaceId : String} {limit : ℕ} (hworkspace : ValidText workspaceId)
    (hlow : 1 ≤ limit) (hhigh : limit ≤ 100)
    (hsequence : ∀ row ∈ s.auditEvents, row.sequence ≤ i64Max) :
    AuditComplete s workspaceId limit := by
  refine visited_of_paged (audit_paged hworkspace hlow hhigh hsequence) rfl fun row hrow _ => ?_
  have hle := hsequence row (Table.mem_select.mp hrow).1
  exact Server.decodeBefore_encode (hle.trans (by decide))

/-! ### Groups -/

/-- The groups of the workspace. -/
def groupRows (s : Repository) (workspaceId : String) : List WorkspaceGroupRecord :=
  s.workspaceGroups.select (s.InWorkspace workspaceId)

/-- The cursor of a group. -/
def groupCursor (group : WorkspaceGroupRecord) : WorkspaceGroupCursor where
  createdAtMs := group.createdAtMs
  id := group.id

def groupKey (position : WorkspaceGroupCursor) : ℕᵒᵈ ×ₗ Stringᵒᵈ :=
  newestFirst position.createdAtMs position.id

section Groups

variable [Unicode] {workspaceId groupId : String} {limit : ℕ}

theorem groups_paged (hstored : StoredGroups s) (hworkspace : ValidText workspaceId)
    (hlow : 1 ≤ limit) (hhigh : limit ≤ 50) :
    Paged (fun cursor => s.listWorkspaceGroups workspaceId cursor limit) WorkspaceGroupPage.items
      WorkspaceGroupPage.nextCursor groupCursor groupKey id limit (groupRows s workspaceId) where
  positive := hlow
  nodup := Table.select_nodup
  inj a ha b hb heq :=
    Table.eq_of_key (Table.mem_select.mp ha).1 (Table.mem_select.mp hb).1 (newestFirst_inj heq).2
  page cursor hcursor := by
    have hmem : ∀ group ∈ groupRows s workspaceId,
        ValidStoredGroup group ∧ group.createdAtMs ≤ i64Max :=
      fun group hgroup => hstored.groups group (Table.mem_select.mp hgroup).1
    -- the checks of the cursor hold of a stored group
    have hids : forM cursor.toList (fun position : WorkspaceGroupCursor =>
        validateGroupId position.id) = .ok () := by
      rw [forM_eq_ok]
      intro position hposition
      obtain ⟨group, hgroup, rfl⟩ := hcursor position (Option.mem_toList.mp hposition)
      exact ensure_eq_ok.mpr (hmem group hgroup).1.1
    have htimes : forM cursor.toList (fun position : WorkspaceGroupCursor =>
        toI64 position.createdAtMs) = .ok () := by
      rw [forM_eq_ok]
      intro position hposition
      obtain ⟨group, hgroup, rfl⟩ := hcursor position (Option.mem_toList.mp hposition)
      exact toI64_eq_ok.mpr (hmem group hgroup).2
    have hrows : orderBy
        (fun group : WorkspaceGroupRecord => newestFirst group.createdAtMs group.id)
        (s.workspaceGroups.select fun group => s.InWorkspace workspaceId group ∧
          ∀ position ∈ cursor, group.createdAtMs < position.createdAtMs ∨
            (group.createdAtMs = position.createdAtMs ∧ group.id < position.id)) =
        rowsBehind groupCursor groupKey (groupRows s workspaceId) cursor := by
      rw [select_and]
      refine orderBy_behind (fun _ => rfl) fun group => ?_
      exact forall₂_congr fun position _ => newestFirst_lt.symm
    -- each fetched group is decoded as itself
    have hdecode : ((rowsBehind groupCursor groupKey (groupRows s workspaceId) cursor).take
        (limit + 1)).mapM decodeGroup =
          .ok (((rowsBehind groupCursor groupKey (groupRows s workspaceId) cursor).take
            (limit + 1)).map id) := by
      refine mapM_decode fun group hgroup => ?_
      have hrow := List.mem_of_mem_filter (mem_orderBy.mp (List.mem_of_mem_take hgroup))
      rw [decodeGroup, (ensure_eq_ok (u := ())).mpr (hmem group hrow).1]
      rfl
    refine ⟨groupPage (((rowsBehind groupCursor groupKey (groupRows s workspaceId) cursor).take
      (limit + 1)).map id) limit, ?_, ?_⟩
    · simp only [listWorkspaceGroups, validateLimit, bind_eq_ok, validateText_eq_ok, ensure_eq_ok,
        pure_eq_ok, hrows]
      exact ⟨(), hworkspace, (), ⟨hlow, hhigh⟩, (), hids, (), htimes, _, hdecode, rfl⟩
    · exact pageAt_fetched id groupCursor hlow (fun _ _ => rfl) rfl

/-- Following the cursors visits the groups of the workspace, the newest first. -/
def GroupsComplete [Base64] [JsonReader] (s : Repository) (workspaceId : String) (limit : ℕ) :
    Prop :=
  ∃ visited, Visited (fun cursor => s.listWorkspaceGroups workspaceId cursor limit)
    WorkspaceGroupPage.items WorkspaceGroupPage.nextCursor (Server.encodeGroup workspaceId)
    (Server.decodeGroup workspaceId) groupCursor groupKey id (groupRows s workspaceId) visited

theorem groups_complete [Base64] [JsonReader] (hstored : StoredGroups s)
    (hworkspace : ValidText workspaceId) (hlow : 1 ≤ limit) (hhigh : limit ≤ 50) :
    GroupsComplete s workspaceId limit := by
  refine visited_of_paged (groups_paged hstored hworkspace hlow hhigh) rfl
    fun group hgroup hfits => ?_
  have hle := (hstored.groups group (Table.mem_select.mp hgroup).1).2
  rw [Server.decodeGroup_encode workspaceId (groupCursor group) (hle.trans (by decide)),
    if_pos hfits]

/-! ### Members -/

/-- The active members of the group. -/
def memberRows (s : Repository) (workspaceId groupId : String) : List WorkspaceGroupMemberRecord :=
  s.workspaceGroupMembers.select (s.ActiveMember workspaceId groupId)

/-- The cursor of a member. -/
def memberCursor (member : WorkspaceGroupMemberRecord) : WorkspaceGroupMemberCursor where
  addedAtMs := member.addedAtMs
  userId := member.userId

def memberKey (position : WorkspaceGroupMemberCursor) : ℕᵒᵈ ×ₗ Stringᵒᵈ :=
  newestFirst position.addedAtMs position.userId

theorem members_paged (hstored : StoredGroups s) (hworkspace : ValidText workspaceId)
    (hgroup : ValidPrefixedHexId groupId "group_") {group : WorkspaceGroupRecord}
    (hactive : s.activeGroup workspaceId groupId = .ok group) (hlow : 1 ≤ limit)
    (hhigh : limit ≤ 50) :
    Paged (fun cursor => s.listWorkspaceGroupMembers workspaceId groupId cursor limit)
      WorkspaceGroupMemberPage.items WorkspaceGroupMemberPage.nextCursor memberCursor memberKey id
      limit (memberRows s workspaceId groupId) where
  positive := hlow
  nodup := Table.select_nodup
  -- a member is known by its group and its user
  inj a ha b hb heq := by
    obtain ⟨hmem, hmember⟩ := Table.mem_select.mp ha
    obtain ⟨hmem', hmember'⟩ := Table.mem_select.mp hb
    exact Table.eq_of_key hmem hmem'
      (Prod.ext (hmember.1.trans hmember'.1.symm) (newestFirst_inj heq).2)
  page cursor hcursor := by
    have hmem : ∀ member ∈ memberRows s workspaceId groupId,
        ValidMember member ∧ member.addedAtMs ≤ i64Max :=
      fun member hmember => hstored.members member (Table.mem_select.mp hmember).1
    -- the check of the cursor holds of a stored member
    have htimes : forM cursor.toList (fun position : WorkspaceGroupMemberCursor =>
        toI64 position.addedAtMs) = .ok () := by
      rw [forM_eq_ok]
      intro position hposition
      obtain ⟨member, hmember, rfl⟩ := hcursor position (Option.mem_toList.mp hposition)
      exact toI64_eq_ok.mpr (hmem member hmember).2
    have hrows : orderBy
        (fun member : WorkspaceGroupMemberRecord => newestFirst member.addedAtMs member.userId)
        (s.workspaceGroupMembers.select fun member => s.ActiveMember workspaceId groupId member ∧
          ∀ position ∈ cursor, member.addedAtMs < position.addedAtMs ∨
            (member.addedAtMs = position.addedAtMs ∧ member.userId < position.userId)) =
        rowsBehind memberCursor memberKey (memberRows s workspaceId groupId) cursor := by
      rw [select_and]
      refine orderBy_behind (fun _ => rfl) fun member => ?_
      exact forall₂_congr fun position _ => newestFirst_lt.symm
    -- each fetched member is decoded as itself
    have hdecode : ((rowsBehind memberCursor memberKey (memberRows s workspaceId groupId)
        cursor).take (limit + 1)).mapM decodeMember =
          .ok (((rowsBehind memberCursor memberKey (memberRows s workspaceId groupId) cursor).take
            (limit + 1)).map id) := by
      refine mapM_decode fun member hmember => ?_
      have hrow := List.mem_of_mem_filter (mem_orderBy.mp (List.mem_of_mem_take hmember))
      rw [decodeMember, (validateMember_eq_ok (u := ())).mpr (hmem member hrow).1]
      rfl
    refine ⟨memberPage (((rowsBehind memberCursor memberKey (memberRows s workspaceId groupId)
      cursor).take (limit + 1)).map id) limit, ?_, ?_⟩
    · simp only [listWorkspaceGroupMembers, validateLimit, validateGroupId, bind_eq_ok,
        validateText_eq_ok, ensure_eq_ok, pure_eq_ok, hrows]
      exact ⟨(), hworkspace, (), hgroup, (), ⟨hlow, hhigh⟩, group, hactive, (), htimes, _, hdecode,
        rfl⟩
    · exact pageAt_fetched id memberCursor hlow (fun _ _ => rfl) rfl

/-- Following the cursors visits the active members of the group, the newest first. -/
def MembersComplete [Base64] [JsonReader] (s : Repository) (workspaceId groupId : String)
    (limit : ℕ) : Prop :=
  ∃ visited, Visited (fun cursor => s.listWorkspaceGroupMembers workspaceId groupId cursor limit)
    WorkspaceGroupMemberPage.items WorkspaceGroupMemberPage.nextCursor (Server.encodeMember groupId)
    (Server.decodeMember groupId) memberCursor memberKey id (memberRows s workspaceId groupId)
    visited

theorem members_complete [Base64] [JsonReader] (hstored : StoredGroups s)
    {group : WorkspaceGroupRecord} (hactive : s.activeGroup workspaceId groupId = .ok group)
    (hlow : 1 ≤ limit) (hhigh : limit ≤ 50) : MembersComplete s workspaceId groupId limit := by
  obtain ⟨hmem, rfl, rfl, -⟩ := activeGroup_spec hactive
  obtain ⟨⟨hid, hworkspace, -⟩, -⟩ := hstored.groups group hmem
  refine visited_of_paged (members_paged hstored hworkspace hid hactive hlow hhigh) rfl
    fun member hmember hfits => ?_
  have hle := (hstored.members member (Table.mem_select.mp hmember).1).2
  rw [Server.decodeMember_encode group.id (memberCursor member) (hle.trans (by decide)),
    if_pos hfits]

end Groups

/-! ### Guest invitations -/

section Invites

variable {yardId : String} {limit : ℕ}

/-- The invitations of the yard that have a grant. -/
def inviteRows (s : Repository) (yardId : String) : List YardGuestInvitationRow :=
  s.yardGuestInvitations.select fun row => row.yardId = yardId ∧ (s.grantOf row).isSome

/-- The grant that the row is joined with; where it has none, the one that it should have. -/
def joinedGrant (s : Repository) (row : YardGuestInvitationRow) : YardAccessGrantRecord :=
  (s.grantOf row).getD
    { id := row.grantId, yardId := row.yardId, environmentId := row.environmentId,
      principalKind := .guestInvite, principalId := row.id, appRoles := [], status := .active,
      createdAtMs := row.createdAtMs, createdByPrincipal := "", expiresAtMs := some row.expiresAtMs,
      revokedAtMs := none }

/-- What the row is read back as. -/
def readInvite (s : Repository) (row : YardGuestInvitationRow) : YardGuestInviteRecord :=
  inviteRecord row (joinedGrant s row)

/-- The cursor of an invitation. -/
def inviteCursor (row : YardGuestInvitationRow) : YardGuestInviteCursor where
  createdAtMs := row.createdAtMs
  id := row.id

def inviteKey (position : YardGuestInviteCursor) : ℕᵒᵈ ×ₗ Stringᵒᵈ :=
  newestFirst position.createdAtMs position.id

variable [Unicode]

/-- Stored rows are decoded with their grants. -/
theorem decodeJoined_stored (hstored : StoredInvites s) {rows : List YardGuestInvitationRow}
    (hrows : ∀ row ∈ rows, row ∈ s.yardGuestInvitations) :
    s.decodeJoined rows = .ok (rows.map (readInvite s)) := by
  have hgrant : ∀ row ∈ rows, s.grantOf row = some (joinedGrant s row) ∧
      ValidInvitation row (joinedGrant s row) := by
    intro row hrow
    obtain ⟨grant, hgrant, hvalid⟩ := hstored.grantOf (hrows row hrow)
    rw [joinedGrant, hgrant, Option.getD_some]
    exact ⟨rfl, hvalid⟩
  have hjoined : (rows.filterMap fun row => (s.grantOf row).map fun grant => (row, grant)) =
      rows.map fun row => (row, joinedGrant s row) := by
    rw [← List.filterMap_eq_map]
    refine List.filterMap_congr fun row hrow => ?_
    rw [(hgrant row hrow).1]
    rfl
  have hread : (rows.map fun row => (row, joinedGrant s row)).map
      (fun joined => inviteRecord joined.1 joined.2) = rows.map (readInvite s) := by
    rw [List.map_map]
    rfl
  rw [decodeJoined, hjoined, ← hread]
  refine mapM_decode fun joined hmem => ?_
  obtain ⟨row, hrow, rfl⟩ := List.mem_map.mp hmem
  rw [decodeInvitation, (ensure_eq_ok (u := ())).mpr (hgrant row hrow).2]
  rfl

theorem invites_paged (hstored : StoredInvites s) (hyard : ValidText yardId) (hlow : 1 ≤ limit)
    (hhigh : limit ≤ 50) :
    Paged (fun cursor => s.listYardGuestInvites yardId cursor limit) YardGuestInvitePage.items
      YardGuestInvitePage.nextCursor inviteCursor inviteKey (readInvite s) limit
      (inviteRows s yardId) where
  positive := hlow
  nodup := Table.select_nodup
  inj a ha b hb heq :=
    Table.eq_of_key (Table.mem_select.mp ha).1 (Table.mem_select.mp hb).1 (newestFirst_inj heq).2
  page cursor hcursor := by
    -- the checks of the cursor hold of a stored invitation
    have hpositions : forM cursor.toList (fun position : YardGuestInviteCursor => do
        toI64 position.createdAtMs
        validateText position.id) = .ok () := by
      rw [forM_eq_ok]
      intro position hposition
      obtain ⟨row, hrow, rfl⟩ := hcursor position (Option.mem_toList.mp hposition)
      obtain ⟨htexts, -, -, -, htime⟩ := hstored.rows row (Table.mem_select.mp hrow).1
      simp only [bind_eq_ok, toI64_eq_ok, validateText_eq_ok]
      exact ⟨(), htime, htexts row.id List.mem_cons_self⟩
    -- the query joins the grant, which every stored invitation has
    have hrows : orderBy invitationOrder (s.yardGuestInvitations.select fun row =>
        row.yardId = yardId ∧ (s.grantOf row).isSome ∧ ∀ position ∈ cursor,
          row.createdAtMs < position.createdAtMs ∨
            (row.createdAtMs = position.createdAtMs ∧ row.id < position.id)) =
        rowsBehind inviteCursor inviteKey (inviteRows s yardId) cursor := by
      simp only [← and_assoc]
      rw [select_and]
      refine orderBy_behind (fun _ => rfl) fun row => ?_
      exact forall₂_congr fun position _ => newestFirst_lt.symm
    have hmem : ∀ row ∈ (rowsBehind inviteCursor inviteKey (inviteRows s yardId) cursor).take
        (limit + 1), row ∈ s.yardGuestInvitations := by
      intro row hrow
      have hselected := List.mem_of_mem_filter (mem_orderBy.mp (List.mem_of_mem_take hrow))
      exact (Table.mem_select.mp hselected).1
    have hdecode := decodeJoined_stored hstored hmem
    have hat := pageAt_fetched (readInvite s)
      (fun item => YardGuestInviteCursor.mk item.createdAtMs item.id) hlow (fun _ _ => rfl)
      (rfl : ((rowsBehind inviteCursor inviteKey (inviteRows s yardId) cursor).take
        (limit + 1)).map (readInvite s) = _)
    -- the page is made of the decoded rows
    refine ⟨⟨_, _⟩, ?_, hat⟩
    simp only [listYardGuestInvites, bind_eq_ok, validateText_eq_ok, ensure_eq_ok, pure_eq_ok,
      hrows]
    exact ⟨(), hyard, (), ⟨by omega, hhigh⟩, (), hpositions, _, hdecode, rfl⟩

/-- Following the cursors visits the invitations of the yard, the newest first. -/
def InvitesComplete [Base64] [JsonReader] (s : Repository) (yardId : String) (limit : ℕ) : Prop :=
  ∃ visited, Visited (fun cursor => s.listYardGuestInvites yardId cursor limit)
    YardGuestInvitePage.items YardGuestInvitePage.nextCursor (Server.encodeInvite yardId)
    (Server.decodeInvite yardId) inviteCursor inviteKey (readInvite s) (inviteRows s yardId)
    visited

theorem invites_complete [Base64] [JsonReader] (hstored : StoredInvites s)
    (hyard : ValidText yardId) (hlow : 1 ≤ limit) (hhigh : limit ≤ 50) :
    InvitesComplete s yardId limit := by
  refine visited_of_paged (invites_paged hstored hyard hlow hhigh) rfl fun row hrow hfits => ?_
  obtain ⟨-, -, -, hid, htime⟩ := hstored.rows row (Table.mem_select.mp hrow).1
  rw [Server.decodeInvite_encode yardId (inviteCursor row) htime hid, if_pos hfits]

end Invites

/-! ### Management roles -/

section Roles

variable {yardId : String}

/-- The cursor of an assignment. -/
def roleCursor (a : YardManagementRoleAssignment) : YardManagementRoleCursor where
  role := a.role
  userId := a.userId

def roleKey (position : YardManagementRoleCursor) : ℕ ×ₗ String :=
  roleOrder position.role position.userId

theorem roleOrder_lt {role role' : YardManagementRole} {userId userId' : String} :
    roleOrder role userId < roleOrder role' userId' ↔
      role.precedence < role'.precedence ∨
        (role'.precedence = role.precedence ∧ userId < userId') := by
  rw [roleOrder, roleOrder, Prod.Lex.toLex_lt_toLex, eq_comm]

theorem roles_paged (hstored : StoredRoles s) (hyard : ValidText yardId)
    (hactive : ∃ y ∈ s.webYards, y.id = yardId ∧ y.status = .active) :
    Paged (fun cursor => s.listYardManagementRoles yardId cursor) YardManagementRolePage.items
      YardManagementRolePage.nextCursor roleCursor roleKey id 50 (s.rolesOf yardId) where
  positive := by decide
  nodup := Table.select_nodup
  inj a ha b hb heq := by
    obtain ⟨hmem, hin⟩ := Table.mem_select.mp ha
    obtain ⟨hmem', hin'⟩ := Table.mem_select.mp hb
    -- within a yard the order of the roles ends with the user, so no two rows tie
    have huser : a.userId = b.userId := (Prod.ext_iff.mp (toLex.injective heq)).2
    exact Table.eq_of_key hmem hmem' (Prod.ext (hin.trans hin'.symm) huser)
  page cursor hcursor := by
    -- the rows of a stored yard pass every check that the listing makes
    have hvalid : ∀ a ∈ s.rolesOf yardId, ValidAssignment a :=
      fun a ha => hstored.rows a (Table.mem_select.mp ha).1
    obtain ⟨state, hstate⟩ := hstored.validateState yardId
    have hpositions : forM cursor.toList (fun position : YardManagementRoleCursor =>
        validateText position.userId) = .ok () := by
      rw [forM_eq_ok]
      intro position hposition
      obtain ⟨a, ha, rfl⟩ := hcursor position (Option.mem_toList.mp hposition)
      exact validateText_eq_ok.mpr (hvalid a ha).2.1
    have hrows : orderBy (fun a : YardManagementRoleAssignment => roleOrder a.role a.userId)
        (s.yardManagementRoles.select fun a => a.yardId = yardId ∧
          ∀ position ∈ cursor, position.role.precedence < a.role.precedence ∨
            (a.role.precedence = position.role.precedence ∧ position.userId < a.userId)) =
        rowsBehind roleCursor roleKey (s.rolesOf yardId) cursor := by
      rw [select_and]
      refine orderBy_behind (fun _ => rfl) fun a => ?_
      exact forall₂_congr fun position _ => roleOrder_lt.symm
    -- each fetched assignment is decoded as itself
    have hdecode : ((rowsBehind roleCursor roleKey (s.rolesOf yardId) cursor).take 51).mapM
        decodeAssignment =
          .ok (((rowsBehind roleCursor roleKey (s.rolesOf yardId) cursor).take 51).map id) := by
      refine mapM_decode fun a ha => ?_
      have hrow := List.mem_of_mem_filter (mem_orderBy.mp (List.mem_of_mem_take ha))
      rw [decodeAssignment, (ensure_eq_ok (u := ())).mpr (hvalid a hrow)]
      rfl
    have hat := pageAt_fetched id roleCursor (by decide : 0 < 50) (fun _ _ => rfl)
      (rfl : ((rowsBehind roleCursor roleKey (s.rolesOf yardId) cursor).take (50 + 1)).map id = _)
    refine ⟨⟨_, _⟩, ?_, hat⟩
    simp only [listYardManagementRoles, bind_eq_ok, validateText_eq_ok, ensure_eq_ok, pure_eq_ok,
      hrows]
    exact ⟨(), hyard, (), hactive, (), hpositions, state, hstate, _, hdecode, rfl⟩

/-- Following the cursors visits the assignments of the yard by precedence. -/
def RolesComplete [Base64] [JsonReader] (s : Repository) (yardId : String) : Prop :=
  ∃ visited, Visited (fun cursor => s.listYardManagementRoles yardId cursor)
    YardManagementRolePage.items YardManagementRolePage.nextCursor (Server.encodeRole yardId)
    (Server.decodeRole yardId) roleCursor roleKey id (s.rolesOf yardId) visited

theorem roles_complete [Base64] [JsonReader] (hstored : StoredRoles s) (hyard : ValidText yardId)
    (hactive : ∃ y ∈ s.webYards, y.id = yardId ∧ y.status = .active) : RolesComplete s yardId := by
  refine visited_of_paged (roles_paged hstored hyard hactive) rfl fun a _ hfits => ?_
  rw [Server.decodeRole_encode yardId (roleCursor a), if_pos hfits]

end Roles

/-! ### The law -/

/-- A text that a cursor is written as is read back within the limit and refused beyond it; those
of plain identifiers are within it. -/
structure TextsReadBack [Base64] [JsonReader] : Prop where
  audit : ∀ before ≤ u64Max,
    Server.decodeBefore (some (Server.encodeBefore before)) = .ok (some before)
  group : ∀ scope (cursor : WorkspaceGroupCursor), cursor.createdAtMs ≤ u64Max →
    Server.decodeGroup scope (some (Server.encodeGroup scope cursor)) =
      if (Server.encodeGroup scope cursor).utf8ByteSize ≤ Server.maximumCursorLength then
        .ok (some cursor) else .error .invalidRequest
  member : ∀ scope (cursor : WorkspaceGroupMemberCursor), cursor.addedAtMs ≤ u64Max →
    Server.decodeMember scope (some (Server.encodeMember scope cursor)) =
      if (Server.encodeMember scope cursor).utf8ByteSize ≤ Server.maximumCursorLength then
        .ok (some cursor) else .error .invalidRequest
  invite : ∀ yardId (cursor : YardGuestInviteCursor), cursor.createdAtMs ≤ i64Max →
    ValidPrefixedHexId cursor.id "ygi_" →
    Server.decodeInvite yardId (some (Server.encodeInvite yardId cursor)) =
      if (Server.encodeInvite yardId cursor).utf8ByteSize ≤ Server.maximumCursorLength then
        .ok (some cursor) else .error .invalidRequest
  role : ∀ scope (cursor : YardManagementRoleCursor),
    Server.decodeRole scope (some (Server.encodeRole scope cursor)) =
      if (Server.encodeRole scope cursor).utf8ByteSize ≤ Server.maximumCursorLength then
        .ok (some cursor) else .error .invalidRequest
  plain : ∀ scope id, Server.PlainId scope → Server.PlainId id →
    (∀ atMs ≤ u64Max,
      (Server.encodeGroup scope ⟨atMs, id⟩).utf8ByteSize ≤ Server.maximumCursorLength ∧
      (Server.encodeMember scope ⟨atMs, id⟩).utf8ByteSize ≤ Server.maximumCursorLength ∧
      (Server.encodeInvite scope ⟨atMs, id⟩).utf8ByteSize ≤ Server.maximumCursorLength) ∧
    ∀ role, (Server.encodeRole scope ⟨role, id⟩).utf8ByteSize ≤ Server.maximumCursorLength

theorem texts_readBack [Base64] [JsonReader] : TextsReadBack where
  audit _ h := Server.decodeBefore_encode h
  group scope cursor h := Server.decodeGroup_encode scope cursor h
  member scope cursor h := Server.decodeMember_encode scope cursor h
  invite yardId cursor h hid := Server.decodeInvite_encode yardId cursor h hid
  role scope cursor := Server.decodeRole_encode scope cursor
  plain _ _ hscope hid :=
    ⟨fun _ hat => ⟨Server.encodeGroups_fits hat hscope hid, Server.encodeGroups_fits hat hscope hid,
      Server.encodeInvite_fits hat hscope hid⟩, fun _ => Server.encodeRole_fits hscope hid⟩

/-- The five listings are complete in every repository that the requests on their tables lead to,
for every page size that they take, and the texts of cursors are read back within the limit. -/
theorem pagination_law [Unicode] [Base64] [JsonReader] :
    (∀ s : Repository, (∀ row ∈ s.auditEvents, row.sequence ≤ i64Max) →
      ∀ workspaceId limit, ValidText workspaceId → 1 ≤ limit → limit ≤ 100 →
        AuditComplete s workspaceId limit) ∧
    (∀ s, Run WorkspaceGroups.system (fun _ _ => True) s → ∀ workspaceId limit,
      1 ≤ limit → limit ≤ 50 →
        (ValidText workspaceId → GroupsComplete s workspaceId limit) ∧
        ∀ groupId group, s.activeGroup workspaceId groupId = .ok group →
          MembersComplete s workspaceId groupId limit) ∧
    (∀ l, Run GuestInvitations.system (fun _ _ => True) l → ∀ yardId limit, ValidText yardId →
      1 ≤ limit → limit ≤ 50 → InvitesComplete l.repository yardId limit) ∧
    (∀ s, Run ManagementRoles.system (fun _ _ => True) s → ∀ yardId, ValidText yardId →
      (∃ y ∈ s.webYards, y.id = yardId ∧ y.status = .active) → RolesComplete s yardId) ∧
    TextsReadBack := by
  refine ⟨?_, ?_, ?_, ?_, texts_readBack⟩
  -- the events are only added to, so their sequences are an assumption
  · intro s hsequence workspaceId limit hworkspace hlow hhigh
    exact audit_complete hworkspace hlow hhigh hsequence
  -- the tables of the other listings are stored ones in every reachable state
  · intro s hrun workspaceId limit hlow hhigh
    have hstored : StoredGroups s := by
      refine Run.inv storedGroups_init ?_ hrun
      rintro s request _ hs - rfl
      exact storedGroups_exec hs
    exact ⟨fun hworkspace => groups_complete hstored hworkspace hlow hhigh,
      fun groupId group hactive => members_complete hstored hactive hlow hhigh⟩
  · intro l hrun yardId limit hyard hlow hhigh
    have hstored : StoredInvites l.repository := by
      refine Run.inv (P := fun l => StoredInvites l.repository) storedInvites_init ?_ hrun
      rintro l request _ hl - rfl
      exact storedInvites_exec hl
    exact invites_complete hstored hyard hlow hhigh
  · intro s hrun yardId hyard hactive
    have hstored : StoredRoles s := by
      refine Run.inv storedRoles_init ?_ hrun
      rintro s request _ hs - rfl
      exact storedRoles_exec hs
    exact roles_complete hstored hyard hactive

section Samples

attribute [local instance] asciiUnicode urlSafeBase64 compactReader

/-- Two readers in a group, a guest who was invited, and two owners, in pages of one row. -/
theorem samples_listed :
    (AuditComplete (WorkspaceGroups.readers.foldl WorkspaceGroups.exec Repository.empty) "w" 1 ∧
      GroupsComplete (WorkspaceGroups.readers.foldl WorkspaceGroups.exec Repository.empty) "w" 1 ∧
      MembersComplete (WorkspaceGroups.readers.foldl WorkspaceGroups.exec Repository.empty) "w"
        WorkspaceGroups.readersId 1) ∧
      InvitesComplete (GuestInvitations.visit.foldl GuestInvitations.exec
        GuestInvitations.system.init).repository "y" 1 ∧
      RolesComplete (ManagementRoles.twoOwners.foldl ManagementRoles.exec Repository.empty)
        "y" := by
  obtain ⟨haudit, hgroups, hinvites, hroles, -⟩ := pagination_law
  have hreaders : Run WorkspaceGroups.system (fun _ _ => True)
      (WorkspaceGroups.readers.foldl WorkspaceGroups.exec Repository.empty) :=
    Run.ofList_true (fun _ _ => rfl) Run.init _
  obtain ⟨hlisted, hmembers⟩ := hgroups _ hreaders "w" 1 (by decide) (by decide)
  refine ⟨⟨haudit _ (by decide +kernel) "w" 1 (by decide) (by decide) (by decide),
    hlisted (by decide), hmembers WorkspaceGroups.readersId _ (by rfl)⟩, ?_, ?_⟩
  · exact hinvites _ (Run.ofList_true (fun _ _ => rfl) Run.init _) "y" 1 (by decide) (by decide)
      (by decide)
  · exact hroles _ (Run.ofList_true (fun _ _ => rfl) Run.init _) "y" (by decide)
      (by decide +kernel)

end Samples

/-! ### Cursors beyond the limit -/

/-- An identifier of four hundred letters, which every check of the repository takes. -/
def longId : String := String.ofList (List.replicate 400 'a')

/-- A letter repeated at most 512 times is a valid text. -/
private theorem replicate_valid {n : ℕ} (hpos : 0 < n) (hle : n ≤ 512) :
    ValidText (String.ofList (List.replicate n 'a')) := by
  have hlist : (String.ofList (List.replicate n 'a')).toList = List.replicate n 'a' :=
    String.toList_ofList
  have hsize : (String.ofList (List.replicate n 'a')).utf8ByteSize = n := by
    rw [utf8ByteSize_eq, hlist, utf8Len_eq_length, List.length_replicate]
    intro c hc
    have ha : c = 'a' := List.eq_of_mem_replicate hc
    subst ha
    decide
  refine ⟨?_, by omega, fun c hc => ?_⟩
  · intro hempty
    rw [hempty] at hsize
    have hzero : "".utf8ByteSize = 0 := rfl
    omega
  · rw [hlist] at hc
    have ha : c = 'a' := List.eq_of_mem_replicate hc
    subst ha
    decide

private theorem longId_exists : ∃ id : String, ValidText id ∧ id.toList.length = 400 :=
  ⟨longId, replicate_valid (by omega) (by omega),
    (congrArg List.length String.toList_ofList).trans List.length_replicate⟩

section LongIds

attribute [local instance] urlSafeBase64 compactReader

/-- The text of a cursor of two such identifiers is refused. -/
theorem longIds_refused :
    ¬∀ scope (cursor : YardManagementRoleCursor), ValidText scope → ValidText cursor.userId →
      Server.decodeRole scope (some (Server.encodeRole scope cursor)) = .ok (some cursor) := by
  intro h
  obtain ⟨id, hid, hlength⟩ := longId_exists
  have hread := h id ⟨.owner, id⟩ hid hid
  have hlong : Server.maximumCursorLength <
      (Server.encodeRole id ⟨.owner, id⟩).utf8ByteSize := by
    refine Server.encodeRole_long ?_
    show 768 < id.toList.length + id.toList.length
    omega
  rw [Server.decodeRole_encode, if_neg (not_le.mpr hlong)] at hread
  cases hread

end LongIds

end Pagination

end BlobYard
