/-
Requests for uploads that are repeated.

The identifier of an upload is a digest of its owner and of the idempotency key, so a repeated
request meets the reservation of the first one.  This file runs requests for uploads among all
other requests on uploads, parts and deletions, with a ledger of whom each reservation was made
for.

* `goes` — what any request does to one reservation and its version;
* `Filed` — the invariant: every reservation is filed under the owner it was made for;
* `Follows` — a reservation is the same one while its row is there;
* `upload_replay_law` — the law over runs: a repeated request is answered from the reservation, or
  conflicts; it makes no second version and takes no capacity;
* `deleted_upload_is_reserved_again` — a reservation that is deleted with its version no longer
  stands in the way of a new one.
-/
import BlobYard.Laws.UploadRows
import BlobYard.Server.UploadGrants

namespace BlobYard

open Outcome Repository Server

namespace UploadReplays

/-! ### Requests and runs -/

/-- Whether a request makes a reservation by itself. -/
def reserves : UploadRequest → Bool
  | .reserveUpload _ | .reserveInboxUpload _ _ => true
  | _ => false

/-- The other requests: those on uploads that are reserved already, on parts and on deletions, or
any change of the tables that hold no uploads. -/
inductive OtherRequest where
  | upload (request : UploadRequest) (reserved : reserves request = false)
  | part (request : UploadRows.PartRequest)
  | deletion (request : DeletionRequest)
  | environment (other : Repository)

def OtherRequest.run (s : Repository) : OtherRequest → Except RepositoryError Repository
  | .upload request _ => Prod.snd <$> request.run s
  | .part request => request.run s
  | .deletion request => request.run s
  | .environment other =>
    .ok { other with
      objectVersions := s.objectVersions, uploadReservations := s.uploadReservations
      inboxUploads := s.inboxUploads }

inductive Request where
  | ask (authority : UploadAuthority) (call : UploadCall)
  | other (request : OtherRequest)

/-- For whom a reservation was made, and under which key. -/
structure Grant where
  uploadId : String
  owner : UploadOwner
  idempotency : String
  deriving DecidableEq

/-- The repository and the ledger of the reservations made, newest first. -/
structure World where
  repository : Repository
  granted : List Grant

/-- The last reservation that was made under the identifier. -/
def World.grantOf (w : World) (uploadId : String) : Option Grant :=
  w.granted.find? fun g => g.uploadId = uploadId

section Runs

variable [Digest] [PercentEncoding] (capabilityKey : String)

/-- The ledger after an answer; only a new reservation is entered. -/
def World.enter (w : World) (authority : UploadAuthority) (call : UploadCall)
    (record : UploadReservationRecord) : List Grant :=
  if ∃ r ∈ w.repository.uploadReservations, r.id = record.id then w.granted
  else match authorize w.repository authority call.nowMs with
    | .ok authorized => ⟨record.id, authorized.owner, call.idempotency⟩ :: w.granted
    | .error _ => w.granted

/-- A request that fails leaves everything as it was. -/
def exec (w : World) : Request → World
  | .ask authority call =>
    match requestUpload capabilityKey w.repository authority call with
    | .ok (record, s') => ⟨s', w.enter authority call record⟩
    | .error _ => w
  | .other request =>
    match request.run w.repository with
    | .ok s' => { w with repository := s' }
    | .error _ => w

variable {capabilityKey} {w : World} {authority : UploadAuthority} {call : UploadCall}
  {record : UploadReservationRecord} {request : OtherRequest} {s' : Repository}

theorem exec_ask_ok
    (h : requestUpload capabilityKey w.repository authority call = .ok (record, s')) :
    exec capabilityKey w (.ask authority call) = ⟨s', w.enter authority call record⟩ := by
  simp only [exec, h]

theorem exec_ask_error {e : ApiError}
    (h : requestUpload capabilityKey w.repository authority call = .error e) :
    exec capabilityKey w (.ask authority call) = w := by
  simp only [exec, h]

theorem exec_other_ok (h : request.run w.repository = .ok s') :
    exec capabilityKey w (.other request) = { w with repository := s' } := by
  simp only [exec, h]

theorem exec_other_error {e : RepositoryError} (h : request.run w.repository = .error e) :
    exec capabilityKey w (.other request) = w := by
  simp only [exec, h]

variable (capabilityKey)

/-- Requests in any order, from an empty repository. -/
def system : System World Request where
  init := ⟨Repository.empty, []⟩
  step w request w' := w' = exec capabilityKey w request

end Runs

/-! ### What a request does to one reservation -/

variable {s s' : Repository}

/-- The upload is linked to the inbox. -/
def Linked (s : Repository) (uploadId inboxId : String) : Prop :=
  ∃ link ∈ s.inboxUploads, link.uploadId = uploadId ∧ link.inboxId = inboxId

/-- The links of uploads stay as long as their reservations. -/
def LinksKept (s s' : Repository) : Prop :=
  ∀ uploadId inboxId, Linked s uploadId inboxId →
    (∃ r ∈ s'.uploadReservations, r.id = uploadId) → Linked s' uploadId inboxId

theorem linksKept_of_eq (h : s'.inboxUploads = s.inboxUploads) : LinksKept s s' := by
  rintro uploadId inboxId ⟨link, hlink, hids⟩ -
  exact ⟨link, h.symm ▸ hlink, hids⟩

theorem linksKept_of_replaced {link : InboxUploadRow} {status : InboxUploadStatus}
    (h : s.inboxUploads.Replaced s'.inboxUploads link { link with status }) : LinksKept s s' := by
  rintro uploadId inboxId ⟨l, hl, hids⟩ -
  by_cases hsame : l = link
  · subst hsame
    exact ⟨_, h.mem_new, hids⟩
  · exact ⟨l, (h.mem l).mpr (Or.inl ⟨hl, hsame⟩), hids⟩

/-- No request but one for an upload makes a reservation. -/
def NoneNew (s s' : Repository) : Prop :=
  ∀ r' ∈ s'.uploadReservations, ∃ r ∈ s.uploadReservations, r.id = r'.id

theorem noneNew_of_eq (h : s'.uploadReservations = s.uploadReservations) : NoneNew s s' :=
  fun r' hr' => ⟨r', h ▸ hr', rfl⟩

theorem noneNew_of_replaced {row row' : UploadReservationRow}
    (h : s.uploadReservations.Replaced s'.uploadReservations row row') : NoneNew s s' := by
  intro r' hr'
  rcases (h.mem r').mp hr' with ⟨hmem, -⟩ | rfl
  · exact ⟨r', hmem, rfl⟩
  · exact ⟨row, h.mem_old, h.key_eq.symm⟩

theorem upload_keeps {request : UploadRequest} {completed : Option ObjectVersionRecord}
    (hreserves : reserves request = false) (h : request.run s = .ok (completed, s')) :
    NoneNew s s' ∧ LinksKept s s' := by
  cases request with
  -- a workspace, a project or an inbox is none of the rows in question
  | createWorkspace workspace =>
    simp only [UploadRequest.run, createWorkspace, map_eq_ok, bind_eq_ok, pure_eq_ok,
      Prod.mk.injEq] at h
    obtain ⟨_, ⟨-, -, -, -, _, -, rfl⟩, -, rfl⟩ := h
    exact ⟨noneNew_of_eq rfl, linksKept_of_eq rfl⟩
  | createProject project =>
    simp only [UploadRequest.run, createProject, map_eq_ok, bind_eq_ok, pure_eq_ok,
      Prod.mk.injEq] at h
    obtain ⟨_, ⟨-, -, -, -, -, -, -, -, _, -, rfl⟩, -, rfl⟩ := h
    exact ⟨noneNew_of_eq rfl, linksKept_of_eq rfl⟩
  | createInbox inbox event =>
    simp only [UploadRequest.run, map_eq_ok, Prod.mk.injEq] at h
    obtain ⟨⟨_, _⟩, hrun, -, rfl⟩ := h
    obtain ⟨_, _, _, rfl, -⟩ := createInbox_spec hrun
    exact ⟨noneNew_of_eq rfl, linksKept_of_eq rfl⟩
  | revokeInbox inboxId workspaceId revokedAtMs event =>
    simp only [UploadRequest.run, map_eq_ok, Prod.mk.injEq] at h
    obtain ⟨⟨_, _⟩, hrun, -, rfl⟩ := h
    rcases revokeInbox_spec hrun with rfl | ⟨_, _, _, rfl, -⟩
    · exact ⟨noneNew_of_eq rfl, linksKept_of_eq rfl⟩
    · exact ⟨noneNew_of_eq rfl, linksKept_of_eq rfl⟩
  -- the two reservations are excluded
  | reserveUpload value => cases hreserves
  | reserveInboxUpload upload value => cases hreserves
  -- the others replace a reservation by one of the same identifier
  | renewUpload id expiresAtMs =>
    simp only [UploadRequest.run, map_eq_ok, Prod.mk.injEq] at h
    obtain ⟨_, hrun, -, rfl⟩ := h
    obtain ⟨_, _, rfl, -, -, hreservations⟩ := renewUpload_spec hrun
    exact ⟨noneNew_of_replaced hreservations, linksKept_of_eq rfl⟩
  | recordUploadedBytes id size checksum =>
    simp only [UploadRequest.run, map_eq_ok, Prod.mk.injEq] at h
    obtain ⟨_, hrun, -, rfl⟩ := h
    obtain ⟨_, _, _, rfl, -, -, -, -, -, -, hreservations⟩ := recordUploadedBytes_spec hrun
    exact ⟨noneNew_of_replaced hreservations, linksKept_of_eq rfl⟩
  | completeUpload id =>
    simp only [UploadRequest.run, map_eq_ok, Prod.mk.injEq] at h
    obtain ⟨⟨_, _⟩, hrun, -, rfl⟩ := h
    obtain ⟨_, _, _, _, rfl, -, -, -, -, -, hreservations, -⟩ := completeUpload_spec hrun
    exact ⟨noneNew_of_replaced hreservations, linksKept_of_eq rfl⟩
  | abortUpload id =>
    simp only [UploadRequest.run, map_eq_ok, Prod.mk.injEq] at h
    obtain ⟨⟨_, _⟩, hrun, -, rfl⟩ := h
    obtain ⟨_, _, _, _, _, rfl, -, -, -, -, hreservations, -⟩ := abortUpload_spec hrun
    exact ⟨noneNew_of_replaced hreservations, linksKept_of_eq rfl⟩
  | completeInboxUpload capabilityHash uploadId nowMs event =>
    simp only [UploadRequest.run, map_eq_ok, Prod.mk.injEq] at h
    obtain ⟨⟨_, _⟩, hrun, -, rfl⟩ := h
    obtain ⟨_, _, _, _, _, _, _, _, _, rfl, -, -, -, -, -, -, -, -, -, -, hreservations, -, -,
      hlinks⟩ := completeInboxUpload_spec hrun
    exact ⟨noneNew_of_replaced hreservations, linksKept_of_replaced hlinks⟩
  | abortInboxUpload capabilityHash uploadId nowMs =>
    simp only [UploadRequest.run, map_eq_ok, Prod.mk.injEq] at h
    obtain ⟨⟨_, _⟩, hrun, -, rfl⟩ := h
    obtain ⟨_, _, _, _, _, _, _, _, _, rfl, -, -, -, -, -, -, -, -, -, hreservations, -, -,
      hlinks⟩ := abortInboxUpload_spec hrun
    exact ⟨noneNew_of_replaced hreservations, linksKept_of_replaced hlinks⟩

theorem part_keeps {request : UploadRows.PartRequest} (h : request.run s = .ok s') :
    NoneNew s s' ∧ LinksKept s s' := by
  cases request with
  | attach id providerUploadId =>
    obtain ⟨⟨_, _⟩, hrun, rfl⟩ := map_eq_ok.mp h
    rcases attachMultipart_spec hrun with rfl | ⟨_, _, rfl, -, -, hreservations⟩
    · exact ⟨noneNew_of_eq rfl, linksKept_of_eq rfl⟩
    · exact ⟨noneNew_of_replaced hreservations, linksKept_of_eq rfl⟩
  | issue parts =>
    obtain ⟨⟨_, _⟩, hrun, rfl⟩ := map_eq_ok.mp h
    obtain ⟨_, rfl⟩ := issueUploadParts_frame hrun
    exact ⟨noneNew_of_eq rfl, linksKept_of_eq rfl⟩
  | record uploadId partNumber size checksum providerTag =>
    obtain ⟨_, rfl⟩ := recordUploadedPart_frame h
    exact ⟨noneNew_of_eq rfl, linksKept_of_eq rfl⟩

section Deletions

theorem deleteReservations_links {p : UploadReservationRow → Prop} [DecidablePred p] :
    LinksKept s (s.deleteReservations p) := by
  rintro uploadId inboxId ⟨link, hlink, hid, hinbox⟩ ⟨r, hr, hrid⟩
  obtain ⟨hr, hp⟩ := Table.mem_erase.mp hr
  refine ⟨link, Table.mem_erase.mpr ⟨hlink, ?_⟩, hid, hinbox⟩
  rintro ⟨r', hr', hp', hrid'⟩
  have hsame : r' = r := Table.eq_of_key hr' hr (hrid'.trans (hid.trans hrid.symm))
  exact hp (hsame ▸ hp')

theorem deleteVersionMetadata_links (versionId : String) :
    LinksKept s (s.deleteVersionMetadata versionId) := by
  intro uploadId inboxId hlinked hkept
  exact deleteReservations_links
    (s := { s with downloadGrants := s.downloadGrants.erase fun g => g.versionId = versionId })
    uploadId inboxId hlinked hkept

theorem foldl_deleteVersionMetadata_links (ids : List String) :
    LinksKept s (ids.foldl deleteVersionMetadata s) := by
  induction ids generalizing s with
  | nil => exact linksKept_of_eq rfl
  | cons id ids ih =>
    intro uploadId inboxId hlinked hkept
    rw [List.foldl_cons] at hkept ⊢
    obtain ⟨r, hr, hrid⟩ := hkept
    -- the reservations that are left at the end are there after the first round
    have hr₁ := (((foldl_deleteVersionMetadata_spec (s.deleteVersionMetadata id) ids).2.2 r).mp hr).1
    exact ih uploadId inboxId
      (deleteVersionMetadata_links id uploadId inboxId hlinked ⟨r, hr₁, hrid⟩) ⟨r, hr, hrid⟩

theorem deleteSelectedMetadata_links (o : DeletionOperationRow) :
    LinksKept s (s.deleteSelectedMetadata o) := by
  unfold deleteSelectedMetadata
  by_cases hreason : o.reason = .objectDelete
  · rw [if_pos hreason]
    rintro uploadId inboxId hlinked ⟨r, hr, hrid⟩
    have hr₁ := (deleteAbortedTarget_spec _ o).2.2 r hr
    exact deleteReservations_links uploadId inboxId
      (foldl_deleteVersionMetadata_links _ uploadId inboxId hlinked ⟨r, hr₁, hrid⟩) ⟨r, hr, hrid⟩
  · rw [if_neg hreason]
    exact foldl_deleteVersionMetadata_links _

theorem finishDeletion_links {operationId : String} {completedAtMs : ℕ} {event : NewAuditEvent}
    (h : s.finishDeletion operationId completedAtMs event = .ok s') : LinksKept s s' := by
  simp only [finishDeletion, bind_eq_ok] at h
  obtain ⟨-, -, -, -, o, -, h⟩ := h
  split at h
  · obtain rfl := pure_eq_ok.mp h
    exact linksKept_of_eq rfl
  · simp only [bind_eq_ok] at h
    obtain ⟨-, -, h⟩ := h
    obtain ⟨auditEvents, rfl⟩ := insertAudit_spec h
    obtain ⟨runs, hruns⟩ := completeRun_spec
      ((s.deleteSelectedMetadata o).completeOperation operationId completedAtMs) o completedAtMs
    rw [hruns]
    exact deleteSelectedMetadata_links o

theorem deletion_keeps {request : DeletionRequest} (h : request.run s = .ok s') :
    NoneNew s s' ∧ LinksKept s s' := by
  cases request with
  -- rules and plans leave the rows alone
  | setRetention policy event =>
    obtain ⟨_, _, rfl⟩ := setRetention_frame h
    exact ⟨noneNew_of_eq rfl, linksKept_of_eq rfl⟩
  | clearRetention projectId updatedAtMs event =>
    obtain ⟨⟨_, _⟩, hrun, rfl⟩ := map_eq_ok.mp h
    obtain ⟨_, _, rfl⟩ := clearRetention_frame hrun
    exact ⟨noneNew_of_eq rfl, linksKept_of_eq rfl⟩
  | beginObjectDeletion value =>
    obtain ⟨⟨_, _⟩, hrun, rfl⟩ := map_eq_ok.mp h
    rcases beginObjectDeletion_spec hrun with rfl | ⟨_, _, _, rfl, -⟩
    · exact ⟨noneNew_of_eq rfl, linksKept_of_eq rfl⟩
    · exact ⟨noneNew_of_eq rfl, linksKept_of_eq rfl⟩
  | beginRetention projectId runId actor requestId startedAtMs =>
    obtain ⟨⟨_, _⟩, hrun, rfl⟩ := map_eq_ok.mp h
    rcases beginRetention_spec hrun with ⟨_, rfl⟩ | ⟨_, _, _, _, _, rfl, -⟩
    · exact ⟨noneNew_of_eq rfl, linksKept_of_eq rfl⟩
    · exact ⟨noneNew_of_eq rfl, linksKept_of_eq rfl⟩
  | failRetention runId completedAtMs =>
    obtain ⟨_, rfl⟩ := failRetention_frame h
    exact ⟨noneNew_of_eq rfl, linksKept_of_eq rfl⟩
  | planYardCleanup deployId createdAtMs =>
    rcases planYardCleanup_spec h with rfl | ⟨_, _, _, _, rfl, -⟩
    · exact ⟨noneNew_of_eq rfl, linksKept_of_eq rfl⟩
    · exact ⟨noneNew_of_eq rfl, linksKept_of_eq rfl⟩
  -- the end of a deletion only removes reservations
  | finishDeletion operationId completedAtMs event =>
    refine ⟨?_, finishDeletion_links h⟩
    rcases finishDeletion_rows h with rfl | ⟨o, -, hreservations⟩
    · exact noneNew_of_eq rfl
    · exact fun r hr => ⟨r, ((hreservations r).mp hr).1, rfl⟩

end Deletions

/-- The rows change as `UploadRows` says, or a deletion takes some of them away. -/
def RowsStep (s s' : Repository) : Prop :=
  UploadRows.RowsChange s s' ∨ ∃ o, UploadRows.RowsRemoved s s' o

theorem OtherRequest.rowsStep {request : OtherRequest} (h : request.run s = .ok s') :
    RowsStep s s' ∧ NoneNew s s' ∧ LinksKept s s' := by
  cases request with
  | upload request reserved =>
    obtain ⟨⟨_, _⟩, hrun, rfl⟩ := map_eq_ok.mp h
    exact ⟨Or.inl (UploadRows.uploadChange hrun), upload_keeps reserved hrun⟩
  | part request => exact ⟨Or.inl (UploadRows.partChange h), part_keeps h⟩
  | deletion request =>
    refine ⟨?_, deletion_keeps h⟩
    rcases UploadRows.deletionChange h with hchange | ⟨_, _, _, -, o, hremoved⟩
    · exact Or.inl hchange
    · exact Or.inr ⟨o, hremoved⟩
  | environment other =>
    obtain rfl := Except.ok.inj h
    exact ⟨Or.inl (.quiet rfl rfl), noneNew_of_eq rfl, linksKept_of_eq rfl⟩

theorem RowsStep.paired (hpaired : UploadRows.Paired s) (h : RowsStep s s') :
    UploadRows.Paired s' := by
  rcases h with hchange | ⟨o, hremoved⟩
  · exact UploadRows.paired_change hpaired hchange
  · exact UploadRows.paired_removed hpaired hremoved

/-- The reservation `r` of the version `v` goes on as `r'` of `v'`. -/
structure Goes (r r' : UploadReservationRow) (v v' : ObjectVersionRecord) : Prop where
  versionId : r'.versionId = r.versionId
  source : v'.source = v.source
  same : ∀ value, SameRequest (reservationRecord r' v') value ↔
    SameRequest (reservationRecord r v) value
  requested : r'.state = .requested → r.state = .requested ∧ v' = v

theorem Goes.refl (r : UploadReservationRow) (v : ObjectVersionRecord) : Goes r r v v :=
  ⟨rfl, rfl, fun _ => Iff.rfl, fun h => ⟨h, rfl⟩⟩

theorem goes_of_moves {row row' : UploadReservationRow} (v : ObjectVersionRecord)
    (h : UploadRows.Moves row row') : Goes row row' v v := by
  cases h with
  | renewed expiresAtMs hstate => exact ⟨rfl, rfl, fun _ => Iff.rfl, fun _ => ⟨hstate, rfl⟩⟩
  | attached providerUploadId hstate => exact ⟨rfl, rfl, fun _ => Iff.rfl, fun _ => ⟨hstate, rfl⟩⟩
  | uploaded hstate => exact ⟨rfl, rfl, fun _ => Iff.rfl, fun _ => ⟨hstate, rfl⟩⟩

/-- What a request does to one reservation and its version: a closed reservation is of the same
request, and a requested one still reserves the same version. -/
theorem goes (hpaired : UploadRows.Paired s) (h : RowsStep s s') {r r' : UploadReservationRow}
    {v v' : ObjectVersionRecord} (hr : r ∈ s.uploadReservations) (hr' : r' ∈ s'.uploadReservations)
    (hid : r'.id = r.id) (hv : v ∈ s.objectVersions) (hvid : v.id = r.versionId)
    (hv' : v' ∈ s'.objectVersions) (hvid' : v'.id = r'.versionId) : Goes r r' v v' := by
  -- where a reservation and its version are replaced together, `r` is the one or another
  have hreplaced : ∀ {row row' : UploadReservationRow} {w w' : ObjectVersionRecord},
      s.uploadReservations.Replaced s'.uploadReservations row row' →
      s.objectVersions.Replaced s'.objectVersions w w' → w.id = row.versionId →
      Goes row row' w w' → Goes r r' v v' := by
    intro row row' w w' hrow hversion hwid hgoes
    rcases (hrow.mem r').mp hr' with ⟨hmem, hne⟩ | rfl
    · obtain rfl : r' = r := Table.eq_of_key hmem hr hid
      rcases (hversion.mem v').mp hv' with ⟨hvmem, -⟩ | rfl
      · obtain rfl : v' = v := Table.eq_of_key hvmem hv (hvid'.trans hvid.symm)
        exact Goes.refl _ _
      · have hsame : r'.versionId = row.versionId :=
          hvid'.symm.trans (hversion.key_eq.trans hwid)
        exact absurd (hpaired.distinct r' hr row hrow.mem_old hsame) hne
    · obtain rfl : row = r := Table.eq_of_key hrow.mem_old hr (hrow.key_eq.symm.trans hid)
      obtain rfl : w = v := Table.eq_of_key hversion.mem_old hv (hwid.trans hvid.symm)
      have hnew : v' = w' := by
        refine Table.eq_of_key hv' hversion.mem_new ?_
        rw [hvid', hgoes.versionId, ← hwid]
        exact hversion.key_eq.symm
      exact hnew ▸ hgoes
  rcases h with hchange | ⟨o, hremoved⟩
  · cases hchange with
    | quiet hrs hvs =>
      rw [hrs] at hr'
      rw [hvs] at hv'
      obtain rfl : r' = r := Table.eq_of_key hr' hr hid
      obtain rfl : v' = v := Table.eq_of_key hv' hv (hvid'.trans hvid.symm)
      exact Goes.refl _ _
    | reserved hvs hfresh hrs =>
      rcases (hrs.mem r').mp hr' with hmem | rfl
      · obtain rfl : r' = r := Table.eq_of_key hmem hr hid
        rcases (hvs.mem v').mp hv' with hvmem | rfl
        · obtain rfl : v' = v := Table.eq_of_key hvmem hv (hvid'.trans hvid.symm)
          exact Goes.refl _ _
        · exact absurd hvid'.symm (hfresh r' hr)
      · exact absurd hid.symm (hrs.fresh r hr)
    | @moved row row' hmoves hrs hvs =>
      rw [hvs] at hv'
      rcases (hrs.mem r').mp hr' with ⟨hmem, -⟩ | rfl
      · obtain rfl : r' = r := Table.eq_of_key hmem hr hid
        obtain rfl : v' = v := Table.eq_of_key hv' hv (hvid'.trans hvid.symm)
        exact Goes.refl _ _
      · obtain rfl : row = r := Table.eq_of_key hrs.mem_old hr (hrs.key_eq.symm.trans hid)
        obtain rfl : v' = v :=
          Table.eq_of_key hv' hv (hvid'.trans (hmoves.versionId.trans hvid.symm))
        exact goes_of_moves _ hmoves
    | completed hstate hwid hrs hvs =>
      exact hreplaced hrs hvs hwid ⟨rfl, rfl, fun _ => Iff.rfl, fun h => by cases h⟩
    | aborted hstate hwid hrs hvs =>
      exact hreplaced hrs hvs hwid ⟨rfl, rfl, fun _ => Iff.rfl, fun h => by cases h⟩
  · obtain rfl : r' = r := Table.eq_of_key ((hremoved.reservations r').mp hr').1 hr hid
    obtain rfl : v' = v :=
      Table.eq_of_key ((hremoved.versions v').mp hv').1 hv (hvid'.trans hvid.symm)
    exact Goes.refl _ _

/-! ### The ledger -/

section Law

variable [Digest] {capabilityKey : String} {used : Set Bytes} {w w' : World}

/-- The reservation is one that its owner can make. -/
def FiledUnder (s : Repository) (r : UploadReservationRow) : UploadOwner → Prop
  | .operator _ => ∀ v ∈ s.objectVersions, v.id = r.versionId → v.source ≠ .inbox
  | .guest inboxId _ => (∀ v ∈ s.objectVersions, v.id = r.versionId → v.source = .inbox) ∧
      Linked s r.id inboxId

/-- The reservation is filed under the owner and the key of the ledger. -/
structure Owned (used : Set Bytes) (s : Repository) (r : UploadReservationRow) (g : Grant) :
    Prop where
  id : r.id = stableUploadId g.owner.identity g.idempotency
  used : uploadIdentity g.owner.identity g.idempotency ∈ used
  key : validateIdempotencyKey g.idempotency = .ok ()
  kind : FiledUnder s r g.owner

/-- Every reservation is filed under the owner it was made for. -/
structure Filed (used : Set Bytes) (w : World) : Prop where
  paired : UploadRows.Paired w.repository
  owned : ∀ r ∈ w.repository.uploadReservations, ∃ g, w.grantOf r.id = some g ∧
    Owned used w.repository r g

theorem filed_init [PercentEncoding] : Filed used (system capabilityKey).init where
  paired := UploadRows.paired_init
  owned _ h := absurd h Table.not_mem_empty

omit [Digest] in
theorem FiledUnder.step {r r' : UploadReservationRow} {owner : UploadOwner}
    (hpaired : UploadRows.Paired s) (hrows : RowsStep s s') (hlinks : LinksKept s s')
    (hr : r ∈ s.uploadReservations) (hr' : r' ∈ s'.uploadReservations) (hid : r'.id = r.id)
    (h : FiledUnder s r owner) : FiledUnder s' r' owner := by
  obtain ⟨v, hv, hvid, -⟩ := hpaired.reservations r hr
  have hsource : ∀ v' ∈ s'.objectVersions, v'.id = r'.versionId → v'.source = v.source :=
    fun v' hv' hvid' => (goes hpaired hrows hr hr' hid hv hvid hv' hvid').source
  cases owner with
  | operator id =>
    intro v' hv' hvid'
    rw [hsource v' hv' hvid']
    exact h v hv hvid
  | guest inboxId fingerprintHash =>
    refine ⟨fun v' hv' hvid' => (hsource v' hv' hvid').trans (h.1 v hv hvid), ?_⟩
    have hlinked := h.2
    rw [← hid] at hlinked
    exact hlinks r'.id inboxId hlinked ⟨r', hr', rfl⟩

/-- A request that makes no reservation keeps the books. -/
theorem Filed.step (h : Filed used w) (hrows : RowsStep w.repository w'.repository)
    (hnew : NoneNew w.repository w'.repository)
    (hlinks : LinksKept w.repository w'.repository) (hgranted : w'.granted = w.granted) :
    Filed used w' := by
  refine ⟨hrows.paired h.paired, fun r' hr' => ?_⟩
  obtain ⟨r, hr, hid⟩ := hnew r' hr'
  obtain ⟨g, hg, howned⟩ := h.owned r hr
  refine ⟨g, ?_, hid ▸ howned.id, howned.used, howned.key,
    howned.kind.step h.paired hrows hlinks hr hr' hid.symm⟩
  rw [World.grantOf, hgranted, ← hid]
  exact hg

/-! ### Requests for uploads -/

variable {authority : UploadAuthority} {call : UploadCall} {authorized : AuthorizedUpload}
  {value : NewUploadReservation} {result : UploadReservationRecord} {nowMs : ℕ}

omit [Digest] in
theorem rowsStep_of_reserved {version : ℕ} (h : Reserved s s' authorized value result version) :
    RowsStep s s' :=
  Or.inl (.reserved h.versions h.fresh h.reservations)

omit [Digest] in
theorem rowsStep_of_replayed {row : UploadReservationRow} {version : ObjectVersionRecord}
    (h : Replayed s s' value nowMs result row version) :
    RowsStep s s' ∧ NoneNew s s' ∧ LinksKept s s' := by
  rcases h.state with rfl | ⟨reservations, rfl, hreplaced⟩
  · exact ⟨Or.inl (.quiet rfl rfl), noneNew_of_eq rfl, linksKept_of_eq rfl⟩
  · exact ⟨Or.inl (.moved (.renewed _ h.requested) hreplaced rfl), noneNew_of_replaced hreplaced,
      linksKept_of_eq rfl⟩

omit [Digest] in
theorem enter_replayed {row : UploadReservationRow} {version : ObjectVersionRecord}
    (h : Replayed w.repository s' value nowMs result row version) :
    w.enter authority call result = w.granted := by
  refine if_pos ⟨row, h.row_mem, ?_⟩
  rw [h.result]
  rfl

omit [Digest] in
theorem enter_reserved {version : ℕ} (hauthorized :
      authorize w.repository authority call.nowMs = .ok authorized)
    (h : Reserved w.repository s' authorized value result version) :
    w.enter authority call result = ⟨value.id, authorized.owner, call.idempotency⟩ :: w.granted := by
  have hid : result.id = value.id := by
    rw [h.result]
    rfl
  have hnone : ¬∃ r ∈ w.repository.uploadReservations, r.id = result.id := by
    rintro ⟨r, hr, hrid⟩
    exact h.reservations.fresh r hr (hrid.trans hid)
  rw [World.enter, if_neg hnone, hauthorized, hid]

theorem filed_reserved {version : ℕ} (h : Filed used w)
    (hauthorized : authorize w.repository authority call.nowMs = .ok authorized)
    (hkey : validateIdempotencyKey call.idempotency = .ok ())
    (hused : uploadIdentity authorized.owner.identity call.idempotency ∈ used)
    (hasks : Asks w.repository authorized call value)
    (hreserved : Reserved w.repository s' authorized value result version) :
    Filed used ⟨s', w.enter authority call result⟩ := by
  refine ⟨(rowsStep_of_reserved hreserved).paired h.paired, fun r hr => ?_⟩
  rw [World.grantOf, enter_reserved hauthorized hreserved]
  -- a row from before keeps its grant, the new one has the grant of this request
  rcases (hreserved.reservations.mem r).mp hr with hmem | rfl
  · obtain ⟨g, hg, howned⟩ := h.owned r hmem
    have hne : value.id ≠ r.id := fun hid => hreserved.reservations.fresh r hmem hid.symm
    refine ⟨g, ?_, howned.id, howned.used, howned.key, ?_⟩
    · rw [List.find?_cons_of_neg (by simpa using hne)]
      exact hg
    · refine howned.kind.step h.paired (rowsStep_of_reserved hreserved) ?_ hmem hr rfl
      rintro uploadId inboxId ⟨link, hlink, hids⟩ -
      exact ⟨link, hreserved.links link hlink, hids⟩
  · refine ⟨⟨value.id, authorized.owner, call.idempotency⟩, ?_, hasks.id, hused, hkey, ?_⟩
    · exact List.find?_cons_of_pos (decide_eq_true rfl)
    -- the version of the reservation has the source of the request
    · have hsource : ∀ v ∈ s'.objectVersions, v.id = value.id → v.source = value.source := by
        intro v hv hvid
        rcases (hreserved.versions.mem v).mp hv with hvmem | rfl
        · exact absurd hvid (hreserved.versions.fresh v hvmem)
        · rfl
      cases authorized with
      | operator principal =>
        intro v hv hvid
        rw [hsource v hv hvid]
        exact hasks.scope
      | inbox guest =>
        refine ⟨fun v hv hvid => (hsource v hv hvid).trans hasks.scope.1, ?_⟩
        obtain ⟨link, hlink, hid, hinbox⟩ := hreserved.linked guest rfl
        exact ⟨link, hlink, hid, hinbox⟩

/-- What the request digests to identify the upload. -/
def Digests (used : Set Bytes) (w : World) : Request → Prop
  | .ask authority call => ∀ authorized, authorize w.repository authority call.nowMs = .ok authorized →
      uploadIdentity authorized.owner.identity call.idempotency ∈ used
  | .other _ => True

theorem filed_exec [PercentEncoding] {request : Request} (h : Filed used w)
    (hused : Digests used w request) : Filed used (exec capabilityKey w request) := by
  cases request with
  -- a request is refused, makes a reservation, or finds one and replays it
  | ask authority call =>
    cases hrun : requestUpload capabilityKey w.repository authority call with
    | error e =>
      rw [exec_ask_error hrun]
      exact h
    | ok answer =>
      obtain ⟨result, s'⟩ := answer
      rw [exec_ask_ok hrun]
      obtain ⟨authorized, value, hauthorized, hkey, hvalue, hreserve⟩ := requestUpload_spec hrun
      rcases reserveFor_spec (authorize_spec hauthorized) hreserve with
        ⟨version, hreserved⟩ | ⟨row, version, hreplayed⟩
      · exact filed_reserved h hauthorized hkey (hused authorized hauthorized)
          (reservationFor_spec hvalue) hreserved
      · obtain ⟨hrows, hnew, hlinks⟩ := rowsStep_of_replayed hreplayed
        exact h.step hrows hnew hlinks (enter_replayed hreplayed)
  | other request =>
    cases hrun : request.run w.repository with
    | error e =>
      rw [exec_other_error hrun]
      exact h
    | ok s' =>
      rw [exec_other_ok hrun]
      obtain ⟨hrows, hnew, hlinks⟩ := request.rowsStep hrun
      exact h.step hrows hnew hlinks rfl

/-! ### A reservation is given to its owner -/

/-- What is answered to a request is its own. -/
structure Own (w : World) (authority : UploadAuthority) (call : UploadCall)
    (authorized : AuthorizedUpload) (value : NewUploadReservation)
    (result : UploadReservationRecord) (s' : Repository) : Prop where
  same : SameRequest result value
  granted : (World.mk s' (w.enter authority call result)).grantOf result.id =
    some ⟨result.id, authorized.owner, call.idempotency⟩
  linked : ∀ guest, authorized = .inbox guest → Linked s' result.id guest.inbox.id

/-- An owner that can make the reservation is the one that the request comes from. -/
theorem kind_of_filed {row : UploadReservationRow} {version : ObjectVersionRecord}
    {owner : UploadOwner} (hasks : Asks s authorized call value)
    (hreplayed : Replayed s s' value nowMs result row version) (h : FiledUnder s row owner) :
    (∃ id, owner = .operator id) ↔ ∃ id, authorized.owner = .operator id := by
  have hsource : version.source = value.source := hreplayed.same.2.2.2.2.2.2.2.1
  cases authorized with
  | operator principal =>
    refine ⟨fun _ => ⟨_, rfl⟩, fun _ => ?_⟩
    cases owner with
    | operator id => exact ⟨id, rfl⟩
    | guest inboxId fingerprintHash =>
      have hinbox := h.1 version hreplayed.version_mem hreplayed.version_id
      exact absurd (hsource.symm.trans hinbox) hasks.scope
  | inbox guest =>
    constructor
    · rintro ⟨id, rfl⟩
      exact absurd (hsource.trans hasks.scope.1)
        (h version hreplayed.version_mem hreplayed.version_id)
    · rintro ⟨id, hid⟩
      cases hid

theorem own_of_filed (hinj : Set.InjOn sha256 used) (h : Filed used w)
    (hauthorized : authorize w.repository authority call.nowMs = .ok authorized)
    (hkey : validateIdempotencyKey call.idempotency = .ok ())
    (hused : uploadIdentity authorized.owner.identity call.idempotency ∈ used)
    (hasks : Asks w.repository authorized call value)
    (hreserve : reserveFor w.repository authorized value call.nowMs = .ok (result, s')) :
    Own w authority call authorized value result s' := by
  -- either the reservation is new, or the request meets one of the same identifier
  rcases reserveFor_spec (authorize_spec hauthorized) hreserve with
    ⟨version, hreserved⟩ | ⟨row, version, hreplayed⟩
  · obtain rfl := hreserved.result
    refine ⟨⟨rfl, rfl, rfl, rfl, rfl, rfl, rfl, rfl, rfl, rfl, rfl⟩, ?_, hreserved.linked⟩
    rw [World.grantOf, enter_reserved hauthorized hreserved]
    exact List.find?_cons_of_pos (decide_eq_true rfl)
  · obtain ⟨g, hg, howned⟩ := h.owned row hreplayed.row_mem
    have hgid : g.uploadId = row.id := of_decide_eq_true
      (List.find?_some (p := fun g : Grant => decide (g.uploadId = row.id)) hg)
    have hid : stableUploadId g.owner.identity g.idempotency =
        stableUploadId authorized.owner.identity call.idempotency := by
      rw [← howned.id, hreplayed.row_id, hasks.id]
    -- no two identities of the ledger have one digest, so the grant is of this owner and key
    obtain ⟨hidentity, hidempotency⟩ :=
      owner_of_uploadId hinj howned.used hused howned.key hkey hid
    have howner : g.owner = authorized.owner :=
      owner_of_identity hidentity (kind_of_filed hasks hreplayed howned.kind)
    have hentry : g = ⟨row.id, authorized.owner, call.idempotency⟩ := by
      rw [← hgid, ← howner, ← hidempotency]
    have hresult : result.id = row.id := by
      rw [hreplayed.result]
      rfl
    refine ⟨?_, ?_, ?_⟩
    · rw [hreplayed.result]
      exact hreplayed.same
    · rw [World.grantOf, enter_replayed hreplayed, hresult]
      exact hg.trans (congrArg some hentry)
    -- a guest is linked to the upload, in whatever state it was found
    · rintro guest rfl
      have hlinked := howned.kind
      rw [howner] at hlinked
      rw [hresult]
      obtain ⟨-, -, hlinks⟩ := rowsStep_of_replayed hreplayed
      refine hlinks row.id guest.inbox.id hlinked.2 ?_
      rcases hreplayed.state with rfl | ⟨_, rfl, hreplaced⟩
      · exact ⟨row, hreplayed.row_mem, rfl⟩
      · exact ⟨_, hreplaced.mem_new, rfl⟩

/-! ### A reservation goes on while its row is there -/

/-- The reservation that was answered is still there, and reserves the same version as long as it
is requested. -/
structure Follows (s : Repository) (authorized : AuthorizedUpload)
    (record : UploadReservationRecord) : Prop where
  paired : UploadRows.Paired s
  row : ∃ row ∈ s.uploadReservations, ∃ version ∈ s.objectVersions,
    row.id = record.id ∧ version.id = row.versionId ∧
    (∀ value, SameRequest (reservationRecord row version) value ↔ SameRequest record value) ∧
    (row.state = .requested → version = record.version)
  linked : ∀ guest, authorized = .inbox guest → Linked s record.id guest.inbox.id

/-- The row of the reservation is there after the request. -/
def Kept [PercentEncoding] (capabilityKey id : String) (w : World) (request : Request) : Prop :=
  ∃ r ∈ (exec capabilityKey w request).repository.uploadReservations, r.id = id

omit [Digest] in
theorem linksKept_of_reserved {version : ℕ}
    (h : Reserved s s' authorized value result version) : LinksKept s s' := by
  rintro uploadId inboxId ⟨link, hlink, hids⟩ -
  exact ⟨link, h.links link hlink, hids⟩

theorem exec_rows [PercentEncoding] (request : Request) :
    RowsStep w.repository (exec capabilityKey w request).repository ∧
      LinksKept w.repository (exec capabilityKey w request).repository := by
  have hsame : RowsStep w.repository w.repository ∧ LinksKept w.repository w.repository :=
    ⟨Or.inl (.quiet rfl rfl), linksKept_of_eq rfl⟩
  cases request with
  -- an error leaves the repository alone, and every answer is one of the steps
  | ask authority call =>
    cases hrun : requestUpload capabilityKey w.repository authority call with
    | error e =>
      rw [exec_ask_error hrun]
      exact hsame
    | ok answer =>
      obtain ⟨result, s'⟩ := answer
      rw [exec_ask_ok hrun]
      obtain ⟨authorized, value, hauthorized, -, -, hreserve⟩ := requestUpload_spec hrun
      rcases reserveFor_spec (authorize_spec hauthorized) hreserve with
        ⟨version, hreserved⟩ | ⟨row, version, hreplayed⟩
      · exact ⟨rowsStep_of_reserved hreserved, linksKept_of_reserved hreserved⟩
      · obtain ⟨hrows, -, hlinks⟩ := rowsStep_of_replayed hreplayed
        exact ⟨hrows, hlinks⟩
  | other request =>
    cases hrun : request.run w.repository with
    | error e =>
      rw [exec_other_error hrun]
      exact hsame
    | ok s' =>
      rw [exec_other_ok hrun]
      obtain ⟨hrows, -, hlinks⟩ := request.rowsStep hrun
      exact ⟨hrows, hlinks⟩

theorem follows_exec [PercentEncoding] {record : UploadReservationRecord} {request : Request}
    (h : Follows w.repository authorized record) (hkept : Kept capabilityKey record.id w request) :
    Follows (exec capabilityKey w request).repository authorized record := by
  obtain ⟨hrows, hlinks⟩ :=
    (exec_rows request : RowsStep w.repository (exec capabilityKey w request).repository ∧
      LinksKept w.repository (exec capabilityKey w request).repository)
  obtain ⟨row, hrow, version, hversion, hid, hvid, hsame, hrequested⟩ := h.row
  have hpaired := hrows.paired h.paired
  obtain ⟨row', hrow', hid'⟩ := id hkept
  obtain ⟨version', hversion', hvid', -⟩ := hpaired.reservations row' hrow'
  have hgoes := goes h.paired hrows hrow hrow' (hid'.trans hid.symm) hversion hvid hversion' hvid'
  refine ⟨hpaired, ⟨row', hrow', version', hversion', hid', hvid', fun value => ?_, fun hstate => ?_⟩,
    fun guest hguest => hlinks _ _ (h.linked guest hguest) hkept⟩
  · exact (hgoes.same value).trans (hsame value)
  · obtain ⟨hstate, rfl⟩ := hgoes.requested hstate
    exact hrequested hstate

omit [Digest] in
/-- The reservation that is answered is there. -/
theorem follows_answer (hpaired : UploadRows.Paired s) (hentitled : Entitled s nowMs authorized)
    (hreserve : reserveFor s authorized value nowMs = .ok (result, s'))
    (hlinked : ∀ guest, authorized = .inbox guest → Linked s' result.id guest.inbox.id) :
    Follows s' authorized result := by
  rcases reserveFor_spec hentitled hreserve with ⟨version, hreserved⟩ | ⟨row, version, hreplayed⟩
  · obtain rfl := hreserved.result
    exact ⟨(rowsStep_of_reserved hreserved).paired hpaired,
      ⟨_, hreserved.reservations.mem_new, _, hreserved.versions.mem_new, rfl, rfl,
        fun _ => Iff.rfl, fun _ => rfl⟩, hlinked⟩
  · obtain ⟨hrows, -, -⟩ := rowsStep_of_replayed hreplayed
    have hpaired' := hrows.paired hpaired
    obtain rfl := hreplayed.result
    rcases hreplayed.state with rfl | ⟨_, rfl, hreplaced⟩
    · exact ⟨hpaired', ⟨row, hreplayed.row_mem, version, hreplayed.version_mem, rfl,
        hreplayed.version_id, fun _ => Iff.rfl, fun _ => rfl⟩, hlinked⟩
    · exact ⟨hpaired', ⟨_, hreplaced.mem_new, version, hreplayed.version_mem, rfl,
        hreplayed.version_id, fun _ => Iff.rfl, fun _ => rfl⟩, hlinked⟩

/-! ### The law over runs -/

/-- What a repeated request is answered while the reservation of the first one is there. -/
structure Replay (record : UploadReservationRecord) (s : Repository) (value : NewUploadReservation)
    (nowMs : ℕ) (answer : Except ApiError (UploadReservationRecord × Repository)) : Prop where
  /-- A requested reservation of the same fields is returned, and renewed when it has expired. -/
  returned : ∀ row ∈ s.uploadReservations, row.id = record.id → row.state = .requested →
    SameRequest record value → Admitted s value →
      ∃ result s', answer = .ok (result, s') ∧ result.id = record.id ∧
        result.version = record.version ∧ result.state = .requested ∧
        result.expiresAtMs = if row.expiresAtMs ≤ nowMs then value.expiresAtMs else row.expiresAtMs
  /-- A reservation of other fields, or one that is no longer requested, conflicts. -/
  rejected : ∀ row ∈ s.uploadReservations, row.id = record.id →
    row.state ≠ .requested ∨ ¬SameRequest record value → Admitted s value →
      answer = .error .conflict
  /-- No version is made and no capacity taken, whatever the answer is. -/
  unchanged : ∀ result s', answer = .ok (result, s') →
    result.id = record.id ∧ s'.objectVersions = s.objectVersions ∧ s'.inboxes = s.inboxes ∧
      s'.inboxUploads = s.inboxUploads

theorem replay_of_follows {authorized₁ : AuthorizedUpload} {record : UploadReservationRecord}
    (h : Follows s authorized₁ record) (hentitled : Entitled s call.nowMs authorized)
    (howner : authorized.owner = authorized₁.owner) (hasks : Asks s authorized call value)
    (hvalue : value.id = record.id) :
    Replay record s value call.nowMs (reserveFor s authorized value call.nowMs) := by
  obtain ⟨row, hrow, version, hversion, hid, hvid, hsame, hrequested⟩ := h.row
  have hrid : row.id = value.id := hid.trans hvalue.symm
  have hunique : ∀ r ∈ s.uploadReservations, r.id = record.id → r = row :=
    fun r hr hrecord => Table.eq_of_key hr hrow (hrecord.trans hid.symm)
  -- a request that is past the checks is a replay, and finds the reservation
  have hreplay : Admitted s value → ∃ find, Finds find s value.id ∧ FindsById find ∧
      reserveFor s authorized value call.nowMs = replayWith find s value call.nowMs := by
    intro hadmitted
    have htext := (validateReservation_bounds hadmitted.1).1
    have htaken := reserveFor_taken hentitled hasks hadmitted hrow hrid
    cases authorized with
    | operator principal =>
      exact ⟨uploadById, finds_uploadById htext, findsById_uploadById, htaken⟩
    | inbox guest =>
      refine ⟨guestUpload guest call.nowMs, ?_, findsById_guestUpload guest call.nowMs, htaken⟩
      obtain ⟨hnow, inbox, hinbox, hactive⟩ := hentitled
      cases authorized₁ with
      | operator principal => cases howner
      | inbox guest₁ =>
        have hinboxId : guest.inbox.id = guest₁.inbox.id := (UploadOwner.guest.inj howner).1
        obtain ⟨link, hlink, hlid, hlinbox⟩ := h.linked guest₁ rfl
        refine finds_guestUpload htext hnow hlink (hlid.trans hvalue.symm) hactive ?_
        rw [hinbox, hinboxId, hlinbox]
  refine ⟨fun r hr hrecord hstate hfields hadmitted => ?_,
    fun r hr hrecord hdiffers hadmitted => ?_, fun result s' hanswer => ?_⟩
  · obtain rfl := hunique r hr hrecord
    obtain ⟨htext, hexpires, -⟩ := validateReservation_bounds hadmitted.1
    obtain ⟨find, hfinds, hbyId, hanswer⟩ := hreplay hadmitted
    rw [hanswer]
    obtain ⟨result, s', hok⟩ :
        ∃ result s', replayWith find s value call.nowMs = .ok (result, s') :=
      replayWith_ok hfinds htext hexpires hrow hrid hversion hvid hstate
        ((hsame value).mpr hfields)
    obtain ⟨row', version', hreplayed⟩ := replayWith_spec hbyId hok
    obtain rfl : row' = r := Table.eq_of_key hreplayed.row_mem hrow (hreplayed.row_id.trans hrid.symm)
    obtain rfl : version' = version :=
      Table.eq_of_key hreplayed.version_mem hversion (hreplayed.version_id.trans hvid.symm)
    refine ⟨result, s', hok, ?_⟩
    rw [hreplayed.result]
    exact ⟨hid, hrequested hstate, hstate, rfl⟩
  · obtain rfl := hunique r hr hrecord
    obtain ⟨find, hfinds, -, hanswer⟩ := hreplay hadmitted
    rw [hanswer]
    refine replayWith_conflict hfinds hrow hrid hversion hvid ?_
    rintro ⟨hstate, hfields⟩
    rcases hdiffers with hne | hne
    · exact hne hstate
    · exact hne ((hsame value).mp hfields)
  · rcases reserveFor_spec hentitled hanswer with
      ⟨_, hreserved⟩ | ⟨row', version', hreplayed⟩
    · exact absurd hrid (hreserved.reservations.fresh row hrow)
    · have hresult : result.id = record.id := by
        rw [hreplayed.result]
        exact hreplayed.row_id.trans hvalue
      rcases hreplayed.state with rfl | ⟨_, rfl, -⟩
      · exact ⟨hresult, rfl, rfl, rfl⟩
      · exact ⟨hresult, rfl, rfl, rfl⟩

/-- What holds of the requests for uploads in a state. -/
structure Lawful [PercentEncoding] (capabilityKey : String) (used : Set Bytes) (w : World) :
    Prop where
  /-- A request is never answered with the reservation of another owner, project or inbox. -/
  own : ∀ authority call authorized value result s',
    authorize w.repository authority call.nowMs = .ok authorized →
    reservationFor capabilityKey w.repository authorized call = .ok value →
    Digests used w (.ask authority call) →
    requestUpload capabilityKey w.repository authority call = .ok (result, s') →
      Own w authority call authorized value result s'
  /-- A later request of the same owner with the same key is a replay of the first one, as long
  as the reservation of the first one is there. -/
  replay : ∀ authority call authorized record s',
    authorize w.repository authority call.nowMs = .ok authorized →
    Digests used w (.ask authority call) →
    requestUpload capabilityKey w.repository authority call = .ok (record, s') →
    ∀ w', Steps (system capabilityKey) (Kept capabilityKey record.id)
      (exec capabilityKey w (.ask authority call)) w' →
    ∀ authority' call' authorized' value', authorize w'.repository authority' call'.nowMs =
      .ok authorized' → authorized'.owner = authorized.owner →
    call'.idempotency = call.idempotency →
    reservationFor capabilityKey w'.repository authorized' call' = .ok value' →
      Replay record w'.repository value' call'.nowMs
        (requestUpload capabilityKey w'.repository authority' call')

theorem requestUpload_eq [PercentEncoding]
    (hauthorized : authorize s authority call.nowMs = .ok authorized)
    (hkey : validateIdempotencyKey call.idempotency = .ok ())
    (hvalue : reservationFor capabilityKey s authorized call = .ok value) :
    requestUpload capabilityKey s authority call = reserveFor s authorized value call.nowMs := by
  unfold requestUpload
  rw [hauthorized, hkey]
  show (reservationFor capabilityKey s authorized call >>= fun value => _) = _
  rw [hvalue]
  rfl

theorem lawful_of_filed [PercentEncoding] (hinj : Set.InjOn sha256 used) (h : Filed used w) :
    Lawful capabilityKey used w where
  own authority call authorized value result s' hauthorized hvalue hused hrequest := by
    obtain ⟨authorized₁, value₁, hauthorized₁, hkey, hvalue₁, hreserve⟩ := requestUpload_spec hrequest
    obtain rfl := Except.ok.inj (hauthorized.symm.trans hauthorized₁)
    obtain rfl := Except.ok.inj (hvalue.symm.trans hvalue₁)
    exact own_of_filed hinj h hauthorized hkey (hused _ hauthorized) (reservationFor_spec hvalue)
      hreserve
  replay authority call authorized record s' hauthorized hused hrequest w' hsteps authority' call'
      authorized' value' hauthorized' howner hidempotency hvalue' := by
    obtain ⟨authorized₁, value, hauthorized₁, hkey, hvalue, hreserve⟩ := requestUpload_spec hrequest
    obtain rfl := Except.ok.inj (hauthorized.symm.trans hauthorized₁)
    have hown := own_of_filed hinj h hauthorized hkey (hused _ hauthorized)
      (reservationFor_spec hvalue) hreserve
    -- new or replayed, the answer has the identifier that was asked for
    have hrecord : record.id = value.id := by
      rcases reserveFor_spec (authorize_spec hauthorized) hreserve with
        ⟨_, hreserved⟩ | ⟨_, _, hreplayed⟩
      · rw [hreserved.result]
        rfl
      · rw [hreplayed.result]
        exact hreplayed.row_id
    have hfirst : Follows (exec capabilityKey w (.ask authority call)).repository authorized record := by
      rw [exec_ask_ok hrequest]
      exact follows_answer h.paired (authorize_spec hauthorized) hreserve hown.linked
    -- what the answer promises is kept by every later request
    have hfollows : Follows w'.repository authorized record := by
      refine hsteps.preserves (P := fun t => Follows t.repository authorized record) ?_ hfirst
      rintro t request _ ht hkept rfl
      exact follows_exec ht hkept
    have hasks := reservationFor_spec hvalue'
    have hid : value'.id = record.id := by
      rw [hrecord, hasks.id, (reservationFor_spec hvalue).id, howner, hidempotency]
    rw [requestUpload_eq hauthorized' (hidempotency ▸ hkey) hvalue']
    exact replay_of_follows hfollows (authorize_spec hauthorized') howner hasks hid

theorem upload_replay_law [PercentEncoding] (hinj : Set.InjOn sha256 used)
    (h : Run (system capabilityKey) (Digests used) w) : Lawful capabilityKey used w := by
  refine lawful_of_filed hinj (Run.inv (P := Filed used) filed_init ?_ h)
  rintro t request _ ht hused rfl
  exact filed_exec ht hused

end Law

/-! ### An operator and a guest -/

/-- The checksum of a text that is one. -/
def sampleChecksum (value : String) : ObjectChecksum :=
  if h : ValidChecksum value then ⟨value, h⟩ else ⟨repeatedDigit '0', by decide⟩

/-- SHA-256 of the texts that the runs below digest: identifiers, capabilities and their hashes. -/
def sampleDigests : List (String × String) :=
  [("token-1\x00key-1", "0045cb7a555953e1c37777edffc5b68450afdb735c5228ed4c8a4560a5008ffb"),
   ("secret\x00token-1\x00key-1",
    "6afbd38517dfce6fed9cff8d87dd8a1760632b1a1c5470630ca718888e8ccb78"),
   ("byu_6afbd38517dfce6fed9cff8d87dd8a1760632b1a1c5470630ca718888e8ccb78",
    "021609f44db3636612dc360654d666c337417344ae7a682938751c6c11360c5c"),
   ("inbox-1:" ++ repeatedDigit 'f' ++ "\x00key-1",
    "d44d9946f52dd765815dff89b8228e9cd924cef2a8482c833f5fddd6ba85d04e"),
   ("secret\x00inbox-1:" ++ repeatedDigit 'f' ++ "\x00key-1",
    "dead451daecbcdbefa2b89602a060ef650907f8cd862fad4c3681210c02a9872"),
   ("byu_dead451daecbcdbefa2b89602a060ef650907f8cd862fad4c3681210c02a9872",
    "977c3404e0582e2a9f56baa3ea866907f1a9839863cca045d400527b34acea2b")]

@[reducible] def sampleDigest : Digest where
  sha256 bytes :=
    match sampleDigests.find? fun entry => utf8 entry.1 = bytes with
    | some entry => sampleChecksum entry.2
    | none => sampleChecksum "e3b0c44298fc1c149afbf4c8996fb92427ae41e4649b934ca495991b7852b855"

attribute [local instance] sampleDigest percentEscapes

def sampleOperator : UploadAuthority :=
  .operator
    { id := "token-1", name := "Token", tokenPrefix := "byd_pat", secretHash := repeatedDigit 'b',
      scopes := ["object:write"], workspaceId := "w", projectId := none, createdAtMs := 0,
      expiresAtMs := 1000, lastUsedAtMs := none, revokedAtMs := none }

def sampleGuest : UploadAuthority :=
  .inbox
    { capabilityHash := sampleChecksum (repeatedDigit 'a')
      fingerprintHash := sampleChecksum (repeatedDigit 'f') }

def sampleCall : UploadCall where
  request :=
    { workspace := ⟨"garden", by decide⟩, project := ⟨"seeds", by decide⟩, path := "peas.txt",
      filename := "peas.txt", sizeBytes := 5, checksumSha256 := repeatedDigit 'c',
      contentType := "text/plain", gitRepository := none, gitCommit := none, gitBranch := none }
  idempotency := "key-1"
  nowMs := 10

/-- A workspace with a project and an inbox. -/
def opened : List Request :=
  [.other (.upload (.createWorkspace { id := "w", name := "Garden", slug := ⟨"garden", by decide⟩ })
    rfl),
   .other (.upload (.createProject
     { id := "p", workspaceId := "w", name := "Seeds", slug := ⟨"seeds", by decide⟩ }) rfl),
   .other (.upload (.createInbox
     { id := "inbox-1", workspaceId := "w", projectId := "p", name := "Drop",
       capabilityHash := repeatedDigit 'a', expiresAtMs := 5000000, maximumFiles := 1,
       maximumBytes := 9, createdAtMs := 0 }
     { id := "e1", workspaceId := "w", actor := "owner", action := "inbox.created",
       requestId := "r1", targetType := "inbox", metadata := [("inboxId", .string "inbox-1")],
       createdAtMs := 0 }) rfl)]

def openedWorld : World :=
  opened.foldl (exec "secret") (system "secret").init

theorem run_opened (used : Set Bytes) : Run (system "secret") (Digests used) openedWorld :=
  Run.ofList (fun _ _ => rfl) Run.init ⟨trivial, trivial, trivial, trivial⟩

/-- What the requests of the operator and the guest digest. -/
def sampleUsed : List Bytes :=
  [uploadIdentity "token-1" "key-1", uploadIdentity ("inbox-1:" ++ repeatedDigit 'f') "key-1"]

theorem injOn_sampleUsed : Set.InjOn sha256 {b | b ∈ sampleUsed} := by
  have hpairs : ∀ a ∈ sampleUsed, ∀ b ∈ sampleUsed, sha256 a = sha256 b → a = b := by
    decide +kernel
  exact fun a ha b hb h => hpairs a ha b hb h

/-- The world after a request of the operator and one of the guest. -/
def askedWorld : World :=
  exec "secret" (exec "secret" openedWorld (.ask sampleOperator sampleCall))
    (.ask sampleGuest sampleCall)

theorem run_asked : Run (system "secret") (Digests {b | b ∈ sampleUsed}) askedWorld := by
  refine ((run_opened _).step ?_ rfl).step ?_ rfl
  · intro authorized hauthorized
    obtain rfl := pure_eq_ok.mp hauthorized
    exact List.mem_cons_self
  · intro authorized hauthorized
    have howner : (authorize (exec "secret" openedWorld (.ask sampleOperator sampleCall)).repository
        sampleGuest sampleCall.nowMs).toOption.map AuthorizedUpload.owner =
          some (.guest "inbox-1" (sampleChecksum (repeatedDigit 'f'))) := by
      decide +kernel
    rw [hauthorized] at howner
    rw [Option.some.inj howner]
    show uploadIdentity _ _ ∈ sampleUsed
    decide +kernel

/-- Both requests have made a reservation, and the world is lawful. -/
theorem lawful_asked :
    (askedWorld.granted.length = 2 ∧ askedWorld.repository.uploadReservations.rows.length = 2 ∧
      askedWorld.repository.inboxUploads.rows.length = 1) ∧
      Lawful "secret" {b | b ∈ sampleUsed} askedWorld :=
  ⟨by decide +kernel, upload_replay_law injOn_sampleUsed run_asked⟩

/-- The reservation of the operator, uploaded, completed and deleted. -/
def deleted : List Request :=
  let id := stableUploadId "token-1" "key-1"
  [.other (.upload (.recordUploadedBytes id 5 (repeatedDigit 'c')) rfl),
   .other (.upload (.completeUpload id) rfl),
   .other (.deletion (.beginObjectDeletion
     { id := "d", target := { projectId := "p", objectPath := "peas.txt", version := none }
       actor := "owner", requestId := "r2", createdAtMs := 20 })),
   .other (.deletion (.finishDeletion "d" 30
     { id := "e2", workspaceId := "w", actor := "owner", action := "object.deleted",
       requestId := "r2", targetType := "object", metadata := [], createdAtMs := 30 }))]

/-- A request that is repeated after the object was deleted makes a version again: the reservation
that it would have met went with the object. -/
theorem deleted_upload_is_reserved_again :
    ¬∀ w, Run (system "secret") (Digests {b | b ∈ sampleUsed}) w → ∀ authority call record s',
      requestUpload "secret" w.repository authority call = .ok (record, s') → ∀ w',
        Steps (system "secret") (fun _ _ => True) (exec "secret" w (.ask authority call)) w' →
          ∀ result s'', requestUpload "secret" w'.repository authority call = .ok (result, s'') →
            s''.objectVersions = w'.repository.objectVersions := by
  intro h
  have hruns : (requestUpload "secret" openedWorld.repository sampleOperator
        sampleCall).isOk = true ∧
      (deleted.foldl (exec "secret")
        (exec "secret" openedWorld
          (.ask sampleOperator sampleCall))).repository.objectVersions.rows = [] ∧
      (exec "secret" (deleted.foldl (exec "secret")
        (exec "secret" openedWorld (.ask sampleOperator sampleCall)))
          (.ask sampleOperator sampleCall)).repository.objectVersions.rows.length = 1 := by
    decide +kernel
  obtain ⟨hfirst, hnone, hagain⟩ := hruns
  -- both requests are granted; the second would have had to leave the versions empty
  cases hrecord : requestUpload "secret" openedWorld.repository sampleOperator sampleCall with
  | error e =>
    rw [hrecord] at hfirst
    cases hfirst
  | ok answer =>
    cases hresult : requestUpload "secret" (deleted.foldl (exec "secret")
        (exec "secret" openedWorld (.ask sampleOperator sampleCall))).repository sampleOperator
          sampleCall with
    | error e =>
      rw [exec_ask_error hresult, hnone] at hagain
      cases hagain
    | ok again =>
      have hsame := h openedWorld (run_opened _) sampleOperator sampleCall answer.1 answer.2 hrecord
        _ (Steps.ofList_true (fun _ _ => rfl) Steps.refl deleted) again.1 again.2 hresult
      obtain ⟨record, s'⟩ := again
      rw [exec_ask_ok hresult] at hagain
      rw [hsame, hnone] at hagain
      cases hagain

end UploadReplays

end BlobYard
