/-
A reservation and its version agree.

The operator, the inbox and the multipart operations move reservations, versions and parts in
transactions of their own.  Every one of them moves a reservation along `Moves`, and a version
together with its reservation.

* `RowsChange` — what a request can do to the two tables;
* `Paired` — the invariant: every version has its reservation, in the state that belongs to it;
* `state_of_closed` — a step lemma: a closed reservation stays closed while its row is there;
* `upload_rows_law` — the law over runs.
-/
import BlobYard.Lib.Run
import BlobYard.Repository.Requests

namespace BlobYard

open Outcome Repository

namespace UploadRows

/-! ### Requests -/

/-- The operations on the parts of a multipart upload. -/
inductive PartRequest where
  | attach (id providerUploadId : String)
  | issue (parts : List NewUploadPartGrant)
  | record (uploadId : String) (partNumber size : ℕ) (checksum : String)
    (providerTag : Option String)

def PartRequest.run (s : Repository) : PartRequest → Except RepositoryError Repository
  | .attach id providerUploadId => Prod.snd <$> s.attachMultipart id providerUploadId
  | .issue parts => Prod.snd <$> s.issueUploadParts parts
  | .record uploadId partNumber size checksum providerTag =>
    s.recordUploadedPart uploadId partNumber size checksum providerTag

/-- The requests on uploads, their parts and deletions, or any change of the remaining tables. -/
inductive Request where
  | upload (request : UploadRequest)
  | part (request : PartRequest)
  | deletion (request : DeletionRequest)
  | environment (other : Repository)

def Request.run (s : Repository) : Request → Except RepositoryError Repository
  | .upload request => Prod.snd <$> request.run s
  | .part request => request.run s
  | .deletion request => request.run s
  | .environment other =>
    .ok { other with
      objectVersions := s.objectVersions, uploadReservations := s.uploadReservations
      uploadParts := s.uploadParts }

/-- A request that fails leaves everything as it was. -/
def exec (s : Repository) (request : Request) : Repository :=
  match request.run s with
  | .ok s' => s'
  | .error _ => s

/-- Requests in any order, from an empty repository. -/
def system : System Repository Request where
  init := Repository.empty
  step s request s' := s' = exec s request

/-! ### What a request does to the rows -/

variable {s s' : Repository} {request : Request}

/-- An open reservation moves on without its version: it is renewed or marked with its provider
upload, or its bytes are recorded. -/
inductive Moves (row : UploadReservationRow) : UploadReservationRow → Prop
  | renewed (expiresAtMs : ℕ) : row.state = .requested → Moves row { row with expiresAtMs }
  | attached (providerUploadId : String) : row.state = .requested →
    Moves row { row with providerUploadId := some providerUploadId }
  | uploaded : row.state = .requested →
    Moves row { row with
      state := .uploaded, receivedSize := some row.expectedSize
      receivedChecksum := some row.expectedChecksum }

/-- What a request can do to the reservations and the versions. -/
inductive RowsChange (s s' : Repository) : Prop
  | quiet : s'.uploadReservations = s.uploadReservations → s'.objectVersions = s.objectVersions →
    RowsChange s s'
  | reserved {value : NewUploadReservation} {version : ℕ} :
    s.objectVersions.Inserted s'.objectVersions (reservedVersion value version) →
    (∀ r ∈ s.uploadReservations, r.versionId ≠ value.id) →
    s.uploadReservations.Inserted s'.uploadReservations (requestedReservation value) →
    RowsChange s s'
  | moved {row row' : UploadReservationRow} : Moves row row' →
    s.uploadReservations.Replaced s'.uploadReservations row row' →
    s'.objectVersions = s.objectVersions → RowsChange s s'
  | completed {row : UploadReservationRow} {version : ObjectVersionRecord} :
    row.state = .uploaded → version.id = row.versionId →
    s.uploadReservations.Replaced s'.uploadReservations row { row with state := .complete } →
    s.objectVersions.Replaced s'.objectVersions version (completedVersion version row) →
    RowsChange s s'
  | aborted {row : UploadReservationRow} {version : ObjectVersionRecord} :
    (row.state = .requested ∨ row.state = .uploaded) → version.id = row.versionId →
    s.uploadReservations.Replaced s'.uploadReservations row
      { row with state := .aborted, receivedSize := none, receivedChecksum := none } →
    s.objectVersions.Replaced s'.objectVersions version { version with state := .aborted } →
    RowsChange s s'

/-- Finishing a deletion removes versions with their reservations. -/
structure RowsRemoved (s s' : Repository) (o : DeletionOperationRow) : Prop where
  versions : ∀ v, v ∈ s'.objectVersions ↔ v ∈ s.objectVersions ∧ ¬s.Removes o v
  reservations : ∀ r, r ∈ s'.uploadReservations ↔
    r ∈ s.uploadReservations ∧ ¬s.RemovesId o r.versionId

theorem uploadChange {request : UploadRequest} {completed : Option ObjectVersionRecord}
    (h : request.run s = .ok (completed, s')) : RowsChange s s' := by
  cases request with
  -- workspaces, projects and links are in other tables
  | createWorkspace workspace =>
    simp only [UploadRequest.run, createWorkspace, map_eq_ok, bind_eq_ok, pure_eq_ok,
      Prod.mk.injEq] at h
    obtain ⟨_, ⟨-, -, -, -, _, -, rfl⟩, -, rfl⟩ := h
    exact .quiet rfl rfl
  | createProject project =>
    simp only [UploadRequest.run, createProject, map_eq_ok, bind_eq_ok, pure_eq_ok,
      Prod.mk.injEq] at h
    obtain ⟨_, ⟨-, -, -, -, -, -, -, -, _, -, rfl⟩, -, rfl⟩ := h
    exact .quiet rfl rfl
  | createInbox inbox event =>
    simp only [UploadRequest.run, map_eq_ok, Prod.mk.injEq] at h
    obtain ⟨_, hrun, -, rfl⟩ := h
    obtain ⟨_, _, _, hs', -⟩ := createInbox_spec hrun
    rw [hs']
    exact .quiet rfl rfl
  | revokeInbox inboxId workspaceId revokedAtMs event =>
    simp only [UploadRequest.run, map_eq_ok, Prod.mk.injEq] at h
    obtain ⟨_, hrun, -, rfl⟩ := h
    -- revoked already, or now
    rcases revokeInbox_spec hrun with hs' | ⟨_, _, _, hs', -⟩
    · rw [hs']
      exact .quiet rfl rfl
    · rw [hs']
      exact .quiet rfl rfl
  | reserveUpload value =>
    simp only [UploadRequest.run, map_eq_ok, Prod.mk.injEq] at h
    -- a reservation brings its version with it
    obtain ⟨⟨_, _⟩, hrun, -, rfl⟩ := h
    obtain ⟨_, _, _, -, rfl, hversions, hfresh, hreservations⟩ := reserveUpload_spec hrun
    exact .reserved hversions hfresh hreservations
  | renewUpload id expiresAtMs =>
    simp only [UploadRequest.run, map_eq_ok, Prod.mk.injEq] at h
    obtain ⟨_, hrun, -, rfl⟩ := h
    obtain ⟨_, _, rfl, -, hstate, hreservations⟩ := renewUpload_spec hrun
    -- its time and its bytes are moved on while it is requested
    exact .moved (.renewed expiresAtMs hstate) hreservations rfl
  | recordUploadedBytes id size checksum =>
    simp only [UploadRequest.run, map_eq_ok, Prod.mk.injEq] at h
    obtain ⟨_, hrun, -, rfl⟩ := h
    obtain ⟨row, _, _, rfl, -, hstate, rfl, rfl, -, -, hreservations⟩ :=
      recordUploadedBytes_spec hrun
    exact .moved (.uploaded hstate) hreservations rfl
  | completeUpload id =>
    simp only [UploadRequest.run, map_eq_ok, Prod.mk.injEq] at h
    obtain ⟨⟨_, _⟩, hrun, -, rfl⟩ := h
    -- both rows are closed together
    obtain ⟨_, _, _, _, rfl, -, hstate, hid, -, -, hreservations, hversions⟩ :=
      completeUpload_spec hrun
    exact .completed hstate hid hreservations hversions
  | abortUpload id =>
    simp only [UploadRequest.run, map_eq_ok, Prod.mk.injEq] at h
    obtain ⟨⟨_, _⟩, hrun, -, rfl⟩ := h
    obtain ⟨_, _, _, _, _, rfl, -, hstate, hid, -, hreservations, hversions⟩ := abortUpload_spec hrun
    exact .aborted hstate hid hreservations hversions
  | reserveInboxUpload upload value =>
    simp only [UploadRequest.run, map_eq_ok, Prod.mk.injEq] at h
    obtain ⟨⟨_, _⟩, hrun, -, rfl⟩ := h
    obtain ⟨_, _, _, _, _, _, rfl, -, -, -, -, hversions, hfresh, hreservations, -⟩ :=
      reserveInboxUpload_spec hrun
    exact .reserved hversions hfresh hreservations
  | completeInboxUpload capabilityHash uploadId nowMs event =>
    simp only [UploadRequest.run, map_eq_ok, Prod.mk.injEq] at h
    obtain ⟨⟨_, _⟩, hrun, -, rfl⟩ := h
    obtain ⟨_, _, _, _, _, _, _, _, _, rfl, -, hstate, hid, -, -, -, -, -, -, -, hreservations,
      hversions, -⟩ := completeInboxUpload_spec hrun
    exact .completed hstate hid hreservations hversions
  | abortInboxUpload capabilityHash uploadId nowMs =>
    simp only [UploadRequest.run, map_eq_ok, Prod.mk.injEq] at h
    obtain ⟨⟨_, _⟩, hrun, -, rfl⟩ := h
    obtain ⟨_, _, _, _, _, _, _, _, _, rfl, -, hstate, hid, -, -, -, -, -, -, hreservations,
      hversions, -⟩ := abortInboxUpload_spec hrun
    exact .aborted hstate hid hreservations hversions

theorem partChange {request : PartRequest} (h : request.run s = .ok s') : RowsChange s s' := by
  cases request with
  | attach id providerUploadId =>
    obtain ⟨⟨_, _⟩, hrun, rfl⟩ := map_eq_ok.mp h
    rcases attachMultipart_spec hrun with rfl | ⟨_, _, rfl, -, hstate, hreservations⟩
    · exact .quiet rfl rfl
    · exact .moved (.attached providerUploadId hstate) hreservations rfl
  | issue parts =>
    obtain ⟨⟨_, _⟩, hrun, rfl⟩ := map_eq_ok.mp h
    obtain ⟨_, rfl⟩ := issueUploadParts_frame hrun
    exact .quiet rfl rfl
  | record uploadId partNumber size checksum providerTag =>
    obtain ⟨_, rfl⟩ := recordUploadedPart_frame h
    exact .quiet rfl rfl

theorem deletionChange {request : DeletionRequest} (h : request.run s = .ok s') :
    RowsChange s s' ∨ ∃ operationId completedAtMs event,
      request = .finishDeletion operationId completedAtMs event ∧ ∃ o, RowsRemoved s s' o := by
  -- rules and plans are in other tables
  cases request with
  | setRetention policy event =>
    obtain ⟨_, _, rfl⟩ := setRetention_frame h
    exact Or.inl (.quiet rfl rfl)
  | clearRetention projectId updatedAtMs event =>
    obtain ⟨⟨_, _⟩, hrun, rfl⟩ := map_eq_ok.mp h
    obtain ⟨_, _, rfl⟩ := clearRetention_frame hrun
    exact Or.inl (.quiet rfl rfl)
  | beginObjectDeletion value =>
    obtain ⟨⟨_, _⟩, hrun, rfl⟩ := map_eq_ok.mp h
    rcases beginObjectDeletion_spec hrun with rfl | ⟨_, _, _, rfl, -⟩
    · exact Or.inl (.quiet rfl rfl)
    · exact Or.inl (.quiet rfl rfl)
  | beginRetention projectId runId actor requestId startedAtMs =>
    obtain ⟨⟨_, _⟩, hrun, rfl⟩ := map_eq_ok.mp h
    rcases beginRetention_spec hrun with ⟨_, rfl⟩ | ⟨_, _, _, _, _, rfl, -⟩
    · exact Or.inl (.quiet rfl rfl)
    · exact Or.inl (.quiet rfl rfl)
  | failRetention runId completedAtMs =>
    obtain ⟨_, rfl⟩ := failRetention_frame h
    exact Or.inl (.quiet rfl rfl)
  | planYardCleanup deployId createdAtMs =>
    rcases planYardCleanup_spec h with rfl | ⟨_, _, _, _, rfl, -⟩
    · exact Or.inl (.quiet rfl rfl)
    · exact Or.inl (.quiet rfl rfl)
  -- finishing a plan removes the rows of its versions, once
  | finishDeletion operationId completedAtMs event =>
    rcases finishDeletion_rows h with rfl | ⟨o, hversions, hreservations⟩
    · exact Or.inl (.quiet rfl rfl)
    · exact Or.inr ⟨operationId, completedAtMs, event, rfl, o, hversions, hreservations⟩

/-- A request moves the rows, or finishes a deletion. -/
theorem rowsChange (h : request.run s = .ok s') :
    RowsChange s s' ∨ ∃ operationId completedAtMs event,
      request = .deletion (.finishDeletion operationId completedAtMs event) ∧
        ∃ o, RowsRemoved s s' o := by
  cases request with
  | upload request =>
    obtain ⟨⟨_, _⟩, hrun, rfl⟩ := map_eq_ok.mp h
    exact Or.inl (uploadChange hrun)
  | part request => exact Or.inl (partChange h)
  | deletion request =>
    rcases deletionChange h with hchange | ⟨operationId, completedAtMs, event, rfl, hremoved⟩
    · exact Or.inl hchange
    · exact Or.inr ⟨operationId, completedAtMs, event, rfl, hremoved⟩
  | environment other =>
    obtain rfl := Except.ok.inj h
    exact Or.inl (.quiet rfl rfl)

/-! ### The invariant -/

/-- The state of the version that a reservation in this state reserves. -/
def versionState : ReservationState → UploadState
  | .requested | .uploaded => .pending
  | .complete => .complete
  | .aborted => .aborted

/-- The reservation and its version agree. -/
structure Agrees (r : UploadReservationRow) (v : ObjectVersionRecord) : Prop where
  state : v.state = versionState r.state
  /-- Bytes are recorded as received exactly as they were expected. -/
  received : r.state = .uploaded ∨ r.state = .complete →
    r.receivedSize = some r.expectedSize ∧ r.receivedChecksum = some r.expectedChecksum
  complete : v.state = .complete →
    v.size = some r.expectedSize ∧ v.checksum = some r.expectedChecksum

/-- Every reservation has a version that agrees with it, and every version a reservation. -/
structure Paired (s : Repository) : Prop where
  reservations : ∀ r ∈ s.uploadReservations, ∃ v ∈ s.objectVersions, v.id = r.versionId ∧ Agrees r v
  versions : ∀ v ∈ s.objectVersions, ∃ r ∈ s.uploadReservations, r.versionId = v.id
  /-- No two reservations reserve one version. -/
  distinct : s.uploadReservations.UniqueOn UploadReservationRow.versionId

theorem Moves.agrees {row row' : UploadReservationRow} {v : ObjectVersionRecord}
    (h : Moves row row') (ha : Agrees row v) : Agrees row' v := by
  cases h with
  | renewed expiresAtMs hstate => exact ⟨ha.state, ha.received, ha.complete⟩
  | attached providerUploadId hstate => exact ⟨ha.state, ha.received, ha.complete⟩
  | uploaded hstate =>
    have hpending : v.state = .pending := by
      rw [ha.state, hstate]
      rfl
    refine ⟨hpending, fun _ => ⟨rfl, rfl⟩, fun hcomplete => ?_⟩
    rw [hpending] at hcomplete
    cases hcomplete

theorem Moves.versionId {row row' : UploadReservationRow} (h : Moves row row') :
    row'.versionId = row.versionId := by
  cases h <;> rfl

theorem paired_init : Paired Repository.empty where
  reservations _ h := absurd h Table.not_mem_empty
  versions _ h := absurd h Table.not_mem_empty
  distinct _ h := absurd h Table.not_mem_empty

/-- A reservation and its version change together, and the other pairs stay. -/
theorem paired_replace {row row' : UploadReservationRow} {v v' : ObjectVersionRecord}
    (h : Paired s) (hr : s.uploadReservations.Replaced s'.uploadReservations row row')
    (hv : s.objectVersions.Replaced s'.objectVersions v v') (hid : v.id = row.versionId)
    (hsame : row'.versionId = row.versionId) (ha : Agrees row' v') : Paired s' := by
  refine ⟨fun r hrs => ?_, fun w hw => ?_, h.distinct.replace hr hsame⟩
  · rcases (hr.mem r).mp hrs with ⟨hrs, hne⟩ | rfl
    · obtain ⟨w, hw, hwid, hagrees⟩ := h.reservations r hrs
      refine ⟨w, (hv.mem w).mpr (Or.inl ⟨hw, ?_⟩), hwid, hagrees⟩
      rintro rfl
      exact hne (h.distinct r hrs row hr.mem_old (hwid.symm.trans hid))
    · exact ⟨v', hv.mem_new, hv.key_eq.trans (hid.trans hsame.symm), ha⟩
  · rcases (hv.mem w).mp hw with ⟨hw, hne⟩ | rfl
    · obtain ⟨r, hrs, hrid⟩ := h.versions w hw
      refine ⟨r, (hr.mem r).mpr (Or.inl ⟨hrs, ?_⟩), hrid⟩
      rintro rfl
      exact hne (Table.eq_of_key hw hv.mem_old (hrid.symm.trans hid.symm))
    · exact ⟨row', hr.mem_new, hsame.trans (hid.symm.trans hv.key_eq.symm)⟩

theorem paired_change (h : Paired s) (hchange : RowsChange s s') : Paired s' := by
  cases hchange with
  | quiet hr hv =>
    refine ⟨?_, ?_, ?_⟩
    · rw [hr, hv]
      exact h.reservations
    · rw [hr, hv]
      exact h.versions
    · rw [hr]
      exact h.distinct
  | @reserved value version hv hfresh hr =>
    -- the rows of before keep each other; the new ones have each other
    refine ⟨fun r hrs => ?_, fun v hvs => ?_, h.distinct.insert hr hfresh⟩
    · rcases (hr.mem r).mp hrs with hrs | rfl
      · obtain ⟨v, hvs, hid, ha⟩ := h.reservations r hrs
        exact ⟨v, hv.mem_of_mem hvs, hid, ha⟩
      · refine ⟨_, hv.mem_new, rfl, rfl, fun hstate => ?_, fun hstate => ?_⟩
        · rcases hstate with hstate | hstate <;> cases hstate
        · cases hstate
    · rcases (hv.mem v).mp hvs with hvs | rfl
      · obtain ⟨r, hrs, hid⟩ := h.versions v hvs
        exact ⟨r, hr.mem_of_mem hrs, hid⟩
      · exact ⟨_, hr.mem_new, rfl⟩
  | @moved row row' hmoves hr hv =>
    refine ⟨fun r hrs => ?_, fun v hvs => ?_, h.distinct.replace hr hmoves.versionId⟩
    · rw [hv]
      rcases (hr.mem r).mp hrs with ⟨hrs, -⟩ | rfl
      -- a move changes neither the version nor whether it agrees
      · exact h.reservations r hrs
      · obtain ⟨v, hvs, hid, ha⟩ := h.reservations row hr.mem_old
        exact ⟨v, hvs, hid.trans hmoves.versionId.symm, hmoves.agrees ha⟩
    · rw [hv] at hvs
      obtain ⟨r, hrs, hid⟩ := h.versions v hvs
      by_cases hrow : r = row
      · subst hrow
        exact ⟨row', hr.mem_new, hmoves.versionId.trans hid⟩
      · exact ⟨r, (hr.mem r).mpr (Or.inl ⟨hrs, hrow⟩), hid⟩
  | @completed row version hstate hid hr hv =>
    -- the closed version takes the bytes of the reservation, which has received them
    refine paired_replace h hr hv hid rfl ?_
    obtain ⟨v, hvs, hvid, ha⟩ := h.reservations row hr.mem_old
    exact ⟨rfl, fun _ => ha.received (Or.inl hstate), fun _ => ⟨rfl, rfl⟩⟩
  | @aborted row version hstate hid hr hv =>
    -- aborted, the version need not have bytes
    refine paired_replace h hr hv hid rfl ⟨rfl, fun hclosed => ?_, fun hclosed => ?_⟩
    · rcases hclosed with hclosed | hclosed <;> cases hclosed
    · cases hclosed

theorem paired_removed {o : DeletionOperationRow} (h : Paired s) (hremoved : RowsRemoved s s' o) :
    Paired s' := by
  obtain ⟨hv, hr⟩ := hremoved
  refine ⟨fun r hrs => ?_, fun v hvs => ?_, ?_⟩
  · obtain ⟨hrs, hkept⟩ := (hr r).mp hrs
    obtain ⟨v, hvs, hid, ha⟩ := h.reservations r hrs
    refine ⟨v, (hv v).mpr ⟨hvs, ?_⟩, hid, ha⟩
    rintro (hplanned | ⟨hreason, haborted⟩)
    · exact hkept (Or.inl (hid ▸ hplanned))
    · exact hkept (Or.inr ⟨hreason, v, hvs, haborted, hid⟩)
  · obtain ⟨hvs, hkept⟩ := (hv v).mp hvs
    obtain ⟨r, hrs, hid⟩ := h.versions v hvs
    refine ⟨r, (hr r).mpr ⟨hrs, ?_⟩, hid⟩
    rintro (hplanned | ⟨hreason, w, hw, haborted, hwid⟩)
    · exact hkept (Or.inl (hid ▸ hplanned))
    · obtain rfl := Table.eq_of_key hw hvs (hwid.trans hid)
      exact hkept (Or.inr ⟨hreason, haborted⟩)
  · exact fun x hx y hy hxy => h.distinct x ((hr x).mp hx).1 y ((hr y).mp hy).1 hxy

theorem paired_exec (h : Paired s) : Paired (exec s request) := by
  unfold exec
  cases hrun : request.run s with
  | error e => exact h
  | ok s' =>
    rcases rowsChange hrun with hchange | ⟨_, _, _, -, o, hremoved⟩
    · exact paired_change h hchange
    · exact paired_removed h hremoved

/-! ### Closed reservations -/

/-- The reservation is complete or aborted. -/
def Closed (r : UploadReservationRow) : Prop := r.state = .complete ∨ r.state = .aborted

/-- A closed reservation does not change. -/
theorem eq_of_closed {r r' : UploadReservationRow} (h : RowsChange s s')
    (hr : r ∈ s.uploadReservations) (hclosed : Closed r) (hr' : r' ∈ s'.uploadReservations)
    (hid : r'.id = r.id) : r' = r := by
  -- what replaces a row replaces an open one, and keeps its id
  have hreplaced : ∀ {row row' : UploadReservationRow}, ¬Closed row →
      s.uploadReservations.Replaced s'.uploadReservations row row' → r' = r := by
    intro row row' hopen hrow
    rcases (hrow.mem r').mp hr' with ⟨hmem, -⟩ | rfl
    · exact Table.eq_of_key hmem hr hid
    · have hsame : row = r := Table.eq_of_key hrow.mem_old hr (hrow.key_eq.symm.trans hid)
      exact absurd (hsame ▸ hclosed) hopen
  -- so a closed row is still there, under its id
  cases h with
  | quiet hrs hvs =>
    rw [hrs] at hr'
    exact Table.eq_of_key hr' hr hid
  | reserved hvs hfresh hrs =>
    rcases (hrs.mem r').mp hr' with hmem | rfl
    · exact Table.eq_of_key hmem hr hid
    · exact absurd hid.symm (hrs.fresh r hr)
  | @moved row row' hmoves hrs hvs =>
    refine hreplaced (fun hrow => ?_) hrs
    -- a row that moves is requested
    have hstate : row.state = .requested := by cases hmoves <;> assumption
    rcases hrow with hrow | hrow <;> rw [hstate] at hrow <;> cases hrow
  | @completed row version hstate hvid hrs hvs =>
    refine hreplaced (fun hrow => ?_) hrs
    rcases hrow with hrow | hrow <;> rw [hstate] at hrow <;> cases hrow
  | @aborted row version hstate hvid hrs hvs =>
    refine hreplaced (fun hrow => ?_) hrs
    rcases hrow with hrow | hrow <;> rcases hstate with hstate | hstate <;> rw [hstate] at hrow <;>
      cases hrow

/-- Only finishing a deletion takes reservations away. -/
theorem RowsChange.kept {r : UploadReservationRow} (h : RowsChange s s')
    (hr : r ∈ s.uploadReservations) : ∃ r' ∈ s'.uploadReservations, r'.id = r.id := by
  have hreplaced : ∀ {row row' : UploadReservationRow},
      s.uploadReservations.Replaced s'.uploadReservations row row' →
        ∃ r' ∈ s'.uploadReservations, r'.id = r.id := by
    intro row row' hrow
    by_cases hsame : r = row
    · exact ⟨row', hrow.mem_new, hrow.key_eq.trans (congrArg _ hsame.symm)⟩
    · exact ⟨r, (hrow.mem r).mpr (Or.inl ⟨hr, hsame⟩), rfl⟩
  cases h with
  | quiet hrs hvs => exact ⟨r, hrs.symm ▸ hr, rfl⟩
  | reserved hvs hfresh hrs => exact ⟨r, hrs.mem_of_mem hr, rfl⟩
  | moved hmoves hrs hvs => exact hreplaced hrs
  | completed hstate hvid hrs hvs => exact hreplaced hrs
  | aborted hstate hvid hrs hvs => exact hreplaced hrs

/-! ### The law over runs -/

/-- The row of the reservation is there after the request. -/
def Present (id : String) (s : Repository) (request : Request) : Prop :=
  ∃ r ∈ (exec s request).uploadReservations, r.id = id

structure Lawful (s : Repository) : Prop where
  /-- A reservation and its version are complete together, aborted together, or else the version
  is pending. -/
  agree : ∀ r ∈ s.uploadReservations, ∀ v ∈ s.objectVersions, v.id = r.versionId →
    (v.state = .complete ↔ r.state = .complete) ∧ (v.state = .aborted ↔ r.state = .aborted) ∧
      (v.state = .pending ↔ r.state = .requested ∨ r.state = .uploaded)
  /-- Neither of the two is there without the other. -/
  paired : (∀ r ∈ s.uploadReservations, ∃ v ∈ s.objectVersions, v.id = r.versionId) ∧
    ∀ v ∈ s.objectVersions, ∃ r ∈ s.uploadReservations, r.versionId = v.id
  /-- A complete version is as large as expected and as received, and as its checksums say. -/
  exact : ∀ r ∈ s.uploadReservations, ∀ v ∈ s.objectVersions, v.id = r.versionId →
    v.state = .complete →
      v.size = some r.expectedSize ∧ v.checksum = some r.expectedChecksum ∧
        r.receivedSize = v.size ∧ r.receivedChecksum = v.checksum
  /-- A complete or aborted reservation is the same in all later states, while it is there. -/
  final : ∀ r ∈ s.uploadReservations, Closed r → ∀ s', Steps system (Present r.id) s s' →
    r ∈ s'.uploadReservations
  /-- A reservation goes when a deletion is finished, and in no other way. -/
  removed : ∀ r ∈ s.uploadReservations, ∀ request, ¬Present r.id s request →
    ∃ operationId completedAtMs event,
      request = .deletion (.finishDeletion operationId completedAtMs event)
  /-- A request that fails changes no row. -/
  refused : ∀ request e, Request.run s request = .error e →
    (exec s request).uploadReservations = s.uploadReservations ∧
      (exec s request).objectVersions = s.objectVersions ∧
      (exec s request).uploadParts = s.uploadParts

theorem final_of_closed {r : UploadReservationRow} (hr : r ∈ s.uploadReservations)
    (hclosed : Closed r) (h : Steps system (Present r.id) s s') : r ∈ s'.uploadReservations := by
  refine h.preserves (P := fun t => r ∈ t.uploadReservations) ?_ hr
  rintro t request _ ht ⟨r', hr', hid⟩ rfl
  have hsame : r' = r := by
    unfold exec at hr'
    cases hrun : request.run t with
    | error e =>
      rw [hrun] at hr'
      exact Table.eq_of_key hr' ht hid
    | ok t' =>
      rw [hrun] at hr'
      rcases rowsChange hrun with hchange | ⟨_, _, _, -, o, hremoved⟩
      · exact eq_of_closed hchange ht hclosed hr' hid
      · exact Table.eq_of_key ((hremoved.reservations r').mp hr').1 ht hid
  exact hsame ▸ hr'

theorem lawful_of_paired (h : Paired s) : Lawful s where
  -- the states of the two rows are those of one upload
  agree r hr v hv hid := by
    obtain ⟨w, hw, hwid, ha⟩ := h.reservations r hr
    obtain rfl := Table.eq_of_key hw hv (hwid.trans hid.symm)
    rw [ha.state]
    cases r.state <;> simp [versionState]
  paired := ⟨fun r hr => by
    obtain ⟨v, hv, hid, -⟩ := h.reservations r hr
    exact ⟨v, hv, hid⟩, h.versions⟩
  -- the version has the bytes that the reservation has received
  exact r hr v hv hid hcomplete := by
    obtain ⟨w, hw, hwid, ha⟩ := h.reservations r hr
    obtain rfl := Table.eq_of_key hw hv (hwid.trans hid.symm)
    have hstate : r.state = .complete := by
      have hversion := ha.state
      rw [hcomplete] at hversion
      cases hr : r.state <;> rw [hr] at hversion <;> first | rfl | cases hversion
    obtain ⟨hsize, hchecksum⟩ := ha.complete hcomplete
    obtain ⟨hreceived, hreceivedChecksum⟩ := ha.received (Or.inr hstate)
    exact ⟨hsize, hchecksum, hreceived.trans hsize.symm, hreceivedChecksum.trans hchecksum.symm⟩
  final r hr hclosed s' hsteps := final_of_closed hr hclosed hsteps
  -- a row that is gone was removed by finishing a plan
  removed r hr request hgone := by
    unfold Present exec at hgone
    cases hrun : request.run s with
    | error e =>
      rw [hrun] at hgone
      exact absurd ⟨r, hr, rfl⟩ hgone
    | ok s' =>
      rw [hrun] at hgone
      rcases rowsChange hrun with hchange | ⟨operationId, completedAtMs, event, rfl, -⟩
      · exact absurd (hchange.kept hr) hgone
      · exact ⟨operationId, completedAtMs, event, rfl⟩
  -- a refused request changes nothing
  refused request e herror := by
    rw [exec, herror]
    exact ⟨rfl, rfl, rfl⟩

theorem upload_rows_law (h : Run system (fun _ _ => True) s) : Lawful s := by
  refine lawful_of_paired (Run.inv (P := Paired) paired_init ?_ h)
  rintro s request _ hs - rfl
  exact paired_exec hs

/-! ### A multipart upload -/

/-- An upload of five bytes in two parts, from its reservation to its completion, and an attempt to
abort it afterwards. -/
def twoParts : List Request :=
  [.upload (.createWorkspace { id := "w", name := "Depot", slug := ⟨"depot", by decide⟩ }),
   .upload (.createProject
     { id := "p", workspaceId := "w", name := "Stock", slug := ⟨"stock", by decide⟩ }),
   .upload (.reserveUpload
     { id := "u", projectId := "p", objectPath := "list.txt", filename := "list.txt",
       contentType := "text/plain", expectedSize := 5, expectedChecksum := repeatedDigit 'c',
       storageKey := "versions/p/u", capabilityHash := repeatedDigit 'a', expiresAtMs := 50,
       createdAtMs := 1, source := .cli, gitRepository := none, gitCommit := none,
       gitBranch := none, strategy := .multipart, partSize := some 3, partCount := some 2 }),
   .part (.attach "u" "provider"),
   .part (.issue
     [{ uploadId := "u", partNumber := 1, expectedSize := 3, capabilityHash := repeatedDigit 'd',
        expiresAtMs := 40 },
      { uploadId := "u", partNumber := 2, expectedSize := 2, capabilityHash := repeatedDigit 'e',
        expiresAtMs := 40 }]),
   .part (.record "u" 1 3 (repeatedDigit '1') none),
   .part (.record "u" 2 2 (repeatedDigit '2') none),
   .upload (.recordUploadedBytes "u" 5 (repeatedDigit 'c')),
   .upload (.completeUpload "u"),
   .upload (.abortUpload "u")]

/-- The upload is complete with both of its parts, and the rows are lawful. -/
theorem lawful_twoParts :
    ((∃ r ∈ (twoParts.foldl exec Repository.empty).uploadReservations, r.state = .complete) ∧
      (twoParts.foldl exec Repository.empty).uploadParts.rows.length = 2) ∧
      Lawful (twoParts.foldl exec Repository.empty) :=
  ⟨by decide +kernel, upload_rows_law (Run.ofList_true (fun _ _ => rfl) Run.init _)⟩

end UploadRows

end BlobYard
