/-
Inbox capacity accounting.

The counters of an inbox are kept incrementally in one table while the state of its
uploads lives in another.  This file runs the transfer and inbox operations in any
order, with a history of the capacity releases, and compares the counters with the
uploads:

* `Accounts` — the law: reserved counters count the open uploads, current counters the
  completed ones, capacity is never exceeded, every upload is released exactly once;
* `Ledger.accounts` — the law follows from an invariant stated on the links alone;
* `accounts_of_closes_through_inbox` — the law holds in every run in which no operator
  request closes an upload that still holds inbox capacity;
* `operator_abort_keeps_reservation` — one that does leaves the capacity reserved.
-/
import BlobYard.Lib.Run
import BlobYard.Repository.Requests

namespace BlobYard

open Outcome

namespace InboxCapacity

/-! ### Requests and runs -/

/-- The upload whose inbox capacity a successful request releases. -/
def releases : UploadRequest → Option String
  | .completeInboxUpload _ uploadId _ _ => some uploadId
  | .abortInboxUpload _ uploadId _ => some uploadId
  | _ => none

/-- The repository with the history of capacity releases, oldest first. -/
structure World where
  repository : Repository
  released : List String

def World.init : World := ⟨Repository.empty, []⟩

/-- A request that fails leaves everything as it was. -/
def World.exec (w : World) (request : UploadRequest) : World :=
  match request.run w.repository with
  | .ok (_, repository) => ⟨repository, w.released ++ (releases request).toList⟩
  | .error _ => w

/-- Requests in any order, from an empty repository. -/
def system : System World UploadRequest where
  init := World.init
  step w request w' := w' = w.exec request

/-! ### The law -/

/-- The reservation of an upload is neither completed nor aborted. -/
def IsOpen (s : Repository) (uploadId : String) : Prop :=
  ∃ r ∈ s.uploadReservations, r.id = uploadId ∧ (r.state = .requested ∨ r.state = .uploaded)

def IsComplete (s : Repository) (uploadId : String) : Prop :=
  ∃ r ∈ s.uploadReservations, r.id = uploadId ∧ r.state = .complete

instance (s : Repository) (uploadId : String) : Decidable (IsOpen s uploadId) :=
  inferInstanceAs (Decidable (∃ r ∈ s.uploadReservations, _))

instance (s : Repository) (uploadId : String) : Decidable (IsComplete s uploadId) :=
  inferInstanceAs (Decidable (∃ r ∈ s.uploadReservations, _))

/-- The size of an upload, as its reservation records it. -/
def uploadSize (s : Repository) (uploadId : String) : ℕ :=
  ((s.uploadReservations.find? uploadId).map UploadReservationRow.expectedSize).getD 0

/-- The number of uploads of an inbox that satisfy `p`. -/
def uploadCount (s : Repository) (inboxId : String) (p : String → Prop) [DecidablePred p] : ℕ :=
  s.inboxUploads.sumBy fun link => if link.inboxId = inboxId ∧ p link.uploadId then 1 else 0

/-- The total size of the uploads of an inbox that satisfy `p`. -/
def uploadBytes (s : Repository) (inboxId : String) (p : String → Prop) [DecidablePred p] : ℕ :=
  s.inboxUploads.sumBy fun link =>
    if link.inboxId = inboxId ∧ p link.uploadId then uploadSize s link.uploadId else 0

/-- The counters of an inbox agree with its uploads and respect its capacity. -/
structure CountersAgree (s : Repository) (inbox : InboxRecord) : Prop where
  reservedFiles : inbox.reservedFiles = uploadCount s inbox.id (IsOpen s)
  reservedBytes : inbox.reservedBytes = uploadBytes s inbox.id (IsOpen s)
  currentFiles : inbox.currentFiles = uploadCount s inbox.id (IsComplete s)
  currentBytes : inbox.currentBytes = uploadBytes s inbox.id (IsComplete s)
  files : inbox.currentFiles + inbox.reservedFiles ≤ inbox.maximumFiles
  bytes : inbox.currentBytes + inbox.reservedBytes ≤ inbox.maximumBytes

instance (s : Repository) (inbox : InboxRecord) : Decidable (CountersAgree s inbox) :=
  decidable_of_iff
    ((inbox.reservedFiles = uploadCount s inbox.id (IsOpen s) ∧
      inbox.reservedBytes = uploadBytes s inbox.id (IsOpen s)) ∧
      (inbox.currentFiles = uploadCount s inbox.id (IsComplete s) ∧
      inbox.currentBytes = uploadBytes s inbox.id (IsComplete s)) ∧
      inbox.currentFiles + inbox.reservedFiles ≤ inbox.maximumFiles ∧
      inbox.currentBytes + inbox.reservedBytes ≤ inbox.maximumBytes)
    ⟨fun ⟨⟨h₁, h₂⟩, ⟨h₃, h₄⟩, h₅, h₆⟩ => ⟨h₁, h₂, h₃, h₄, h₅, h₆⟩,
      fun ⟨h₁, h₂, h₃, h₄, h₅, h₆⟩ => ⟨⟨h₁, h₂⟩, ⟨h₃, h₄⟩, h₅, h₆⟩⟩

/-- Every counter agrees with the uploads, and every upload of an inbox has been released
exactly once when it is closed and not at all while it is open. -/
structure Accounts (w : World) : Prop where
  counters : ∀ row ∈ w.repository.inboxes, CountersAgree w.repository row.inbox
  released : ∀ link ∈ w.repository.inboxUploads,
    w.released.count link.uploadId = if IsOpen w.repository link.uploadId then 0 else 1

/-! ### The ledger of links -/

/-- The status of a link whose upload's reservation is in the given state. -/
def linkStatus : ReservationState → InboxUploadStatus
  | .requested => .reserved
  | .uploaded => .reserved
  | .complete => .complete
  | .aborted => .aborted

/-- The weight of the links of an inbox with a status. -/
def usage (links : Table InboxUploadRow.uploadId) (inboxId : String)
    (status : InboxUploadStatus) (weight : InboxUploadRow → ℕ) : ℕ :=
  links.sumBy fun link => if link.inboxId = inboxId ∧ link.status = status then weight link else 0

/-- The counters of an inbox agree with its links. -/
structure Counted (links : Table InboxUploadRow.uploadId) (inbox : InboxRecord) : Prop where
  reservedFiles : inbox.reservedFiles = usage links inbox.id .reserved fun _ => 1
  reservedBytes : inbox.reservedBytes = usage links inbox.id .reserved InboxUploadRow.reservedSize
  currentFiles : inbox.currentFiles = usage links inbox.id .complete fun _ => 1
  currentBytes : inbox.currentBytes = usage links inbox.id .complete InboxUploadRow.reservedSize
  files : inbox.currentFiles + inbox.reservedFiles ≤ inbox.maximumFiles
  bytes : inbox.currentBytes + inbox.reservedBytes ≤ inbox.maximumBytes

/-- Some link of the upload has left the reserved status. -/
def Closed (links : Table InboxUploadRow.uploadId) (uploadId : String) : Prop :=
  ∃ link ∈ links, link.uploadId = uploadId ∧ link.status ≠ .reserved

instance (links : Table InboxUploadRow.uploadId) (uploadId : String) :
    Decidable (Closed links uploadId) :=
  inferInstanceAs (Decidable (∃ link ∈ links, _))

/-- The invariant: links follow their reservations, counters follow the links, and the
history of releases lists each closed upload once. -/
structure Ledger (inboxes : Table fun row : InboxRow => row.inbox.id)
    (links : Table InboxUploadRow.uploadId) (reservations : Table UploadReservationRow.id)
    (released : List String) : Prop where
  linked : ∀ link ∈ links, ∃ r ∈ reservations,
    r.id = link.uploadId ∧ r.expectedSize = link.reservedSize ∧ link.status = linkStatus r.state
  owned : ∀ link ∈ links, ∃ row ∈ inboxes, row.inbox.id = link.inboxId
  counted : ∀ row ∈ inboxes, Counted links row.inbox
  released : ∀ uploadId, released.count uploadId = if Closed links uploadId then 1 else 0

/-- The invariant of a world. -/
abbrev Balanced (w : World) : Prop :=
  Ledger w.repository.inboxes w.repository.inboxUploads w.repository.uploadReservations w.released

theorem balanced_init : Balanced World.init where
  linked _ h := absurd h Table.not_mem_empty
  owned _ h := absurd h Table.not_mem_empty
  counted _ h := absurd h Table.not_mem_empty
  released uploadId := by
    have h : ¬Closed ∅ uploadId := fun ⟨_, hl, _⟩ => absurd hl Table.not_mem_empty
    exact (if_neg h).symm

section Law

variable {s : Repository} {released : List String}

/-- The reservation of a link is the one with the link's upload id. -/
private theorem linked_unique
    (h : Ledger s.inboxes s.inboxUploads s.uploadReservations released) {link : InboxUploadRow}
    (hlink : link ∈ s.inboxUploads) {r : UploadReservationRow} (hr : r ∈ s.uploadReservations)
    (hid : r.id = link.uploadId) :
    r.expectedSize = link.reservedSize ∧ link.status = linkStatus r.state := by
  obtain ⟨r', hr', hid', hsize, hstatus⟩ := h.linked link hlink
  obtain rfl : r' = r := Table.eq_of_key hr' hr (hid'.trans hid.symm)
  exact ⟨hsize, hstatus⟩

theorem isOpen_iff (h : Ledger s.inboxes s.inboxUploads s.uploadReservations released)
    {link : InboxUploadRow} (hlink : link ∈ s.inboxUploads) :
    IsOpen s link.uploadId ↔ link.status = .reserved := by
  constructor
  · rintro ⟨r, hr, hid, hstate⟩
    rw [(linked_unique h hlink hr hid).2]
    rcases hstate with hstate | hstate <;> rw [hstate] <;> rfl
  · intro hstatus
    obtain ⟨r, hr, hid, -, hs⟩ := h.linked link hlink
    refine ⟨r, hr, hid, ?_⟩
    rw [hstatus] at hs
    cases hstate : r.state <;> rw [hstate] at hs <;> simp [linkStatus] at hs ⊢

theorem isComplete_iff (h : Ledger s.inboxes s.inboxUploads s.uploadReservations released)
    {link : InboxUploadRow} (hlink : link ∈ s.inboxUploads) :
    IsComplete s link.uploadId ↔ link.status = .complete := by
  constructor
  · rintro ⟨r, hr, hid, hstate⟩
    rw [(linked_unique h hlink hr hid).2, hstate]
    rfl
  · intro hstatus
    obtain ⟨r, hr, hid, -, hs⟩ := h.linked link hlink
    refine ⟨r, hr, hid, ?_⟩
    rw [hstatus] at hs
    cases hstate : r.state <;> rw [hstate] at hs <;> simp [linkStatus] at hs ⊢

theorem uploadSize_eq (h : Ledger s.inboxes s.inboxUploads s.uploadReservations released)
    {link : InboxUploadRow} (hlink : link ∈ s.inboxUploads) :
    uploadSize s link.uploadId = link.reservedSize := by
  obtain ⟨r, hr, hid, hsize, -⟩ := h.linked link hlink
  rw [uploadSize, Table.find?_eq_some.mpr ⟨hr, hid⟩]
  exact hsize

/-- Uploads counted by their reservation are links counted by their status. -/
private theorem uploadCount_eq {p : String → Prop} [DecidablePred p] {status : InboxUploadStatus}
    (hp : ∀ link ∈ s.inboxUploads, p link.uploadId ↔ link.status = status) (inboxId : String) :
    uploadCount s inboxId p = usage s.inboxUploads inboxId status fun _ => 1 := by
  refine Table.sumBy_congr fun link hlink => ?_
  simp only [hp link hlink]

private theorem uploadBytes_eq
    (h : Ledger s.inboxes s.inboxUploads s.uploadReservations released)
    {p : String → Prop} [DecidablePred p] {status : InboxUploadStatus}
    (hp : ∀ link ∈ s.inboxUploads, p link.uploadId ↔ link.status = status) (inboxId : String) :
    uploadBytes s inboxId p = usage s.inboxUploads inboxId status InboxUploadRow.reservedSize := by
  refine Table.sumBy_congr fun link hlink => ?_
  simp only [hp link hlink, uploadSize_eq h hlink]

/-- The law follows from the ledger. -/
theorem Ledger.accounts (h : Ledger s.inboxes s.inboxUploads s.uploadReservations released) :
    Accounts ⟨s, released⟩ where
  counters row hrow := by
    have hc := h.counted row hrow
    have hopen : ∀ link ∈ s.inboxUploads, IsOpen s link.uploadId ↔ link.status = .reserved :=
      fun _ hlink => isOpen_iff h hlink
    have hcomplete : ∀ link ∈ s.inboxUploads,
        IsComplete s link.uploadId ↔ link.status = .complete :=
      fun _ hlink => isComplete_iff h hlink
    exact ⟨hc.reservedFiles.trans (uploadCount_eq hopen _).symm,
      hc.reservedBytes.trans (uploadBytes_eq h hopen _).symm,
      hc.currentFiles.trans (uploadCount_eq hcomplete _).symm,
      hc.currentBytes.trans (uploadBytes_eq h hcomplete _).symm, hc.files, hc.bytes⟩
  released link hlink := by
    have hclosed : Closed s.inboxUploads link.uploadId ↔ ¬IsOpen s link.uploadId := by
      rw [isOpen_iff h hlink]
      constructor
      · rintro ⟨l, hl, hid, hstatus⟩
        exact Table.eq_of_key hl hlink hid ▸ hstatus
      · exact fun hstatus => ⟨link, hlink, rfl, hstatus⟩
    rw [h.released, if_congr hclosed rfl rfl, ite_not]

end Law

/-! ### What keeps the ledger -/

section Steps

variable {inboxes inboxes' : Table fun row : InboxRow => row.inbox.id}
  {links links' : Table InboxUploadRow.uploadId}
  {reservations reservations' : Table UploadReservationRow.id} {released : List String}

/-- A new reservation that no link refers to. -/
theorem Ledger.insertReservation (h : Ledger inboxes links reservations released)
    {r : UploadReservationRow} (hr : reservations.Inserted reservations' r) :
    Ledger inboxes links reservations' released where
  linked link hlink := by
    obtain ⟨r', hr', hlinked⟩ := h.linked link hlink
    exact ⟨r', hr.mem_of_mem hr', hlinked⟩
  owned := h.owned
  counted := h.counted
  released := h.released

/-- A reservation changes without leaving the state its link reflects, or has no link. -/
theorem Ledger.replaceReservation (h : Ledger inboxes links reservations released)
    {r r' : UploadReservationRow} (hr : reservations.Replaced reservations' r r')
    (hsize : r'.expectedSize = r.expectedSize)
    (hstate : ∀ link ∈ links, link.uploadId = r.id → linkStatus r'.state = linkStatus r.state) :
    Ledger inboxes links reservations' released where
  linked link hlink := by
    obtain ⟨x, hx, hid, hsize', hstatus⟩ := h.linked link hlink
    by_cases hxr : x = r
    · subst hxr
      exact ⟨r', hr.mem_new, hr.key_eq.trans hid, hsize.trans hsize',
        hstatus.trans (hstate link hlink hid.symm).symm⟩
    · exact ⟨x, (hr.mem x).mpr (Or.inl ⟨hx, hxr⟩), hid, hsize', hstatus⟩
  owned := h.owned
  counted := h.counted
  released := h.released

/-- A new inbox starts with empty counters, and no link refers to it. -/
theorem Ledger.insertInbox (h : Ledger inboxes links reservations released) {row : InboxRow}
    (hrow : inboxes.Inserted inboxes' row) (hreservedFiles : row.inbox.reservedFiles = 0)
    (hreservedBytes : row.inbox.reservedBytes = 0) (hcurrentFiles : row.inbox.currentFiles = 0)
    (hcurrentBytes : row.inbox.currentBytes = 0) : Ledger inboxes' links reservations released where
  linked := h.linked
  owned link hlink := by
    obtain ⟨x, hx, hid⟩ := h.owned link hlink
    exact ⟨x, hrow.mem_of_mem hx, hid⟩
  counted x hx := by
    rcases (hrow.mem x).mp hx with hx | rfl
    · exact h.counted x hx
    · have hzero : ∀ status weight, usage links x.inbox.id status weight = 0 := by
        intro status weight
        refine Table.sumBy_eq_zero fun link hlink => if_neg ?_
        rintro ⟨hid, -⟩
        obtain ⟨y, hy, hy'⟩ := h.owned link hlink
        exact hrow.fresh y hy (hy'.trans hid)
      refine ⟨?_, ?_, ?_, ?_, ?_, ?_⟩ <;> simp [*]
  released := h.released

/-- An inbox changes, and its counters follow the same links. -/
theorem Ledger.replaceInbox (h : Ledger inboxes links reservations released)
    {row row' : InboxRow} (hrow : inboxes.Replaced inboxes' row row')
    (hcounted : Counted links row.inbox → Counted links row'.inbox) :
    Ledger inboxes' links reservations released where
  linked := h.linked
  owned link hlink := by
    obtain ⟨x, hx, hid⟩ := h.owned link hlink
    by_cases hxr : x = row
    · exact ⟨row', hrow.mem_new, hrow.key_eq.trans (hxr ▸ hid)⟩
    · exact ⟨x, (hrow.mem x).mpr (Or.inl ⟨hx, hxr⟩), hid⟩
  counted x hx := by
    rcases (hrow.mem x).mp hx with ⟨hx, -⟩ | rfl
    · exact h.counted x hx
    · exact hcounted (h.counted row hrow.mem_old)
  released := h.released

/-- The usage of an inbox after a new link. -/
private theorem usage_insert {link : InboxUploadRow} (hlink : links.Inserted links' link)
    (inboxId : String) (status : InboxUploadStatus) (weight : InboxUploadRow → ℕ) :
    usage links' inboxId status weight = usage links inboxId status weight +
      if link.inboxId = inboxId ∧ link.status = status then weight link else 0 :=
  hlink.sum _

/-- The usage of an inbox after a link changed its status. -/
private theorem usage_replace {link link' : InboxUploadRow}
    (hlink : links.Replaced links' link link') (inboxId : String) (status : InboxUploadStatus)
    (weight : InboxUploadRow → ℕ) :
    usage links' inboxId status weight +
        (if link.inboxId = inboxId ∧ link.status = status then weight link else 0) =
      usage links inboxId status weight +
        if link'.inboxId = inboxId ∧ link'.status = status then weight link' else 0 :=
  hlink.sum _

/-- Reserving: a new reservation, a new link and one more reserved upload of the inbox. -/
theorem Ledger.reserve (h : Ledger inboxes links reservations released) {row : InboxRow}
    {r : UploadReservationRow} {link : InboxUploadRow}
    (hr : reservations.Inserted reservations' r) (hlink : links.Inserted links' link)
    (hrow : inboxes.Replaced inboxes' row
      { row with
        inbox :=
          { row.inbox with
            reservedFiles := row.inbox.reservedFiles + 1
            reservedBytes := row.inbox.reservedBytes + link.reservedSize } })
    (hid : r.id = link.uploadId) (hsize : r.expectedSize = link.reservedSize)
    (hstate : r.state = .requested) (hstatus : link.status = .reserved)
    (hinbox : link.inboxId = row.inbox.id)
    (hfiles : row.inbox.currentFiles + row.inbox.reservedFiles < row.inbox.maximumFiles)
    (hbytes : row.inbox.currentBytes + row.inbox.reservedBytes + link.reservedSize ≤
      row.inbox.maximumBytes) :
    Ledger inboxes' links' reservations' released where
  linked l hl := by
    rcases (hlink.mem l).mp hl with hl | rfl
    · obtain ⟨x, hx, hlinked⟩ := h.linked l hl
      exact ⟨x, hr.mem_of_mem hx, hlinked⟩
    · exact ⟨r, hr.mem_new, hid, hsize, by rw [hstatus, hstate]; rfl⟩
  owned l hl := by
    have hnew : ∃ x ∈ inboxes', x.inbox.id = row.inbox.id := ⟨_, hrow.mem_new, rfl⟩
    rcases (hlink.mem l).mp hl with hl | rfl
    · obtain ⟨x, hx, hxid⟩ := h.owned l hl
      by_cases hxr : x = row
      · exact hxid ▸ hxr ▸ hnew
      · exact ⟨x, (hrow.mem x).mpr (Or.inl ⟨hx, hxr⟩), hxid⟩
    · exact hinbox ▸ hnew
  counted x hx := by
    rcases (hrow.mem x).mp hx with ⟨hx, hxr⟩ | rfl
    -- another inbox: the new link does not count for it
    · have hne : row.inbox.id ≠ x.inbox.id := fun he =>
        hxr (Table.eq_of_key hx hrow.mem_old he.symm)
      have hc := h.counted x hx
      refine ⟨?_, ?_, ?_, ?_, hc.files, hc.bytes⟩ <;>
        rw [usage_insert hlink, if_neg fun hi => hne (hinbox.symm.trans hi.1), Nat.add_zero]
      · exact hc.reservedFiles
      · exact hc.reservedBytes
      · exact hc.currentFiles
      · exact hc.currentBytes
    · have hc := h.counted row hrow.mem_old
      refine ⟨?_, ?_, ?_, ?_, ?_, ?_⟩
      · simp [usage_insert hlink, hinbox, hstatus, hc.reservedFiles]
      · simp [usage_insert hlink, hinbox, hstatus, hc.reservedBytes]
      · simp [usage_insert hlink, hstatus, hc.currentFiles]
      · simp [usage_insert hlink, hstatus, hc.currentBytes]
      · show row.inbox.currentFiles + (row.inbox.reservedFiles + 1) ≤ row.inbox.maximumFiles
        omega
      · show row.inbox.currentBytes + (row.inbox.reservedBytes + link.reservedSize) ≤
          row.inbox.maximumBytes
        omega
  released uploadId := by
    have hclosed : Closed links' uploadId ↔ Closed links uploadId := by
      constructor
      · rintro ⟨l, hl, hlid, hls⟩
        rcases (hlink.mem l).mp hl with hl | rfl
        · exact ⟨l, hl, hlid, hls⟩
        · exact absurd hstatus hls
      · rintro ⟨l, hl, hlid, hls⟩
        exact ⟨l, hlink.mem_of_mem hl, hlid, hls⟩
    rw [h.released, if_congr hclosed rfl rfl]

/-- Closing: the reservation and the link of an upload leave their open states together,
its capacity moves from reserved to current (or is given back), and the release is recorded. -/
theorem Ledger.close (h : Ledger inboxes links reservations released) {row row' : InboxRow}
    {r r' : UploadReservationRow} {link : InboxUploadRow} {status : InboxUploadStatus}
    (hr : reservations.Replaced reservations' r r')
    (hlink : links.Replaced links' link { link with status })
    (hrow : inboxes.Replaced inboxes' row row')
    (hid : r.id = link.uploadId) (hsize : r'.expectedSize = r.expectedSize)
    (hstate : linkStatus r'.state = status) (hstatus : status ≠ .reserved)
    (hreserved : link.status = .reserved) (hinbox : link.inboxId = row.inbox.id)
    (hinbox' : row'.inbox.id = row.inbox.id)
    (hreservedFiles : row'.inbox.reservedFiles + 1 = row.inbox.reservedFiles)
    (hreservedBytes : row'.inbox.reservedBytes + r.expectedSize = row.inbox.reservedBytes)
    (hcurrentFiles : row'.inbox.currentFiles =
      row.inbox.currentFiles + if status = .complete then 1 else 0)
    (hcurrentBytes : row'.inbox.currentBytes =
      row.inbox.currentBytes + if status = .complete then r.expectedSize else 0)
    (hmaximumFiles : row'.inbox.maximumFiles = row.inbox.maximumFiles)
    (hmaximumBytes : row'.inbox.maximumBytes = row.inbox.maximumBytes) :
    Ledger inboxes' links' reservations' (released ++ [link.uploadId]) := by
  -- the reservation and its link agree on the size
  have hlinkSize : r.expectedSize = link.reservedSize := by
    obtain ⟨x, hx, hxid, hxsize, -⟩ := h.linked link hlink.mem_old
    obtain rfl := Table.eq_of_key hx hr.mem_old (hxid.trans hid.symm)
    exact hxsize
  refine ⟨fun l hl => ?_, fun l hl => ?_, fun x hx => ?_, fun uploadId => ?_⟩
  · rcases (hlink.mem l).mp hl with ⟨hl, hne⟩ | rfl
    -- another link: its reservation is not the one that closed
    · obtain ⟨x, hx, hxid, hlinked⟩ := h.linked l hl
      have hxr : x ≠ r := by
        rintro rfl
        exact hne (Table.eq_of_key hl hlink.mem_old (hxid.symm.trans hid))
      exact ⟨x, (hr.mem x).mpr (Or.inl ⟨hx, hxr⟩), hxid, hlinked⟩
    · exact ⟨r', hr.mem_new, hr.key_eq.trans hid, hsize.trans hlinkSize, hstate.symm⟩
  · have howned : ∃ x ∈ inboxes, x.inbox.id = l.inboxId := by
      rcases (hlink.mem l).mp hl with ⟨hl, -⟩ | rfl
      · exact h.owned l hl
      · exact h.owned link hlink.mem_old
    obtain ⟨x, hx, hxid⟩ := howned
    by_cases hxr : x = row
    · exact ⟨row', hrow.mem_new, hinbox'.trans (hxr ▸ hxid)⟩
    · exact ⟨x, (hrow.mem x).mpr (Or.inl ⟨hx, hxr⟩), hxid⟩
  · rcases (hrow.mem x).mp hx with ⟨hx, hxr⟩ | rfl
    -- another inbox: the closed link does not count for it
    · have hne : ¬link.inboxId = x.inbox.id := fun he =>
        hxr (Table.eq_of_key hx hrow.mem_old (he.symm.trans hinbox))
      have hsame : ∀ st weight, usage links' x.inbox.id st weight = usage links x.inbox.id st weight := by
        intro st weight
        have hu := usage_replace hlink x.inbox.id st weight
        rwa [if_neg fun hi => hne hi.1, if_neg fun hi => hne hi.1, Nat.add_zero,
          Nat.add_zero] at hu
      have hc := h.counted x hx
      exact ⟨hc.reservedFiles.trans (hsame _ _).symm, hc.reservedBytes.trans (hsame _ _).symm,
        hc.currentFiles.trans (hsame _ _).symm, hc.currentBytes.trans (hsame _ _).symm,
        hc.files, hc.bytes⟩
    · have hc := h.counted row hrow.mem_old
      have hu := usage_replace hlink row.inbox.id
      simp only [hinbox, true_and, hreserved] at hu
      have hrf := hu .reserved fun _ => 1
      have hrb := hu .reserved InboxUploadRow.reservedSize
      have hcf := hu .complete fun _ => 1
      have hcb := hu .complete InboxUploadRow.reservedSize
      simp only [if_true, if_neg hstatus, reduceCtorEq, if_false, Nat.add_zero] at hrf hrb hcf hcb
      have hcounts := hc.reservedFiles
      have hbytes := hc.reservedBytes
      have hfiles' := hc.files
      have hbytes' := hc.bytes
      refine ⟨?_, ?_, ?_, ?_, ?_, ?_⟩
      · rw [hinbox']
        omega
      · rw [hinbox']
        omega
      · rw [hinbox', hcurrentFiles, hc.currentFiles, hcf]
      · rw [hinbox', hcurrentBytes, hc.currentBytes, hcb, hlinkSize]
      · rw [hmaximumFiles, hcurrentFiles]
        split <;> omega
      · rw [hmaximumBytes, hcurrentBytes]
        split <;> omega
  · rw [List.count_append, h.released, List.count_singleton]
    by_cases hu : link.uploadId = uploadId
    · have hold : ¬Closed links uploadId := by
        rintro ⟨l, hl, hlid, hls⟩
        exact hls (Table.eq_of_key hl hlink.mem_old (hlid.trans hu.symm) ▸ hreserved)
      have hnew : Closed links' uploadId := ⟨_, hlink.mem_new, hu, hstatus⟩
      simp [hold, hnew, hu]
    · have hclosed : Closed links' uploadId ↔ Closed links uploadId := by
        constructor
        · rintro ⟨l, hl, hlid, hls⟩
          rcases (hlink.mem l).mp hl with ⟨hl, -⟩ | rfl
          · exact ⟨l, hl, hlid, hls⟩
          · exact absurd hlid hu
        · rintro ⟨l, hl, hlid, hls⟩
          refine ⟨l, (hlink.mem l).mpr (Or.inl ⟨hl, ?_⟩), hlid, hls⟩
          rintro rfl
          exact hu hlid
      simp [hu, hclosed]

end Steps

/-! ### The law over runs -/

/-- The upload still holds capacity of its inbox. -/
def HoldsCapacity (s : Repository) (uploadId : String) : Prop :=
  ∃ link ∈ s.inboxUploads, link.uploadId = uploadId ∧ link.status = .reserved

instance (s : Repository) (uploadId : String) : Decidable (HoldsCapacity s uploadId) :=
  inferInstanceAs (Decidable (∃ link ∈ s.inboxUploads, _))

/-- No operator request closes an upload that still holds inbox capacity: `complete_upload`
is not called on one whose bytes are recorded, `abort_upload` not on any. -/
def ClosesThroughInbox (w : World) : UploadRequest → Prop
  | .completeUpload id => HoldsCapacity w.repository id →
    ∀ r ∈ w.repository.uploadReservations, r.id = id → r.state ≠ .uploaded
  | .abortUpload id => ¬HoldsCapacity w.repository id
  | _ => True

instance (w : World) (request : UploadRequest) : Decidable (ClosesThroughInbox w request) := by
  cases request <;> unfold ClosesThroughInbox <;> infer_instance

/-- An operator request that closes an upload leaves the links alone, so it keeps the ledger
unless the upload still holds inbox capacity. -/
private theorem ledger_of_operator {inboxes : Table fun row : InboxRow => row.inbox.id}
    {links : Table InboxUploadRow.uploadId}
    {reservations reservations' : Table UploadReservationRow.id} {released : List String}
    (h : Ledger inboxes links reservations released) {r r' : UploadReservationRow}
    (hr : reservations.Replaced reservations' r r') (hsize : r'.expectedSize = r.expectedSize)
    (hopen : r.state = .requested ∨ r.state = .uploaded)
    (hfree : ¬∃ link ∈ links, link.uploadId = r.id ∧ link.status = .reserved) :
    Ledger inboxes links reservations' released := by
  refine h.replaceReservation hr hsize fun link hlink hid => absurd ?_ hfree
  obtain ⟨x, hx, hxid, -, hstatus⟩ := h.linked link hlink
  obtain rfl := Table.eq_of_key hx hr.mem_old (hxid.trans hid)
  refine ⟨link, hlink, hid, hstatus.trans ?_⟩
  rcases hopen with hopen | hopen <;> rw [hopen] <;> rfl

/-- One request keeps the ledger. -/
theorem balanced_exec {w : World} {request : UploadRequest} (h : Balanced w)
    (hguard : ClosesThroughInbox w request) : Balanced (w.exec request) := by
  unfold World.exec
  cases hrun : request.run w.repository with
  | error e => exact h
  | ok result =>
    obtain ⟨completed, s⟩ := result
    cases request with
    | createWorkspace workspace =>
      simp only [UploadRequest.run, Repository.createWorkspace, map_eq_ok, bind_eq_ok, pure_eq_ok,
        Prod.mk.injEq] at hrun
      obtain ⟨_, ⟨-, -, -, -, _, -, rfl⟩, -, rfl⟩ := hrun
      simpa [releases] using h
    | createProject project =>
      simp only [UploadRequest.run, Repository.createProject, map_eq_ok, bind_eq_ok, pure_eq_ok,
        Prod.mk.injEq] at hrun
      obtain ⟨_, ⟨-, -, -, -, -, -, -, -, _, -, rfl⟩, -, rfl⟩ := hrun
      simpa [releases] using h
    | createInbox inbox event =>
      simp only [UploadRequest.run, map_eq_ok, Prod.mk.injEq] at hrun
      obtain ⟨⟨_, _⟩, hrun, -, rfl⟩ := hrun
      obtain ⟨row, _, _, rfl, -, -, -, hcf, hcb, hrf, hrb, hrow⟩ := Repository.createInbox_spec hrun
      simpa [releases] using h.insertInbox hrow hrf hrb hcf hcb
    | revokeInbox inboxId workspaceId revokedAtMs event =>
      simp only [UploadRequest.run, map_eq_ok, Prod.mk.injEq] at hrun
      obtain ⟨⟨_, _⟩, hrun, -, rfl⟩ := hrun
      rcases Repository.revokeInbox_spec hrun with rfl | ⟨row, _, _, rfl, hrow⟩
      · simpa [releases] using h
      · have hc := h.replaceInbox hrow fun hc => ⟨hc.1, hc.2, hc.3, hc.4, hc.5, hc.6⟩
        simpa [releases] using hc
    | reserveUpload value =>
      simp only [UploadRequest.run, map_eq_ok, Prod.mk.injEq] at hrun
      obtain ⟨⟨_, _⟩, hrun, -, rfl⟩ := hrun
      obtain ⟨_, _, _, -, rfl, -, -, hr⟩ := Repository.reserveUpload_spec hrun
      simpa [releases] using h.insertReservation hr
    | renewUpload id expiresAtMs =>
      simp only [UploadRequest.run, map_eq_ok, Prod.mk.injEq] at hrun
      obtain ⟨_, hrun, -, rfl⟩ := hrun
      obtain ⟨row, _, rfl, -, -, hr⟩ := Repository.renewUpload_spec hrun
      simpa [releases] using h.replaceReservation hr rfl fun _ _ _ => rfl
    | recordUploadedBytes id size checksum =>
      simp only [UploadRequest.run, map_eq_ok, Prod.mk.injEq] at hrun
      obtain ⟨_, hrun, -, rfl⟩ := hrun
      obtain ⟨row, _, _, rfl, -, hstate, -, -, -, -, hr⟩ := Repository.recordUploadedBytes_spec hrun
      have hc := h.replaceReservation hr rfl fun _ _ _ => by rw [hstate]; rfl
      simpa [releases] using hc
    | completeUpload id =>
      simp only [UploadRequest.run, map_eq_ok, Prod.mk.injEq] at hrun
      obtain ⟨⟨_, _⟩, hrun, -, rfl⟩ := hrun
      obtain ⟨row, _, _, _, rfl, rfl, hstate, -, -, -, hr, -⟩ :=
        Repository.completeUpload_spec hrun
      have hfree : ¬HoldsCapacity w.repository row.id := fun hholds =>
        hguard hholds row hr.mem_old rfl hstate
      simpa [releases] using ledger_of_operator h hr rfl (Or.inr hstate) hfree
    | abortUpload id =>
      simp only [UploadRequest.run, map_eq_ok, Prod.mk.injEq] at hrun
      obtain ⟨⟨_, _⟩, hrun, -, rfl⟩ := hrun
      obtain ⟨row, _, _, _, _, rfl, rfl, hopen, -, -, hr, -⟩ := Repository.abortUpload_spec hrun
      simpa [releases] using ledger_of_operator h hr rfl hopen hguard
    | reserveInboxUpload upload value =>
      simp only [UploadRequest.run, map_eq_ok, Prod.mk.injEq] at hrun
      obtain ⟨⟨_, _⟩, hrun, -, rfl⟩ := hrun
      obtain ⟨row, _, _, _, _, _, rfl, -, hfiles, hbytes, hrow, -, -, hr, hlink⟩ :=
        Repository.reserveInboxUpload_spec hrun
      have hc := h.reserve hr hlink hrow rfl rfl rfl rfl rfl hfiles hbytes
      simpa [releases] using hc
    | completeInboxUpload capabilityHash uploadId nowMs event =>
      simp only [UploadRequest.run, map_eq_ok, Prod.mk.injEq] at hrun
      obtain ⟨⟨_, _⟩, hrun, -, rfl⟩ := hrun
      obtain ⟨row, _, link, inbox, _, _, _, _, _, rfl, rfl, -, -, -, -, hid, hreserved, hinbox,
        hfiles, hbytes, hr, -, hrow, hlink⟩ := Repository.completeInboxUpload_spec hrun
      have hc := h.close hr hlink hrow hid.symm rfl rfl (by simp) hreserved hinbox rfl
        (Nat.sub_add_cancel hfiles) (Nat.sub_add_cancel hbytes) rfl rfl rfl rfl
      simpa [releases, hid] using hc
    | abortInboxUpload capabilityHash uploadId nowMs =>
      simp only [UploadRequest.run, map_eq_ok, Prod.mk.injEq] at hrun
      obtain ⟨⟨_, _⟩, hrun, -, rfl⟩ := hrun
      obtain ⟨row, _, link, inbox, _, _, _, _, _, rfl, rfl, -, -, -, hid, hreserved, hinbox, hfiles,
        hbytes, hr, -, hrow, hlink⟩ := Repository.abortInboxUpload_spec hrun
      have hc := h.close hr hlink hrow hid.symm rfl rfl (by simp) hreserved hinbox rfl
        (Nat.sub_add_cancel hfiles) (Nat.sub_add_cancel hbytes) rfl rfl rfl rfl
      simpa [releases, hid] using hc

/-- Along a run in which inbox uploads are closed through their inbox, the ledger holds. -/
theorem balanced_of_run {w : World} (h : Run system ClosesThroughInbox w) : Balanced w := by
  refine Run.inv (P := Balanced) balanced_init (fun w request w' hb hguard hstep => ?_) h
  obtain rfl : w' = w.exec request := hstep
  exact balanced_exec hb hguard

/-- **Inbox accounting**: in every state reached by requests in any order, none of which is an
operator request closing an upload that still holds inbox capacity, the reserved counters of
every inbox count its open uploads, its current counters count the completed ones, capacity is
not exceeded, and every closed upload was released exactly once. -/
theorem accounts_of_closes_through_inbox {w : World} (h : Run system ClosesThroughInbox w) :
    Accounts w :=
  (balanced_of_run h).accounts

/-! ### One inbox, one upload -/

/-- A workspace, a project, an inbox of four bytes and an upload of three bytes into it. -/
def sampleRequests : List UploadRequest :=
  [.createWorkspace { id := "w", name := "Acme", slug := ⟨"acme", by decide⟩ },
   .createProject { id := "p", workspaceId := "w", name := "Site", slug := ⟨"site", by decide⟩ },
   .createInbox
     { id := "inbox", workspaceId := "w", projectId := "p", name := "Drop",
       capabilityHash := repeatedDigit 'a', expiresAtMs := 100, maximumFiles := 1,
       maximumBytes := 4, createdAtMs := 0 }
     { id := "e1", workspaceId := "w", actor := "owner", action := "inbox.created",
       requestId := "r1", targetType := "inbox", metadata := [("inboxId", .string "inbox")],
       createdAtMs := 0 },
   .reserveInboxUpload
     { capabilityHash := repeatedDigit 'a', fingerprintHash := repeatedDigit 'b', nowMs := 1 }
     { id := "u", projectId := "p", objectPath := "a.txt", filename := "a.txt",
       contentType := "text/plain", expectedSize := 3, expectedChecksum := repeatedDigit 'c',
       storageKey := "versions/p/u", capabilityHash := repeatedDigit 'd', expiresAtMs := 50,
       createdAtMs := 1, source := .inbox, gitRepository := none, gitCommit := none,
       gitBranch := none, strategy := .single, partSize := none, partCount := none }]

/-- An inbox upload aborted through its inbox keeps the law. -/
theorem accounts_of_inbox_abort :
    Accounts ((sampleRequests ++
      [UploadRequest.abortInboxUpload (repeatedDigit 'a') "u" 2]).foldl World.exec World.init) :=
  accounts_of_closes_through_inbox
    (Run.ofList (fun _ _ => rfl) Run.init (by decide))

/-- Aborted by an operator instead, the upload keeps its reservation for good: the inbox counts
one reserved file of three bytes, and no upload of it is open. -/
theorem operator_abort_keeps_reservation :
    ∃ w, Run system (fun _ _ => True) w ∧ ¬Accounts w := by
  refine ⟨(sampleRequests ++ [UploadRequest.abortUpload "u"]).foldl World.exec World.init,
    Run.ofList_true (fun _ _ => rfl) Run.init _, fun h => ?_⟩
  exact absurd h.counters (by decide)

end InboxCapacity

end BlobYard
