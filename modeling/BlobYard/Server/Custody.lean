/-
Custody of the bytes behind versions.

The handlers share the repository and the files with each other.  What each of them may count on,
and what each of them has to keep, is said here, and shown of every command they issue.

* `Doomed` — a version that a plan names, or whose upload a request asked to abort;
* `Intact` — the invariant of the repository and the files together;
* `Later` — what no handler takes back, save for doomed versions;
* `move_files`, `move_repository` — the changes that keep both;
* `Permitted`, `Answers` — what a handler knows before and after a transaction;
* `sound_transaction`, `sound_put` and their likes — the rules for the commands.
-/
import BlobYard.Laws.UploadRows
import BlobYard.Repository.DeletionPlans
import BlobYard.Server.Handlers
import BlobYard.Storage.Holdings

namespace BlobYard

open Outcome FilesystemStorage UploadRows

namespace Custody

/-! ### Versions and their keys -/

/-- The storage key ends with the identifier of its version. -/
def KeyOf (versionId key : String) : Prop :=
  '/' ∉ versionId.toList ∧ ∃ start, key.toList = start ++ '/' :: versionId.toList

theorem keyOf_unique {id id' key : String} (h : KeyOf id key) (h' : KeyOf id' key) : id = id' := by
  obtain ⟨hid, start, hkey⟩ := h
  obtain ⟨hid', start', hkey'⟩ := h'
  have hsame := Server.eq_of_append_separator hid hid' (hkey.symm.trans hkey')
  exact String.toList_inj.mp hsame.2

/-- A plan names the version, or a request asked to abort its upload. -/
def Doomed (s : Site) (versionId : String) : Prop :=
  versionId ∈ s.aborts ∨ ∃ row ∈ s.repository.deletionItems, row.item.versionId = versionId

/-- The object of a doomed version. -/
def DoomedKey (s : Site) (key : StorageKey) : Prop :=
  ∃ versionId, KeyOf versionId key.asStr ∧ Doomed s versionId

/-- The key of a doomed upload, and no other, is doomed. -/
theorem doomed_of_key {s : Site} {id : String} {key : StorageKey} (hid : KeyOf id key.asStr)
    (h : DoomedKey s key) : Doomed s id := by
  obtain ⟨id', hid', hdoomed⟩ := h
  exact keyOf_unique hid' hid ▸ hdoomed

/-- The upload is for an object at the key. -/
def Placed (s : Site) (id key : String) : Prop :=
  KeyOf id key ∧ ∃ r ∈ s.repository.uploadReservations, ∃ v ∈ s.repository.objectVersions,
    r.id = id ∧ v.id = r.versionId ∧ v.storageKey = key

/-- The multipart upload was begun, and for no other key. -/
def Provides (ids : ℕ → String) (s : Site) (providerUploadId key : String) : Prop :=
  ∃ k < s.draws, providerUploadId = ids k ∧
    ∀ staged, stagedKey s.files (ids k) = some staged → staged.asStr = key

section Digests

variable [Digest]

/-- The bytes at the key, of this size and checksum. -/
def Stored (s : Site) (key : String) (size : ℕ) (checksum : String) : Prop :=
  ∃ storageKey metadata, StorageKey.asStr storageKey = key ∧ Holds s.files storageKey metadata ∧
    metadata.size = size ∧ metadata.checksum.asStr = checksum

/-! ### The discipline -/

/-- The invariant. -/
structure Intact (ids : ℕ → String) (s : Site) : Prop where
  paired : Paired s.repository
  named : ∀ r ∈ s.repository.uploadReservations, r.versionId = r.id
  formed : ∀ v ∈ s.repository.objectVersions, KeyOf v.id v.storageKey
  items : ∀ row ∈ s.repository.deletionItems, KeyOf row.item.versionId row.item.storageKey
  aborted : ∀ v ∈ s.repository.objectVersions, v.state = .aborted → v.id ∈ s.aborts
  provided : ∀ r ∈ s.repository.uploadReservations, ∀ v ∈ s.repository.objectVersions,
    v.id = r.versionId → ∀ providerUploadId, r.providerUploadId = some providerUploadId →
      Doomed s r.id ∨ Provides ids s providerUploadId v.storageKey
  /-- Where an object has a description, the description is right. -/
  described : ∀ key, ¬DoomedKey s key → Described s.files key
  received : ∀ r ∈ s.repository.uploadReservations, ∀ v ∈ s.repository.objectVersions,
    v.id = r.versionId → r.state = .uploaded ∨ r.state = .complete →
      Doomed s r.id ∨ Stored s v.storageKey r.expectedSize r.expectedChecksum

/-- What holds from one state to a later one. -/
structure Later (ids : ℕ → String) (s t : Site) : Prop where
  aborts : ∀ id ∈ s.aborts, id ∈ t.aborts
  items : ∀ row ∈ s.repository.deletionItems, row ∈ t.repository.deletionItems
  draws : s.draws ≤ t.draws
  staged : ∀ k < s.draws, stagedKey t.files (ids k) = stagedKey s.files (ids k) ∨
    stagedKey t.files (ids k) = none
  placed : ∀ id key, Placed s id key → Doomed t id ∨ Placed t id key
  holds : ∀ key metadata, Holds s.files key metadata → DoomedKey t key ∨ Holds t.files key metadata

variable {ids : ℕ → String} {s t u : Site}

theorem Later.doomed (h : Later ids s t) {id : String} (hid : Doomed s id) : Doomed t id := by
  rcases hid with hid | ⟨row, hrow, hid⟩
  · exact Or.inl (h.aborts id hid)
  · exact Or.inr ⟨row, h.items row hrow, hid⟩

theorem Later.doomedKey (h : Later ids s t) {key : StorageKey} (hkey : DoomedKey s key) :
    DoomedKey t key := by
  obtain ⟨id, hid, hdoomed⟩ := hkey
  exact ⟨id, hid, h.doomed hdoomed⟩

theorem Later.provides (h : Later ids s t) {providerUploadId key : String}
    (hprovides : Provides ids s providerUploadId key) : Provides ids t providerUploadId key := by
  obtain ⟨k, hk, hid, hkey⟩ := hprovides
  refine ⟨k, by have := h.draws; omega, hid, fun staged hstaged => ?_⟩
  rcases h.staged k hk with hsame | hnone
  · exact hkey staged (hsame ▸ hstaged)
  · rw [hnone] at hstaged
    cases hstaged

theorem Later.refl (s : Site) : Later ids s s where
  aborts _ h := h
  items _ h := h
  draws := le_rfl
  staged _ _ := Or.inl rfl
  placed _ _ h := Or.inr h
  holds _ _ h := Or.inr h

theorem Later.trans (h : Later ids s t) (h' : Later ids t u) : Later ids s u where
  aborts id hid := h'.aborts id (h.aborts id hid)
  items row hrow := h'.items row (h.items row hrow)
  draws := h.draws.trans h'.draws
  staged k hk := by
    rcases h'.staged k (hk.trans_le h.draws) with hu | hu
    · rw [hu]
      exact h.staged k hk
    · exact Or.inr hu
  placed id key hplaced := by
    rcases h.placed id key hplaced with hdoomed | hplaced
    · exact Or.inl (h'.doomed hdoomed)
    · exact h'.placed id key hplaced
  holds key metadata hholds := by
    rcases h.holds key metadata hholds with hdoomed | hholds
    · exact Or.inl (h'.doomedKey hdoomed)
    · exact h'.holds key metadata hholds

/-- The discipline of the handlers. -/
def custody (ids : ℕ → String) : Discipline Site where
  inv := Intact ids
  rely := Later ids
  refl := Later.refl
  trans := Later.trans

/-! ### Facts that stay true -/

/-- An object with its description, or one that may be deleted. -/
def Held (s : Site) (key : StorageKey) (metadata : StorageMetadata) : Prop :=
  DoomedKey s key ∨ Holds s.files key metadata

/-- The bytes of the upload are there, of this size and checksum. -/
def Backed (s : Site) (id : String) (size : ℕ) (checksum : String) : Prop :=
  Doomed s id ∨ ∃ key metadata, Placed s id (StorageKey.asStr key) ∧ Holds s.files key metadata ∧
    metadata.size = size ∧ metadata.checksum.asStr = checksum

/-- What is known of a reservation that was read. -/
structure Reserved (ids : ℕ → String) (s : Site) (r : UploadReservationRecord) : Prop where
  formed : KeyOf r.id r.version.storageKey
  placed : Doomed s r.id ∨ Placed s r.id r.version.storageKey
  provided : ∀ providerUploadId, r.providerUploadId = some providerUploadId →
    Doomed s r.id ∨ Provides ids s providerUploadId r.version.storageKey

/-- An item of a persisted plan. -/
def Due (s : Site) (item : DeletionItem) : Prop :=
  KeyOf item.versionId item.storageKey ∧ Doomed s item.versionId

theorem Later.held (h : Later ids s t) {key : StorageKey} {metadata : StorageMetadata}
    (hheld : Held s key metadata) : Held t key metadata := by
  rcases hheld with hdoomed | hholds
  · exact Or.inl (h.doomedKey hdoomed)
  · exact h.holds key metadata hholds

theorem Later.due (h : Later ids s t) {item : DeletionItem} (hdue : Due s item) : Due t item :=
  ⟨hdue.1, h.doomed hdue.2⟩

theorem Later.backed (h : Later ids s t) {id : String} {size : ℕ} {checksum : String}
    (hbacked : Backed s id size checksum) : Backed t id size checksum := by
  rcases hbacked with hdoomed | ⟨key, metadata, hplaced, hholds, hsize, hchecksum⟩
  · exact Or.inl (h.doomed hdoomed)
  · rcases h.placed id key.asStr hplaced with hdoomed | hplaced'
    · exact Or.inl hdoomed
    · rcases h.holds key metadata hholds with hdoomed | hholds'
      · exact Or.inl (doomed_of_key hplaced.1 hdoomed)
      · exact Or.inr ⟨key, metadata, hplaced', hholds', hsize, hchecksum⟩

theorem Later.reserved (h : Later ids s t) {r : UploadReservationRecord}
    (hreserved : Reserved ids s r) : Reserved ids t r where
  formed := hreserved.formed
  placed := by
    rcases hreserved.placed with hdoomed | hplaced
    · exact Or.inl (h.doomed hdoomed)
    · exact h.placed _ _ hplaced
  provided providerUploadId hprovider := by
    rcases hreserved.provided providerUploadId hprovider with hdoomed | hprovides
    · exact Or.inl (h.doomed hdoomed)
    · exact Or.inr (h.provides hprovides)

/-! ### Moves of the files -/

/-- Files that keep what is whole, but for doomed objects; begun uploads keep their keys. -/
theorem move_files (h : Intact ids s) {files : Filesystem} {draws : ℕ} (hdraws : s.draws ≤ draws)
    (hkeeps : Keeps s.files files (DoomedKey s))
    (hstaged : ∀ k < s.draws, stagedKey files (ids k) = stagedKey s.files (ids k) ∨
      stagedKey files (ids k) = none) :
    (custody ids).Move s { s with files, draws } := by
  -- the object of a key that is not doomed is still where it was
  have hlater : Later ids s { s with files, draws } := by
    refine ⟨fun _ h => h, fun _ h => h, hdraws, hstaged, fun _ _ h => Or.inr h,
      fun key metadata hholds => ?_⟩
    by_cases hkey : DoomedKey s key
    · exact Or.inl hkey
    · exact Or.inr (hkeeps.holds key metadata hkey hholds)
  refine ⟨⟨h.paired, h.named, h.formed, h.items, h.aborted, ?_, ?_, ?_⟩, hlater⟩
  · intro r hr v hv hid providerUploadId hprovider
    -- a provider upload outlives the change, or its version is doomed
    rcases h.provided r hr v hv hid providerUploadId hprovider with hdoomed | hprovides
    · exact Or.inl hdoomed
    · exact Or.inr (hlater.provides hprovides)
  · intro key hkey
    exact hkeeps.described key hkey (h.described key hkey)
  -- received bytes: either the key is doomed, or its object is still the one whose checksum is kept
  · intro r hr v hv hid hstate
    rcases h.received r hr v hv hid hstate with hdoomed | ⟨key, metadata, hkey, hholds, hsum⟩
    · exact Or.inl hdoomed
    · rcases hlater.holds key metadata hholds with hdoomed | hholds'
      · have hformed : KeyOf v.id key.asStr := hkey ▸ h.formed v hv
        have hsame : v.id = r.id := hid.trans (h.named r hr)
        exact Or.inl (hsame ▸ doomed_of_key hformed hdoomed)
      · exact Or.inr ⟨key, metadata, hkey, hholds', hsum⟩

/-- A request to abort an upload. -/
theorem move_aborts (h : Intact ids s) (ids' : List String) :
    (custody ids).Move s { s with aborts := ids' ++ s.aborts } := by
  have hlater : Later ids s { s with aborts := ids' ++ s.aborts } :=
    ⟨fun _ hid => List.mem_append_right _ hid, fun _ h => h, le_rfl, fun _ _ => Or.inl rfl,
      fun _ _ h => Or.inr h, fun _ _ h => Or.inr h⟩
  refine ⟨⟨h.paired, h.named, h.formed, h.items, fun v hv hstate => ?_,
    fun r hr v hv hid providerUploadId hprovider => ?_, fun key hkey => ?_,
    fun r hr v hv hid hstate => ?_⟩, hlater⟩
  · exact hlater.aborts _ (h.aborted v hv hstate)
  · rcases h.provided r hr v hv hid providerUploadId hprovider with hdoomed | hprovides
    · exact Or.inl (hlater.doomed hdoomed)
    · exact Or.inr hprovides
  · exact h.described key fun hdoomed => hkey (hlater.doomedKey hdoomed)
  · rcases h.received r hr v hv hid hstate with hdoomed | hstored
    · exact Or.inl (hlater.doomed hdoomed)
    · exact Or.inr hstored

/-! ### Moves of the rows -/

/-- What a transaction may do to a reservation: an upload that is attached was begun for the key,
and bytes that are recorded are there. -/
structure Revises (ids : ℕ → String) (s : Site) (r r' : UploadReservationRow) : Prop where
  id : r'.id = r.id
  versionId : r'.versionId = r.versionId
  expected : r'.expectedSize = r.expectedSize ∧ r'.expectedChecksum = r.expectedChecksum
  provided : ∀ v ∈ s.repository.objectVersions, v.id = r.versionId →
    ∀ providerUploadId, r'.providerUploadId = some providerUploadId →
      r.providerUploadId = some providerUploadId ∨ Doomed s r.id ∨
        Provides ids s providerUploadId v.storageKey
  received : ∀ v ∈ s.repository.objectVersions, v.id = r.versionId →
    r'.state = .uploaded ∨ r'.state = .complete → (r.state = .uploaded ∨ r.state = .complete) ∨
      Doomed s r.id ∨ Stored s v.storageKey r.expectedSize r.expectedChecksum

/-- What a transaction may do to a version. -/
structure Retains (s : Site) (v v' : ObjectVersionRecord) : Prop where
  id : v'.id = v.id
  storageKey : v'.storageKey = v.storageKey
  aborted : v'.state = .aborted → v.state = .aborted ∨ v.id ∈ s.aborts

/-- What a transaction may do to the tables of reservations and versions: rows are revised, new
ones appear for a key of their own, and those of doomed versions may go. -/
structure Licensed (ids : ℕ → String) (s : Site) (repository : Repository) : Prop where
  rows : ∀ r' ∈ repository.uploadReservations,
    (r'.versionId = r'.id ∧ r'.state = .requested ∧ r'.providerUploadId = none) ∨
      ∃ r ∈ s.repository.uploadReservations, Revises ids s r r'
  versions : ∀ v' ∈ repository.objectVersions,
    (KeyOf v'.id v'.storageKey ∧ v'.state = .pending ∧
      ∀ v ∈ s.repository.objectVersions, v.id ≠ v'.id) ∨
        ∃ v ∈ s.repository.objectVersions, Retains s v v'
  keptRows : ∀ r ∈ s.repository.uploadReservations, Doomed s r.versionId ∨
    ∃ r' ∈ repository.uploadReservations, r'.id = r.id ∧ r'.versionId = r.versionId
  keptVersions : ∀ v ∈ s.repository.objectVersions, Doomed s v.id ∨
    ∃ v' ∈ repository.objectVersions, v'.id = v.id ∧ v'.storageKey = v.storageKey

/-- What a transaction may do to the plans: they grow by items of versions. -/
structure Plans (s t : Repository) : Prop where
  kept : ∀ row ∈ s.deletionItems, row ∈ t.deletionItems
  planned : ∀ row ∈ t.deletionItems, row ∈ s.deletionItems ∨
    ∃ v ∈ s.objectVersions, row.item = Repository.deletionItemOf v

theorem move_repository {repository : Repository} (h : Intact ids s) (hpaired : Paired repository)
    (hrows : Licensed ids s repository) (hplans : Plans s.repository repository) :
    (custody ids).Move s { s with repository } := by
  have hplaced : ∀ id key, Placed s id key → Doomed { s with repository } id ∨
      Placed { s with repository } id key := by
    rintro id key ⟨hkey, r, hr, v, hv, rfl, hvid, rfl⟩
    have hdoomed : Doomed s r.versionId → Doomed { s with repository } r.id := by
      rw [h.named r hr]
      rintro (hid | ⟨row, hrow, hid⟩)
      · exact Or.inl hid
      · exact Or.inr ⟨row, hplans.kept row hrow, hid⟩
    rcases hrows.keptRows r hr with hgone | ⟨r', hr', hrid, hrversion⟩
    · exact Or.inl (hdoomed hgone)
    · rcases hrows.keptVersions v hv with hgone | ⟨v', hv', hvid', hvkey⟩
      · exact Or.inl (hdoomed (hvid ▸ hgone))
      · refine Or.inr ⟨hkey, r', hr', v', hv', hrid, ?_, hvkey⟩
        rw [hvid', hvid, hrversion]
  have hlater : Later ids s { s with repository } :=
    ⟨fun _ h => h, hplans.kept, le_rfl, fun _ _ => Or.inl rfl, hplaced, fun _ _ h => Or.inr h⟩
  -- the version of a revised reservation is the one it had before
  have hpair : ∀ r ∈ s.repository.uploadReservations, ∀ v' ∈ repository.objectVersions,
      v'.id = r.versionId → ∃ v ∈ s.repository.objectVersions, v.id = r.versionId ∧
        v'.storageKey = v.storageKey := by
    intro r hr v' hv' hid
    obtain ⟨v, hv, hvid, -⟩ := h.paired.reservations r hr
    rcases hrows.versions v' hv' with ⟨-, -, hfresh⟩ | ⟨w, hw, hretains⟩
    · exact absurd (hvid.trans hid.symm) (hfresh v hv)
    · exact ⟨w, hw, hretains.id.symm.trans hid, hretains.storageKey⟩
  refine ⟨⟨hpaired, fun r' hr' => ?_, fun v' hv' => ?_, fun row hrow => ?_, fun v' hv' hstate => ?_,
    fun r' hr' v' hv' hid providerUploadId hprovider => ?_, fun key hkey => ?_,
    fun r' hr' v' hv' hid hstate => ?_⟩, hlater⟩
  · rcases hrows.rows r' hr' with ⟨hid, -⟩ | ⟨r, hr, hrevises⟩
    · exact hid
    · rw [hrevises.versionId, hrevises.id, h.named r hr]
  · rcases hrows.versions v' hv' with ⟨hkey, -⟩ | ⟨v, hv, hretains⟩
    · exact hkey
    · rw [hretains.id, hretains.storageKey]
      exact h.formed v hv
  · rcases hplans.planned row hrow with hold | ⟨v, hv, hitem⟩
    · exact h.items row hold
    · rw [hitem]
      exact h.formed v hv
  · rcases hrows.versions v' hv' with ⟨-, hpending, -⟩ | ⟨v, hv, hretains⟩
    · rw [hpending] at hstate
      cases hstate
    · rw [hretains.id]
      rcases hretains.aborted hstate with haborted | haborted
      · exact h.aborted v hv haborted
      · exact haborted
  · rcases hrows.rows r' hr' with ⟨-, -, hnone⟩ | ⟨r, hr, hrevises⟩
    · rw [hnone] at hprovider
      cases hprovider
    · obtain ⟨v, hv, hvid, hkey⟩ := hpair r hr v' hv' (hid.trans hrevises.versionId)
      have hprovided : Doomed s r.id ∨ Provides ids s providerUploadId v.storageKey := by
        rcases hrevises.provided v hv hvid providerUploadId hprovider with hold | hnew
        · exact h.provided r hr v hv hvid providerUploadId hold
        · exact hnew
      rw [hrevises.id, hkey]
      rcases hprovided with hdoomed | hprovides
      · exact Or.inl (hlater.doomed hdoomed)
      · exact Or.inr hprovides
  · exact h.described key fun hdoomed => hkey (hlater.doomedKey hdoomed)
  · rcases hrows.rows r' hr' with ⟨-, hrequested, -⟩ | ⟨r, hr, hrevises⟩
    · rcases hstate with hstate | hstate <;> rw [hrequested] at hstate <;> cases hstate
    · obtain ⟨v, hv, hvid, hkey⟩ := hpair r hr v' hv' (hid.trans hrevises.versionId)
      have hreceived : Doomed s r.id ∨ Stored s v.storageKey r.expectedSize r.expectedChecksum := by
        rcases hrevises.received v hv hvid hstate with hold | hnew
        · exact h.received r hr v hv hvid hold
        · exact hnew
      rw [hrevises.id, hkey, hrevises.expected.1, hrevises.expected.2]
      rcases hreceived with hdoomed | hstored
      · exact Or.inl (hlater.doomed hdoomed)
      · exact Or.inr hstored

/-! ### What the transactions do -/

theorem Revises.refl (r : UploadReservationRow) : Revises ids s r r :=
  ⟨rfl, rfl, ⟨rfl, rfl⟩, fun _ _ _ _ h => Or.inl h, fun _ _ _ h => Or.inl h⟩

omit [Digest] in
theorem Retains.refl (v : ObjectVersionRecord) : Retains s v v := ⟨rfl, rfl, Or.inl⟩

variable {repository : Repository}

theorem licensed_same (hr : repository.uploadReservations = s.repository.uploadReservations)
    (hv : repository.objectVersions = s.repository.objectVersions) : Licensed ids s repository where
  rows r hmem := Or.inr ⟨r, hr ▸ hmem, Revises.refl r⟩
  versions v hmem := Or.inr ⟨v, hv ▸ hmem, Retains.refl v⟩
  keptRows r hmem := Or.inr ⟨r, hr ▸ hmem, rfl, rfl⟩
  keptVersions v hmem := Or.inr ⟨v, hv ▸ hmem, rfl, rfl⟩

theorem licensed_reserved {value : NewUploadReservation} {version : ℕ}
    (hkey : KeyOf value.id value.storageKey)
    (hv : s.repository.objectVersions.Inserted repository.objectVersions
      (Repository.reservedVersion value version))
    (hr : s.repository.uploadReservations.Inserted repository.uploadReservations
      (Repository.requestedReservation value)) : Licensed ids s repository where
  rows r' hmem := by
    rcases (hr.mem r').mp hmem with hold | rfl
    · exact Or.inr ⟨r', hold, Revises.refl r'⟩
    · exact Or.inl ⟨rfl, rfl, rfl⟩
  versions v' hmem := by
    rcases (hv.mem v').mp hmem with hold | rfl
    · exact Or.inr ⟨v', hold, Retains.refl v'⟩
    · exact Or.inl ⟨hkey, rfl, hv.fresh⟩
  keptRows r hmem := Or.inr ⟨r, hr.mem_of_mem hmem, rfl, rfl⟩
  keptVersions v hmem := Or.inr ⟨v, hv.mem_of_mem hmem, rfl, rfl⟩

/-- The rows of a table after one of them is replaced. -/
theorem rows_replaced {r r' : UploadReservationRow}
    (hr : s.repository.uploadReservations.Replaced repository.uploadReservations r r')
    (hrevises : Revises ids s r r') :
    (∀ x' ∈ repository.uploadReservations,
      ∃ x ∈ s.repository.uploadReservations, Revises ids s x x') ∧
    ∀ x ∈ s.repository.uploadReservations,
      ∃ x' ∈ repository.uploadReservations, x'.id = x.id ∧ x'.versionId = x.versionId := by
  refine ⟨fun x' hx' => ?_, fun x hx => ?_⟩
  · rcases (hr.mem x').mp hx' with ⟨hold, -⟩ | rfl
    · exact ⟨x', hold, Revises.refl x'⟩
    · exact ⟨r, hr.mem_old, hrevises⟩
  · by_cases hxr : x = r
    · subst hxr
      exact ⟨r', hr.mem_new, hrevises.id, hrevises.versionId⟩
    · exact ⟨x, (hr.mem x).mpr (Or.inl ⟨hx, hxr⟩), rfl, rfl⟩

omit [Digest] in
theorem versions_replaced {v v' : ObjectVersionRecord}
    (hv : s.repository.objectVersions.Replaced repository.objectVersions v v')
    (hretains : Retains s v v') :
    (∀ x' ∈ repository.objectVersions, ∃ x ∈ s.repository.objectVersions, Retains s x x') ∧
    ∀ x ∈ s.repository.objectVersions,
      ∃ x' ∈ repository.objectVersions, x'.id = x.id ∧ x'.storageKey = x.storageKey := by
  refine ⟨fun x' hx' => ?_, fun x hx => ?_⟩
  · rcases (hv.mem x').mp hx' with ⟨hold, -⟩ | rfl
    · exact ⟨x', hold, Retains.refl x'⟩
    · exact ⟨v, hv.mem_old, hretains⟩
  · by_cases hxv : x = v
    · subst hxv
      exact ⟨v', hv.mem_new, hretains.id, hretains.storageKey⟩
    · exact ⟨x, (hv.mem x).mpr (Or.inl ⟨hx, hxv⟩), rfl, rfl⟩

theorem licensed_revised {r r' : UploadReservationRow}
    (hr : s.repository.uploadReservations.Replaced repository.uploadReservations r r')
    (hv : repository.objectVersions = s.repository.objectVersions)
    (hrevises : Revises ids s r r') : Licensed ids s repository := by
  obtain ⟨hrows, hkept⟩ := rows_replaced hr hrevises
  exact ⟨fun x hx => Or.inr (hrows x hx), fun v hmem => Or.inr ⟨v, hv ▸ hmem, Retains.refl v⟩,
    fun x hx => Or.inr (hkept x hx), fun v hmem => Or.inr ⟨v, hv ▸ hmem, rfl, rfl⟩⟩

theorem licensed_closed {r r' : UploadReservationRow} {v v' : ObjectVersionRecord}
    (hr : s.repository.uploadReservations.Replaced repository.uploadReservations r r')
    (hv : s.repository.objectVersions.Replaced repository.objectVersions v v')
    (hrevises : Revises ids s r r') (hretains : Retains s v v') : Licensed ids s repository := by
  obtain ⟨hrows, hkept⟩ := rows_replaced hr hrevises
  obtain ⟨hversions, hkeptVersions⟩ := versions_replaced hv hretains
  exact ⟨fun x hx => Or.inr (hrows x hx), fun x hx => Or.inr (hversions x hx),
    fun x hx => Or.inr (hkept x hx), fun x hx => Or.inr (hkeptVersions x hx)⟩

/-- What a finished deletion takes away was doomed. -/
theorem licensed_removed (h : Intact ids s) {o : DeletionOperationRow}
    (hremoved : RowsRemoved s.repository repository o) : Licensed ids s repository := by
  have hplanned : ∀ {id}, id ∈ s.repository.plannedIds o.id → Doomed s id := by
    intro id hid
    obtain ⟨row, hrow, -, hitem⟩ := Repository.mem_plannedIds.mp hid
    exact Or.inr ⟨row, hrow, hitem⟩
  refine ⟨fun r hr => Or.inr ⟨r, ((hremoved.reservations r).mp hr).1, Revises.refl r⟩,
    fun v hv => Or.inr ⟨v, ((hremoved.versions v).mp hv).1, Retains.refl v⟩, fun r hr => ?_,
    fun v hv => ?_⟩
  · by_cases hgone : s.repository.RemovesId o r.versionId
    · rcases hgone with hgone | ⟨-, v, hv, haborted, hid⟩
      · exact Or.inl (hplanned hgone)
      · exact Or.inl (hid ▸ Or.inl (h.aborted v hv haborted.2.2.1))
    · exact Or.inr ⟨r, (hremoved.reservations r).mpr ⟨hr, hgone⟩, rfl, rfl⟩
  · by_cases hgone : s.repository.Removes o v
    · rcases hgone with hgone | ⟨-, haborted⟩
      · exact Or.inl (hplanned hgone)
      · exact Or.inl (Or.inl (h.aborted v hv haborted.2.2.1))
    · exact Or.inr ⟨v, (hremoved.versions v).mpr ⟨hv, hgone⟩, rfl, rfl⟩

omit [Digest] in
theorem plans_of_step {t t' : Repository} (h : Repository.PlanStep t t') : Plans t t' := by
  cases h with
  | same hsame => exact ⟨fun row hrow => hsame.2 ▸ hrow, fun row hrow => Or.inl (hsame.2 ▸ hrow)⟩
  | @planned o versions hplanned _ =>
    refine ⟨fun row hrow => (hplanned.items row).mpr (Or.inl hrow), fun row hrow => ?_⟩
    rcases (hplanned.items row).mp hrow with hold | ⟨v, hv, rfl⟩
    · exact Or.inl hold
    · exact Or.inr ⟨v, (hplanned.complete v hv).1, rfl⟩
  | finished hfinished =>
    exact ⟨fun row hrow => hfinished.items ▸ hrow, fun row hrow => Or.inl (hfinished.items ▸ hrow)⟩

/-! ### Transactions -/

/-- What a handler knows before it asks for a transaction. -/
def Permitted (ids : ℕ → String) (s : Site) : RepositoryCommand → Prop
  | .reserveUpload value => KeyOf value.id value.storageKey
  | .reserveInboxUpload _ value => KeyOf value.id value.storageKey
  | .attachMultipart id providerUploadId => Doomed s id ∨ ∃ key, Placed s id key ∧
    Provides ids s providerUploadId key
  | .recordUploadedBytes id size checksum => Backed s id size checksum
  | .abortUpload id => id ∈ s.aborts
  | .abortInboxUpload _ uploadId _ => uploadId ∈ s.aborts
  | _ => True

theorem Later.permitted (h : Later ids s t) {c : RepositoryCommand} (hc : Permitted ids s c) :
    Permitted ids t c := by
  cases c with
  | attachMultipart id providerUploadId =>
    rcases hc with hdoomed | ⟨key, hplaced, hprovides⟩
    · exact Or.inl (h.doomed hdoomed)
    · rcases h.placed id key hplaced with hdoomed | hplaced'
      · exact Or.inl hdoomed
      · exact Or.inr ⟨key, hplaced', h.provides hprovides⟩
  | recordUploadedBytes id size checksum => exact h.backed hc
  | abortUpload id => exact h.aborts id hc
  | abortInboxUpload capabilityHash uploadId nowMs => exact h.aborts uploadId hc
  | _ => exact hc

omit [Digest] in
theorem reading_eq_ok {α : Type} {r t : Repository} {x : Except RepositoryError α} {a : α} :
    RepositoryCommand.reading r x = .ok (a, t) ↔ x = .ok a ∧ t = r := by
  simp only [RepositoryCommand.reading, map_eq_ok, Prod.mk.injEq]
  constructor
  · rintro ⟨_, hx, rfl, rfl⟩
    exact ⟨hx, rfl⟩
  · rintro ⟨hx, rfl⟩
    exact ⟨a, hx, rfl, rfl⟩

omit [Digest] in
theorem writing_eq_ok {t : Repository} {x : Except RepositoryError Repository} {u : Unit} :
    RepositoryCommand.writing x = .ok (u, t) ↔ x = .ok t := by
  simp only [RepositoryCommand.writing, map_eq_ok, Prod.mk.injEq]
  constructor
  · rintro ⟨_, hx, -, rfl⟩
    exact hx
  · intro hx
    exact ⟨t, hx, trivial, rfl⟩

/-- A transaction is one of the requests on uploads, parts and plans, or leaves their tables
alone. -/
inductive Kind (s t : Repository) : Prop
  | upload (request : UploadRequest) {completed : Option ObjectVersionRecord} :
    request.run s = .ok (completed, t) → Kind s t
  | part (request : PartRequest) : request.run s = .ok t → SamePlans s t → Kind s t
  | deletion (request : DeletionRequest) : request.run s = .ok t → Kind s t
  | quiet : t.uploadReservations = s.uploadReservations → t.objectVersions = s.objectVersions →
    SamePlans s t → Kind s t

omit [Digest] in
theorem kind_of_run {c : RepositoryCommand} {r t : Repository} {a : c.Value}
    (h : c.run r = .ok (a, t)) : Kind r t := by
  -- the value of a transaction is not needed here
  have hsnd : ∀ {α : Type} {x : Except RepositoryError (α × Repository)} {a : α},
      x = .ok (a, t) → Prod.snd <$> x = .ok t := by
    rintro α x a rfl
    rfl
  cases c with
  | reserveUpload value =>
    exact .upload (.reserveUpload value) (map_eq_ok.mpr ⟨(a, t), h, rfl⟩)
  | reserveInboxUpload upload value =>
    exact .upload (.reserveInboxUpload upload value) (map_eq_ok.mpr ⟨(a, t), h, rfl⟩)
  | renewUpload id expiresAtMs =>
    exact .upload (.renewUpload id expiresAtMs)
      (map_eq_ok.mpr ⟨t, writing_eq_ok.mp h, rfl⟩)
  | recordUploadedBytes id size checksum =>
    exact .upload (.recordUploadedBytes id size checksum)
      (map_eq_ok.mpr ⟨t, writing_eq_ok.mp h, rfl⟩)
  | completeUpload id =>
    exact .upload (.completeUpload id) (map_eq_ok.mpr ⟨(a, t), h, rfl⟩)
  | completeInboxUpload capabilityHash uploadId nowMs event =>
    exact .upload (.completeInboxUpload capabilityHash uploadId nowMs event)
      (map_eq_ok.mpr ⟨(a, t), h, rfl⟩)
  | abortUpload id =>
    exact .upload (.abortUpload id) (map_eq_ok.mpr ⟨(a, t), h, rfl⟩)
  | abortInboxUpload capabilityHash uploadId nowMs =>
    exact .upload (.abortInboxUpload capabilityHash uploadId nowMs)
      (map_eq_ok.mpr ⟨(a, t), h, rfl⟩)
  | attachMultipart id providerUploadId =>
    refine .part (.attach id providerUploadId) (hsnd h) ?_
    rcases Repository.attachMultipart_spec h with rfl | ⟨_, _, rfl, -⟩
    · exact ⟨rfl, rfl⟩
    · exact ⟨rfl, rfl⟩
  | recordUploadedPart uploadId partNumber size checksum providerTag =>
    have hrun := writing_eq_ok.mp h
    refine .part (.record uploadId partNumber size checksum providerTag) hrun ?_
    obtain ⟨_, rfl⟩ := Repository.recordUploadedPart_frame hrun
    exact ⟨rfl, rfl⟩
  | beginObjectDeletion value =>
    exact .deletion (.beginObjectDeletion value) (hsnd h)
  | beginRetention projectId runId actor requestId startedAtMs =>
    exact .deletion (.beginRetention projectId runId actor requestId startedAtMs) (hsnd h)
  | failRetention runId completedAtMs =>
    exact .deletion (.failRetention runId completedAtMs) (writing_eq_ok.mp h)
  | planYardCleanup deployId createdAtMs =>
    exact .deletion (.planYardCleanup deployId createdAtMs) (writing_eq_ok.mp h)
  | finishDeletion operationId completedAtMs event =>
    exact .deletion (.finishDeletion operationId completedAtMs event)
      (writing_eq_ok.mp h)
  | recordAudit event =>
    obtain ⟨_, rfl⟩ := Repository.insertAudit_spec (writing_eq_ok.mp h)
    exact .quiet rfl rfl ⟨rfl, rfl⟩
  | other change =>
    obtain ⟨-, rfl⟩ := Prod.mk.inj (Except.ok.inj h)
    exact .quiet rfl rfl ⟨rfl, rfl⟩
  | _ =>
    obtain ⟨-, rfl⟩ := reading_eq_ok.mp h
    exact .quiet rfl rfl ⟨rfl, rfl⟩

omit [Digest] in
theorem Kind.paired {r t : Repository} (h : Kind r t) (hpaired : Paired r) : Paired t := by
  cases h with
  | upload _ hrun => exact paired_change hpaired (uploadChange hrun)
  | part _ hrun _ => exact paired_change hpaired (partChange hrun)
  | deletion _ hrun =>
    rcases deletionChange hrun with hchange | ⟨_, _, _, -, o, hremoved⟩
    · exact paired_change hpaired hchange
    · exact paired_removed hpaired hremoved
  | quiet hr hv _ => exact paired_change hpaired (.quiet hr hv)

omit [Digest] in
theorem Kind.plans {r t : Repository} (h : Kind r t) : Plans r t := by
  cases h with
  | upload _ hrun => exact plans_of_step (.same (UploadRequest.versionChange hrun).2)
  | part _ _ hsame => exact plans_of_step (.same hsame)
  | deletion _ hrun => exact plans_of_step (DeletionRequest.planStep hrun)
  | quiet _ _ hsame => exact plans_of_step (.same hsame)

/-- A transaction revises the rows as its handler was permitted to. -/
theorem licensed_run (h : Intact ids s) {c : RepositoryCommand} {t : Repository} {a : c.Value}
    (hc : Permitted ids s c) (hrun : c.run s.repository = .ok (a, t)) : Licensed ids s t := by
  cases c with
  | reserveUpload value =>
    obtain ⟨_, _, _, -, rfl, hv, -, hr⟩ := Repository.reserveUpload_spec hrun
    exact licensed_reserved hc hv hr
  | reserveInboxUpload upload value =>
    obtain ⟨_, _, _, _, _, _, rfl, -, -, -, -, hv, -, hr, -⟩ :=
      Repository.reserveInboxUpload_spec hrun
    exact licensed_reserved hc hv hr
  | renewUpload id expiresAtMs =>
    obtain ⟨_, _, rfl, -, -, hr⟩ := Repository.renewUpload_spec (writing_eq_ok.mp hrun)
    exact licensed_revised hr rfl
      ⟨rfl, rfl, ⟨rfl, rfl⟩, fun _ _ _ _ h => Or.inl h, fun _ _ _ h => Or.inl h⟩
  | attachMultipart id providerUploadId =>
    rcases Repository.attachMultipart_spec hrun with rfl | ⟨row, _, rfl, rfl, hstate, hr⟩
    -- the provider's upload is attached already
    · exact licensed_same rfl rfl
    · refine licensed_revised hr rfl ⟨rfl, rfl, ⟨rfl, rfl⟩, fun v hv hid provider hprovider => ?_,
        fun _ _ _ h => Or.inl h⟩
      obtain rfl := Option.some.inj hprovider
      refine Or.inr ?_
      -- what is attached was permitted: the version is doomed, or the provider has an upload for
      -- its key
      rcases hc with hdoomed | ⟨key, ⟨-, r, hmem, w, hw, hrid, hwid, rfl⟩, hprovides⟩
      · exact Or.inl hdoomed
      · obtain rfl : r = row := Table.eq_of_key hmem hr.mem_old hrid
        obtain rfl : w = v := Table.eq_of_key hw hv (hwid.trans hid.symm)
        exact Or.inr hprovides
  | recordUploadedBytes id size checksum =>
    obtain ⟨row, _, _, rfl, rfl, hstate, hsize, hchecksum, -, -, hr⟩ :=
      Repository.recordUploadedBytes_spec (writing_eq_ok.mp hrun)
    refine licensed_revised hr rfl ⟨rfl, rfl, ⟨rfl, rfl⟩, fun _ _ _ _ h => Or.inl h,
      fun v hv hid _ => Or.inr ?_⟩
    -- the recorded bytes are those that the storage reports for the key of the version
    rcases hc with hdoomed | ⟨key, metadata, ⟨-, r, hmem, w, hw, hrid, hwid, hwkey⟩, hholds, hsum⟩
    · exact Or.inl hdoomed
    · obtain rfl : r = row := Table.eq_of_key hmem hr.mem_old hrid
      obtain rfl : w = v := Table.eq_of_key hw hv (hwid.trans hid.symm)
      exact Or.inr ⟨key, metadata, hwkey.symm, hholds, hsum.1.trans hsize.symm,
        hsum.2.trans hchecksum.symm⟩
  -- a completed version has bytes on record, which the old row vouches for
  | completeUpload id =>
    obtain ⟨row, version, _, _, rfl, -, hstate, -, -, -, hr, hv⟩ :=
      Repository.completeUpload_spec hrun
    exact licensed_closed hr hv ⟨rfl, rfl, ⟨rfl, rfl⟩, fun _ _ _ _ h => Or.inl h,
      fun _ _ _ _ => Or.inl (Or.inl hstate)⟩ ⟨rfl, rfl, fun h => by cases h⟩
  | completeInboxUpload capabilityHash uploadId nowMs event =>
    obtain ⟨_, _, _, _, _, _, _, _, _, rfl, -, hstate, -, -, -, -, -, -, -, -, hr, hv, -⟩ :=
      Repository.completeInboxUpload_spec hrun
    exact licensed_closed hr hv ⟨rfl, rfl, ⟨rfl, rfl⟩, fun _ _ _ _ h => Or.inl h,
      fun _ _ _ _ => Or.inl (Or.inl hstate)⟩ ⟨rfl, rfl, fun h => by cases h⟩
  -- an abort is permitted only for a version that is doomed
  | abortUpload id =>
    obtain ⟨row, version, _, _, _, rfl, rfl, -, hvid, -, hr, hv⟩ := Repository.abortUpload_spec hrun
    have hid : version.id = row.id := hvid.trans (h.named row hr.mem_old)
    exact licensed_closed hr hv ⟨rfl, rfl, ⟨rfl, rfl⟩, fun _ _ _ _ h => Or.inl h,
      fun _ _ _ h => by rcases h with h | h <;> cases h⟩ ⟨rfl, rfl, fun _ => Or.inr (hid ▸ hc)⟩
  | abortInboxUpload capabilityHash uploadId nowMs =>
    obtain ⟨row, version, _, _, _, _, _, _, _, rfl, rfl, -, hvid, -, -, -, -, -, -, hr, hv, -⟩ :=
      Repository.abortInboxUpload_spec hrun
    have hid : version.id = row.id := hvid.trans (h.named row hr.mem_old)
    exact licensed_closed hr hv ⟨rfl, rfl, ⟨rfl, rfl⟩, fun _ _ _ _ h => Or.inl h,
      fun _ _ _ h => by rcases h with h | h <;> cases h⟩ ⟨rfl, rfl, fun _ => Or.inr (hid ▸ hc)⟩
  | recordUploadedPart uploadId partNumber size checksum providerTag =>
    obtain ⟨_, rfl⟩ := Repository.recordUploadedPart_frame (writing_eq_ok.mp hrun)
    exact licensed_same rfl rfl
  -- a plan, a run and a cleanup change neither versions nor reservations
  | beginObjectDeletion value =>
    rcases Repository.beginObjectDeletion_spec hrun with rfl | ⟨_, _, _, rfl, -⟩
    · exact licensed_same rfl rfl
    · exact licensed_same rfl rfl
  | beginRetention projectId runId actor requestId startedAtMs =>
    rcases Repository.beginRetention_spec hrun with ⟨_, rfl⟩ | ⟨_, _, _, _, _, rfl, -⟩
    · exact licensed_same rfl rfl
    · exact licensed_same rfl rfl
  | failRetention runId completedAtMs =>
    obtain ⟨_, rfl⟩ := Repository.failRetention_frame (writing_eq_ok.mp hrun)
    exact licensed_same rfl rfl
  | planYardCleanup deployId createdAtMs =>
    rcases Repository.planYardCleanup_spec (writing_eq_ok.mp hrun) with rfl | ⟨_, _, _, _, rfl, -⟩
    · exact licensed_same rfl rfl
    · exact licensed_same rfl rfl
  -- the versions that go were due
  | finishDeletion operationId completedAtMs event =>
    rcases Repository.finishDeletion_rows (writing_eq_ok.mp hrun) with rfl | ⟨o, hv, hr⟩
    · exact licensed_same rfl rfl
    · exact licensed_removed h ⟨hv, hr⟩
  | recordAudit event =>
    obtain ⟨_, rfl⟩ := Repository.insertAudit_spec (writing_eq_ok.mp hrun)
    exact licensed_same rfl rfl
  -- the other commands are reads, and leave the rows
  | other change =>
    obtain ⟨-, rfl⟩ := Prod.mk.inj (Except.ok.inj hrun)
    exact licensed_same rfl rfl
  | _ =>
    obtain ⟨-, rfl⟩ := reading_eq_ok.mp hrun
    exact licensed_same rfl rfl

theorem move_run (h : Intact ids s) {c : RepositoryCommand} {t : Repository} {a : c.Value}
    (hc : Permitted ids s c) (hrun : c.run s.repository = .ok (a, t)) :
    (custody ids).Move s { s with repository := t } :=
  move_repository h ((kind_of_run hrun).paired h.paired) (licensed_run h hc hrun)
    (kind_of_run hrun).plans

/-! ### What the transactions answer -/

/-- What a handler knows after a transaction. -/
def Answers (ids : ℕ → String) (s : Site) : (c : RepositoryCommand) → c.Value → Prop
  | .uploadById id, r => Reserved ids s r ∧ r.id = id
  | .uploadByCapability _ _, r => Reserved ids s r
  | .inboxUploadById _ uploadId _, r => Reserved ids s r ∧ r.id = uploadId
  | .reserveUpload _, r => Reserved ids s r
  | .reserveInboxUpload _ _, r => Reserved ids s r
  | .beginObjectDeletion _, plan => ∀ item ∈ plan.items, Due s item
  | .beginRetention _ _ _ _ _, plan => ∀ item ∈ plan.items, Due s item
  | .pendingYardCleanups _, cleanups =>
    ∀ cleanup ∈ cleanups, ∀ item ∈ cleanup.deletion.items, Due s item
  | _, _ => True

theorem Later.answers (h : Later ids s t) {c : RepositoryCommand} {a : c.Value}
    (ha : Answers ids s c a) : Answers ids t c a := by
  cases c with
  | uploadById id => exact ⟨h.reserved ha.1, ha.2⟩
  | uploadByCapability capabilityHash nowMs => exact h.reserved ha
  | inboxUploadById capabilityHash uploadId nowMs => exact ⟨h.reserved ha.1, ha.2⟩
  | reserveUpload value => exact h.reserved ha
  | reserveInboxUpload upload value => exact h.reserved ha
  | beginObjectDeletion value => exact fun item hitem => h.due (ha item hitem)
  | beginRetention projectId runId actor requestId startedAtMs =>
    exact fun item hitem => h.due (ha item hitem)
  | pendingYardCleanups yardId =>
    exact fun cleanup hcleanup item hitem => h.due (ha cleanup hcleanup item hitem)
  | _ => trivial

theorem reserved_of_mem (h : Intact ids s) {row : UploadReservationRow}
    {version : ObjectVersionRecord} (hr : row ∈ s.repository.uploadReservations)
    (hv : version ∈ s.repository.objectVersions) (hid : version.id = row.versionId) :
    Reserved ids s (reservationRecord row version) := by
  have hkey : KeyOf row.id version.storageKey := by
    rw [← h.named row hr, ← hid]
    exact h.formed version hv
  exact ⟨hkey, Or.inr ⟨hkey, row, hr, version, hv, rfl, hid, rfl⟩, h.provided row hr version hv hid⟩

theorem reserved_of_id (h : Intact ids s) {id : String} {r : UploadReservationRecord}
    (hr : s.repository.reservationById id = .ok r) : Reserved ids s r ∧ r.id = id := by
  obtain ⟨row, hrow, version, hversion, rfl, hvid, rfl⟩ := Repository.reservationById_eq_ok.mp hr
  exact ⟨reserved_of_mem h hrow hversion hvid, rfl⟩

theorem due_of_item (h : Intact ids s) {operationId : String} {item : DeletionItem}
    (hitem : item ∈ s.repository.operationItems operationId) : Due s item := by
  simp only [Repository.operationItems, mem_orderBy, List.mem_map, Table.mem_select] at hitem
  obtain ⟨row, ⟨hrow, -⟩, rfl⟩ := hitem
  exact ⟨h.items row hrow, Or.inr ⟨row, hrow, rfl⟩⟩

/-- The items of a plan that was read are those of a persisted one. -/
theorem due_of_plan (h : Intact ids s) {operationId : String} {plan : DeletionPlan}
    (hplan : s.repository.deletionPlan operationId = .ok plan) :
    ∀ item ∈ plan.items, Due s item := by
  obtain ⟨_, -, -, rfl⟩ := Repository.deletionPlan_eq_ok.mp hplan
  exact fun item hitem => due_of_item h hitem

theorem answers_run {c : RepositoryCommand} {t : Repository} {a : c.Value}
    (hrun : c.run s.repository = .ok (a, t)) (h : Intact ids { s with repository := t }) :
    Answers ids { s with repository := t } c a := by
  cases c with
  -- the readers of reservations answer with a row and its version
  | uploadById id =>
    obtain ⟨hread, rfl⟩ := reading_eq_ok.mp hrun
    simp only [Repository.uploadById, bind_eq_ok] at hread
    obtain ⟨-, -, hread⟩ := hread
    exact reserved_of_id h hread
  | uploadByCapability capabilityHash nowMs =>
    obtain ⟨hread, rfl⟩ := reading_eq_ok.mp hrun
    simp only [Repository.uploadByCapability, bind_eq_ok, requireRow_eq_ok,
      Option.bind_eq_some_iff, Repository.joinVersion, Option.map_eq_some_iff,
      Table.find?_eq_some] at hread
    obtain ⟨-, -, -, -, row, hrow, version, ⟨hversion, hvid⟩, rfl⟩ := hread
    exact reserved_of_mem h (Table.mem_select.mp (List.mem_of_head? hrow)).1 hversion hvid
  | inboxUploadById capabilityHash uploadId nowMs =>
    obtain ⟨hread, rfl⟩ := reading_eq_ok.mp hrun
    simp only [Repository.inboxUploadById, Repository.inboxUpload, bind_eq_ok] at hread
    obtain ⟨-, -, -, -, -, -, -, -, hread⟩ := hread
    exact reserved_of_id h hread
  | reserveUpload value => exact (reserved_of_id h (Repository.reserveUpload_result hrun)).1
  | reserveInboxUpload upload value =>
    exact (reserved_of_id h (Repository.reserveInboxUpload_result hrun).1).1
  -- the plans name only versions that are due
  | beginObjectDeletion value =>
    rcases Repository.beginObjectDeletion_cases hrun with ⟨o, -, -, -, rfl, rfl⟩ |
      ⟨o, -, -, rfl, rfl⟩ | ⟨-, -, rfl⟩
    · exact fun item hitem => due_of_item h hitem
    · exact fun item hitem => due_of_item h hitem
    · exact fun item hitem => due_of_item h hitem
  | beginRetention projectId runId actor requestId startedAtMs =>
    rcases Repository.beginRetention_cases hrun with ⟨o, -, -, rfl⟩ | ⟨-, _, -, -, rfl⟩
    · exact fun item hitem => due_of_item h hitem
    · exact fun item hitem => due_of_item h hitem
  -- a cleanup is a plan too, read for each deploy that waits for one
  | pendingYardCleanups yardId =>
    obtain ⟨hread, rfl⟩ := reading_eq_ok.mp hrun
    simp only [Repository.pendingYardCleanups, bind_eq_ok] at hread
    obtain ⟨-, -, hread⟩ := hread
    intro cleanup hcleanup
    obtain ⟨header, -, hheader⟩ := (mem_of_mapM hread).mp hcleanup
    simp only [bind_eq_ok, pure_eq_ok] at hheader
    obtain ⟨deletion, hplan, rfl⟩ := hheader
    exact due_of_plan h hplan
  -- no promise is made of the other answers
  | _ => trivial

/-! ### Rules for the commands -/

variable {capabilityKey : String}

/-- The handler keeps to the discipline of the server, and its result is as promised. -/
abbrev Obeys (capabilityKey : String) (ids : ℕ → String) {α : Type} (x : Handler α)
    (P : α → Site → Prop) (s : Site) : Prop :=
  x.Sound (server capabilityKey ids) (custody ids) P s

/-- The same of one storage operation, where it does not fail. -/
abbrev Operates (capabilityKey : String) (ids : ℕ → String) (c : StorageCommand)
    (P : c.Value → Site → Prop) (s : Site) : Prop :=
  (Program.call (ServerCommand.storage c)).Sound (server capabilityKey ids) (custody ids)
    (fun r t => ∀ a, r = Except.ok a → P a t) s

theorem transact_move (h : Intact ids s) {c : RepositoryCommand} (hc : Permitted ids s c) :
    (custody ids).Move s (s.transact c).2 ∧
      ∀ a, (s.transact c).1 = .ok a → Answers ids (s.transact c).2 c a := by
  unfold Site.transact
  split
  · rename_i value repository hrun
    have hmove := move_run h hc hrun
    refine ⟨hmove, fun a ha => ?_⟩
    obtain rfl := Except.ok.inj ha
    exact answers_run hrun hmove.inv
  · refine ⟨Discipline.Move.refl h, fun a ha => ?_⟩
    cases ha

theorem sound_transaction {c : RepositoryCommand} (hc : Permitted ids s c) :
    (Program.call (ServerCommand.repository c)).Sound (server capabilityKey ids) (custody ids)
      (fun r t => ∀ a, r = Except.ok a → Answers ids t c a) s := by
  refine Program.sound_call (fun r u v hr huv a ha => Later.answers huv (hr a ha))
    fun t ht hinv => ?_
  have hmove := transact_move hinv (Later.permitted ht hc)
  have hperform : ∀ fails, (custody ids).Move t (Site.perform ids (.repository c) fails t).2 ∧
      ∀ a, (Site.perform ids (.repository c) fails t).1 = .ok a →
        Answers ids (Site.perform ids (.repository c) fails t).2 c a := by
    intro fails
    rw [Site.perform_repository]
    split
    -- the transaction fails and leaves everything as it was
    · refine ⟨Discipline.Move.refl hinv, fun a ha => ?_⟩
      cases ha
    · exact hmove
  refine ⟨⟨fun fails => (hperform fails).1, fun fails => ?_⟩, fun fails => (hperform fails).2⟩
  show Intact ids (Site.crash ids (.repository c) fails t)
  rw [Site.crash_repository]
  split
  · exact hinv
  · exact hmove.1.inv

/-- An operation whose states are all moves, call by call. -/
theorem sound_operation {c : StorageCommand} {P : c.Value → Site → Prop}
    (hstable : ∀ a, (custody ids).Stable (P a))
    (h : ∀ t, Later ids s t → Intact ids t → ∃ I Q,
      (provider c).Throughout Filesystem.machine I Q t.files ∧
        (∀ files, I files → (custody ids).Move t { t with files }) ∧
        ∀ a files, I files → Q a files → P a { t with files }) :
    Operates capabilityKey ids c P s := by
  refine Program.sound_call (fun r u v hr huv a ha => hstable a u v (hr a ha) huv)
    fun t ht hinv => ?_
  obtain ⟨I, Q, hthroughout, hmove, hresult⟩ := h t ht hinv
  refine ⟨⟨fun fails => ?_, fun fails => ?_⟩, fun fails a ha => ?_⟩
  · exact hmove _ (Program.Throughout.execWith hthroughout fails).1
  · exact (hmove _ (Program.Throughout.haltWith hthroughout fails)).inv
  · obtain ⟨hfiles, hanswer⟩ := Program.Throughout.execWith hthroughout fails
    exact hresult a _ hfiles (hanswer a ha)

theorem stable_true {α : Type} : ∀ _ : α, (custody ids).Stable fun _ => True :=
  fun _ => Discipline.stable_true _

theorem stable_held (key : StorageKey) (metadata : StorageMetadata) :
    (custody ids).Stable fun t => Held t key metadata := fun _ _ h hlater => Later.held hlater h

/-- Files that keep what is whole, with the staged uploads as they were. -/
theorem move_of_keeps (h : Intact ids s) {files : Filesystem} {gone : StorageKey → Prop}
    (hkeeps : Keeps s.files files gone) (hgone : ∀ key, gone key → DoomedKey s key)
    (hvanishing : Vanishing s.files files) : (custody ids).Move s { s with files } :=
  move_files h le_rfl (hkeeps.mono hgone) fun k _ => hvanishing (ids k)

theorem move_of_staging (h : Intact ids s) {files : Filesystem} (hfiles : Staging s.files files) :
    (custody ids).Move s { s with files } := by
  have hkeeps : Keeps s.files files fun _ => False := hfiles.keeps
  exact move_of_keeps h hkeeps (fun _ h => h.elim) hfiles.vanishing

theorem sound_put (key : StorageKey) (content : Bytes) (expected : Option ObjectChecksum) :
    Operates capabilityKey ids (.put key content expected)
      (fun metadata t => Held t key metadata) s := by
  refine sound_operation (fun metadata => stable_held key metadata) fun t _ hinv => ?_
  refine ⟨_, _, put_throughout t.files key content expected, fun files hfiles => ?_,
    fun metadata files _ hresult => Or.inr hresult.2.2⟩
  exact move_of_keeps hinv hfiles.1.keeps (fun _ h => h.elim) (vanishing_of_multipart hfiles.2)

theorem sound_head (key : StorageKey) :
    Operates capabilityKey ids (.head key)
      (fun metadata t => Held t key metadata) s := by
  refine sound_operation (fun metadata => stable_held key metadata) fun t _ hinv => ?_
  refine ⟨_, _, head_throughout t.files key, fun files hfiles => ?_,
    fun metadata files hfiles hresult => ?_⟩
  · subst hfiles
    exact Discipline.Move.refl hinv
  -- a description is right where its object is not doomed
  · subst hfiles
    by_cases hkey : DoomedKey t key
    · exact Or.inl hkey
    · exact Or.inr (hinv.described key hkey metadata hresult.1)

theorem sound_delete {key : StorageKey} (hkey : DoomedKey s key) :
    Operates capabilityKey ids (.delete key) (fun _ _ => True) s := by
  refine sound_operation stable_true fun t ht hinv => ?_
  refine ⟨_, _, delete_throughout t.files key, fun files hfiles => ?_, fun _ _ _ _ => trivial⟩
  refine move_of_keeps hinv hfiles.keeps ?_ (vanishing_of_multipart hfiles.multipart)
  rintro _ rfl
  exact Later.doomedKey ht hkey

theorem sound_putPart (upload : String) (number : ℕ) (source : Bytes) :
    Operates capabilityKey ids (.putPart upload number source)
      (fun _ _ => True) s := by
  refine sound_operation stable_true fun t _ hinv => ?_
  refine ⟨_, _, storePart_throughout t.files upload number source, fun files hfiles => ?_,
    fun _ _ _ _ => trivial⟩
  exact move_of_staging hinv hfiles

theorem sound_abortMultipart (upload : String) :
    Operates capabilityKey ids (.abortMultipart upload)
      (fun _ _ => True) s := by
  refine sound_operation stable_true fun t _ hinv => ?_
  refine ⟨_, _, cancelMultipart_throughout t.files upload, fun files hfiles => ?_,
    fun _ _ _ _ => trivial⟩
  exact move_of_staging hinv hfiles

/-- An object at the key, unless the upload is doomed. -/
def HeldAt (s : Site) (id key : String) (metadata : StorageMetadata) : Prop :=
  Doomed s id ∨ ∃ storageKey, StorageKey.asStr storageKey = key ∧ Held s storageKey metadata

theorem stable_heldAt (id key : String) (metadata : StorageMetadata) :
    (custody ids).Stable fun t => HeldAt t id key metadata := by
  rintro t u (hdoomed | ⟨storageKey, hkey, hheld⟩) hlater
  · exact Or.inl (Later.doomed hlater hdoomed)
  · exact Or.inr ⟨storageKey, hkey, Later.held hlater hheld⟩

/-- A completed upload is whole at the key it was begun for. -/
theorem sound_completeMultipart {id upload key : String} (parts : List MultipartPart)
    (h : Doomed s id ∨ Provides ids s upload key) :
    Operates capabilityKey ids (.completeMultipart upload parts)
      (fun metadata t => HeldAt t id key metadata) s := by
  refine sound_operation (fun metadata => stable_heldAt id key metadata) fun t ht hinv => ?_
  refine ⟨_, _, finishMultipart_throughout t.files upload parts, fun files hfiles => ?_,
    fun metadata files _ hresult => ?_⟩
  · exact move_of_keeps hinv hfiles.1 (fun _ h => h.elim) hfiles.2
  · obtain ⟨storageKey, hstaged, hholds⟩ := hresult
    rcases h with hdoomed | hprovides
    · exact Or.inl (Later.doomed ht hdoomed)
    · obtain ⟨k, hk, rfl, hkey⟩ := Later.provides ht hprovides
      exact Or.inr ⟨storageKey, hkey storageKey hstaged, Or.inr hholds⟩

/-- A multipart upload that was just begun is for its key. -/
theorem sound_beginMultipart (hids : Function.Injective ids) (key : StorageKey) :
    (Program.call (ServerCommand.beginMultipart key)).Sound (server capabilityKey ids) (custody ids)
      (fun r t => ∀ upload, r = Except.ok upload → Provides ids t upload key.asStr) s := by
  refine Program.sound_call (fun r u v hr huv upload hupload =>
    Later.provides huv (hr upload hupload)) fun t _ hinv => ?_
  have hthroughout := startMultipart_throughout t.files (ids t.draws) key
  have hmove : ∀ files, Starting t.files files (ids t.draws) →
      (custody ids).Move t { t with files, draws := t.draws + 1 } := by
    intro files hfiles
    refine move_files hinv (Nat.le_succ _) (keeps_of_same fun _ _ => ?_) fun k hk => Or.inl ?_
    · rw [hfiles.objects, hfiles.metadata]
      exact ⟨rfl, rfl⟩
    -- the identifier is not one that was drawn before
    · refine hfiles.staged _ fun hsame => ?_
      have := hids hsame
      omega
  refine ⟨⟨fun fails => ?_, fun fails => ?_⟩, fun fails upload hupload => ?_⟩
  · exact hmove _ (Program.Throughout.execWith hthroughout fails).1
  · exact (hmove _ (Program.Throughout.haltWith hthroughout fails)).inv
  · obtain ⟨-, hanswer⟩ := Program.Throughout.execWith hthroughout fails
    obtain ⟨rfl, hkey⟩ := hanswer upload hupload
    refine ⟨t.draws, Nat.lt_succ_self _, rfl, fun staged hstaged => ?_⟩
    exact congrArg _ (Option.some.inj (hstaged.symm.trans hkey))

end Digests

end Custody

end BlobYard
