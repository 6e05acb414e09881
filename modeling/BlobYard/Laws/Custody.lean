/-
The bytes behind complete versions.

Handlers that receive, assemble and delete bytes take turns.  One turn is one transaction or one
storage operation with all its system calls, which no other handler comes between.  System calls of
an operation may fail, and the server may stop in the middle of one.
Whatever the order, the bytes of a complete version are there, as large as the version says and
with its checksum, unless a persisted plan names the version or a request asked to abort its upload.

* `transact_sound`, `operate_sound` — the rules of the commands inside handlers;
* `putUploadAt_sound`, `complete_sound`, `abortStorage_sound`, `deleteItems_sound` — the handlers
  that touch bytes;
* `sound_handler` — every handler keeps to the discipline;
* `custody_law` — the law over runs.
-/
import BlobYard.Server.Custody

namespace BlobYard

open Outcome FilesystemStorage UploadRows

namespace Custody

section Digests

variable [Digest] {ids : ℕ → String} {s : Site} {capabilityKey : String}

/-! ### Rules for the handlers -/

theorem transactAs_sound {rename : RepositoryError → ApiError} {c : RepositoryCommand}
    (hc : Permitted ids s c) :
    Obeys capabilityKey ids (Handlers.transactAs rename c) (fun a t => Answers ids t c a) s :=
  Procedure.sound_attempt (sound_transaction hc) fun _ _ _ ha hlater => Later.answers hlater ha

theorem transact_sound {c : RepositoryCommand} (hc : Permitted ids s c) :
    Obeys capabilityKey ids (Handlers.transact c) (fun a t => Answers ids t c a) s :=
  transactAs_sound hc

theorem tryTransact_sound {c : RepositoryCommand} (hc : Permitted ids s c) :
    Obeys capabilityKey ids (Handlers.tryTransact c)
      (fun r t => ∀ a, r = .ok a → Answers ids t c a) s :=
  Procedure.sound_ask (sound_transaction hc) fun _ _ _ hr hlater a ha =>
    Later.answers hlater (hr a ha)

theorem operate_sound {c : StorageCommand} {P : c.Value → Site → Prop}
    (h : Operates capabilityKey ids c P s) (hstable : ∀ a, (custody ids).Stable (P a)) :
    Obeys capabilityKey ids (Handlers.operate c) P s :=
  Procedure.sound_attempt h hstable

theorem tryOperate_sound {c : StorageCommand} {P : c.Value → Site → Prop}
    (h : Operates capabilityKey ids c P s) (hstable : ∀ a, (custody ids).Stable (P a)) :
    Obeys capabilityKey ids (Handlers.tryOperate c) (fun r t => ∀ a, r = .ok a → P a t) s :=
  Procedure.sound_ask h fun _ _ _ hr hlater a ha => hstable a _ _ (hr a ha) hlater

/-- Nothing is promised of the end of a handler. -/
theorem obeys_lift {α : Type} (r : Except ApiError α) :
    Obeys capabilityKey ids (.lift r) (fun _ _ => True) s :=
  Procedure.sound_lift fun _ _ _ _ _ => trivial

/-- The bytes at the key of an upload back it. -/
theorem backed_of_held {r : UploadReservationRecord}
    {metadata : StorageMetadata} (hreserved : Reserved ids s r)
    (hheld : HeldAt s r.id r.version.storageKey metadata) :
    Backed s r.id metadata.size metadata.checksum.asStr := by
  rcases hheld with hdoomed | ⟨key, hkey, hheld⟩
  · exact Or.inl hdoomed
  · rcases hreserved.placed with hdoomed | hplaced
    · exact Or.inl hdoomed
    · rcases hheld with hdoomed | hholds
      · exact Or.inl (doomed_of_key (hkey ▸ hreserved.formed) hdoomed)
      · exact Or.inr ⟨key, metadata, hkey ▸ hplaced, hholds, rfl, rfl⟩

/-! ### Receiving bytes -/

theorem existing_sound (key : StorageKey) (content : Bytes) (checksum : ObjectChecksum) :
    Obeys capabilityKey ids (Handlers.existing key content checksum)
      (fun metadata t => Held t key metadata) s := by
  refine (operate_sound (sound_head key) fun metadata => stable_held key metadata).bind
    fun metadata t _ _ hheld => ?_
  refine Procedure.sound_lift_bind fun _ _ => ?_
  exact Procedure.sound_pure fun u hu _ => Later.held hu hheld

theorem store_sound (key : StorageKey) (content : Bytes) (checksum : ObjectChecksum) :
    Obeys capabilityKey ids (Handlers.store key content checksum)
      (fun metadata t => Held t key metadata) s := by
  refine (tryOperate_sound (sound_put key content (some checksum)) fun metadata =>
    stable_held key metadata).bind fun answer t _ _ hanswer => ?_
  split
  · rename_i metadata
    exact Procedure.sound_pure fun u hu _ => Later.held hu (hanswer metadata rfl)
  · exact existing_sound key content checksum
  · exact Procedure.sound_fail

theorem receive_sound (reservation : UploadReservationRecord) (chunks : List (Option Bytes)) :
    Obeys capabilityKey ids (Handlers.receive reservation chunks) (fun metadata t =>
      HeldAt t reservation.id reservation.version.storageKey metadata) s := by
  refine Procedure.sound_lift_bind fun _ _ => Procedure.sound_lift_bind fun key hkey =>
    Procedure.sound_lift_bind fun checksum _ => ?_
  refine (store_sound key _ checksum).mono fun metadata t _ hheld => ?_
  exact Or.inr ⟨key, StorageKey.new_eq_ok.mp (mapError_eq_ok.mp hkey), hheld⟩

theorem putUploadAt_sound (capabilityHash : String) (nowMs : ℕ) (chunks : List (Option Bytes)) :
    Obeys capabilityKey ids (Handlers.putUploadAt capabilityHash nowMs chunks)
      (fun _ _ => True) s := by
  refine (transactAs_sound (c := .uploadByCapability capabilityHash nowMs) trivial).bind
    fun reservation t _ _ hreserved => ?_
  refine (receive_sound reservation chunks).bind fun metadata u hu _ hheld => ?_
  exact (transact_sound (c := .recordUploadedBytes _ _ _)
    (backed_of_held (Later.reserved hu hreserved) hheld)).forget

theorem putPartAt_sound (capabilityHash : String) (nowMs : ℕ) (chunks : List (Option Bytes)) :
    Obeys capabilityKey ids (Handlers.putPartAt capabilityHash nowMs chunks)
      (fun _ _ => True) s := by
  refine (transactAs_sound (c := .uploadPartByCapability capabilityHash nowMs) trivial).bind
    fun known t _ _ _ => ?_
  have hreceive : Obeys capabilityKey ids (Handlers.receivePart known.1 known.2 chunks)
      (fun _ _ => True) t := by
    refine Procedure.sound_lift_bind fun _ _ => Procedure.sound_lift_bind fun upload _ => ?_
    exact operate_sound (sound_putPart upload _ _) stable_true
  refine hreceive.bind fun metadata u _ _ _ => ?_
  exact (transact_sound (c := .recordUploadedPart _ _ _ _ _) trivial).forget

/-! ### Multipart uploads -/

theorem storageKey_sound (version : ObjectVersionRecord) :
    Obeys capabilityKey ids (Handlers.storageKey version)
      (fun key _ => key.asStr = version.storageKey) s :=
  Procedure.sound_lift fun _ hkey _ _ _ => StorageKey.new_eq_ok.mp (mapError_eq_ok.mp hkey)

theorem cleanupCreated_sound (upload : String) :
    Obeys capabilityKey ids (Handlers.cleanupCreated upload) (fun _ _ => True) s := by
  refine (tryOperate_sound (sound_abortMultipart upload) stable_true).bind fun answer t _ _ _ => ?_
  exact obeys_lift _

theorem attachCreated_sound {reservation : UploadReservationRecord} {created : String}
    (hreserved : Reserved ids s reservation)
    (hcreated : Provides ids s created reservation.version.storageKey) :
    Obeys capabilityKey ids (Handlers.attachCreated reservation created) (fun _ _ => True) s := by
  have hpermitted : Permitted ids s (.attachMultipart reservation.id created) := by
    rcases hreserved.placed with hdoomed | hplaced
    · exact Or.inl hdoomed
    · exact Or.inr ⟨_, hplaced, hcreated⟩
  refine (tryTransact_sound hpermitted).bind fun answer t _ _ _ => ?_
  split
  · exact Procedure.sound_pure fun _ _ _ => trivial
  · refine (cleanupCreated_sound created).bind fun _ u _ _ _ => ?_
    split
    · refine (transact_sound (c := .uploadById reservation.id) trivial).bind fun _ _ _ _ _ => ?_
      exact obeys_lift _
    · exact Procedure.sound_fail

theorem ensureProvider_sound (hids : Function.Injective ids) {reservation : UploadReservationRecord}
    (hreserved : Reserved ids s reservation) :
    Obeys capabilityKey ids (Handlers.ensureProvider reservation) (fun _ _ => True) s := by
  unfold Handlers.ensureProvider
  split
  · exact Procedure.sound_pure fun _ _ _ => trivial
  · refine (storageKey_sound reservation.version).bind fun key t ht _ hkey => ?_
    refine Procedure.sound_lift_bind fun checksum _ => ?_
    have hbegin : Obeys capabilityKey ids (Handlers.beginMultipart key)
        (fun created u => Provides ids u created key.asStr) t :=
      Procedure.sound_attempt (sound_beginMultipart hids key) fun _ _ _ h hlater =>
        Later.provides hlater h
    refine hbegin.bind fun created u hu _ hcreated => ?_
    exact attachCreated_sound (Later.reserved hu (Later.reserved ht hreserved)) (hkey ▸ hcreated)

theorem existingMetadata_sound (upload : UploadReservationRecord) :
    Obeys capabilityKey ids (Handlers.existingMetadata upload) (fun metadata t =>
      HeldAt t upload.id upload.version.storageKey metadata) s := by
  refine (storageKey_sound upload.version).bind fun key t _ _ hkey => ?_
  refine (operate_sound (sound_head key) fun metadata => stable_held key metadata).mono
    fun metadata u _ hheld => ?_
  exact Or.inr ⟨key, hkey, hheld⟩

theorem completeStored_sound {upload : UploadReservationRecord} {provider : String}
    (hreserved : Reserved ids s upload) (hprovider : upload.providerUploadId = some provider)
    (parts : List MultipartPart) :
    Obeys capabilityKey ids (Handlers.completeStored upload provider parts) (fun metadata t =>
      HeldAt t upload.id upload.version.storageKey metadata) s := by
  refine (tryOperate_sound (sound_completeMultipart parts (hreserved.provided provider hprovider))
    fun metadata => stable_heldAt _ _ metadata).bind fun answer t _ _ hanswer => ?_
  split
  · rename_i metadata
    exact Procedure.sound_pure fun u hu _ => stable_heldAt _ _ _ _ _ (hanswer metadata rfl) hu
  · exact existingMetadata_sound upload
  · exact Procedure.sound_fail

theorem complete_sound {upload : UploadReservationRecord} (hreserved : Reserved ids s upload)
    (submitted : List Handlers.CompletedPart) :
    Obeys capabilityKey ids (Handlers.complete upload submitted) (fun _ _ => True) s := by
  unfold Handlers.complete
  split
  · exact obeys_lift _
  · refine (transact_sound (c := .listUploadParts upload.id) trivial).bind fun stored t ht _ _ => ?_
    refine Procedure.sound_lift_bind fun parts _ => Procedure.sound_lift_bind fun provider hprovider
      => ?_
    have hreserved' := Later.reserved ht hreserved
    refine (completeStored_sound hreserved' (ofOption_eq_ok.mp hprovider) parts).bind
      fun metadata u hu _ hheld => ?_
    refine Procedure.sound_lift_bind fun _ _ => ?_
    exact (transact_sound (c := .recordUploadedBytes _ _ _)
      (backed_of_held (Later.reserved hu hreserved') hheld)).forget

/-- The bytes of an upload may go once its abort was requested. -/
theorem abortStorage_sound {upload : UploadReservationRecord} (hreserved : Reserved ids s upload)
    (haborts : upload.id ∈ s.aborts) :
    Obeys capabilityKey ids (Handlers.abortStorage upload) (fun _ _ => True) s := by
  have hprovider : Obeys capabilityKey ids (Handlers.abortProvider upload) (fun _ _ => True) s := by
    unfold Handlers.abortProvider
    split
    · exact cleanupCreated_sound _
    · exact Procedure.sound_pure fun _ _ _ => trivial
  refine hprovider.bind fun _ t ht _ _ => ?_
  refine (storageKey_sound upload.version).bind fun key u hu _ hkey => ?_
  have hdoomed : DoomedKey u key :=
    ⟨upload.id, hkey ▸ hreserved.formed, Or.inl (hu.aborts _ (ht.aborts _ haborts))⟩
  refine (tryOperate_sound (sound_delete hdoomed) stable_true).bind fun answer v _ _ _ => ?_
  exact obeys_lift _

/-! ### Uploads -/

theorem replay_sound (value : NewUploadReservation) (nowMs expiresAtMs : ℕ) :
    Obeys capabilityKey ids (Handlers.replay value nowMs expiresAtMs)
      (fun r t => Reserved ids t r) s := by
  refine (transact_sound (c := .uploadById value.id) trivial).bind fun record t _ _ hrecord => ?_
  refine Procedure.sound_lift_bind fun _ _ => ?_
  split
  · refine (transact_sound (c := .renewUpload record.id expiresAtMs) trivial).bind
      fun _ u _ _ _ => ?_
    exact (transact_sound (c := .uploadById record.id) trivial).mono fun r v _ hr => hr.1
  · exact Procedure.sound_pure fun u hu _ => Later.reserved hu hrecord.1

theorem reserveOrReplay_sound {value : NewUploadReservation}
    (hkey : KeyOf value.id value.storageKey) (nowMs expiresAtMs : ℕ) :
    Obeys capabilityKey ids (Handlers.reserveOrReplay value nowMs expiresAtMs)
      (fun r t => Reserved ids t r) s := by
  refine (tryTransact_sound (c := .reserveUpload value) hkey).bind fun answer t _ _ hanswer => ?_
  split
  · rename_i record
    exact Procedure.sound_pure fun u hu _ => Later.reserved hu (hanswer record rfl)
  · exact replay_sound value nowMs expiresAtMs
  · exact Procedure.sound_fail

/-- The storage key that a request reserves ends with its identifier. -/
theorem keyOf_stableUploadId (projectId principalId idempotency : String) :
    KeyOf (Server.stableUploadId principalId idempotency)
      ("versions/" ++ projectId ++ "/" ++ Server.stableUploadId principalId idempotency) := by
  refine ⟨?_, ("versions/" ++ projectId).toList, ?_⟩
  -- the identifier is a name followed by hexadecimal digits
  · show '/' ∉ ("upload_" ++ (sha256 (Server.uploadIdentity principalId idempotency)).asStr).toList
    rw [String.toList_append, List.mem_append]
    rintro (hname | hdigit)
    · revert hname
      decide
    · have hhex := (sha256 (Server.uploadIdentity principalId idempotency)).valid.2 '/' hdigit
      revert hhex
      decide
  · rw [String.toList_append, String.toList_append, List.append_assoc]
    rfl

theorem recordUploadAction_sound (principal : LocalApiTokenRecord) (action uploadId : String)
    (draw : Server.RequestDraw) :
    Obeys capabilityKey ids (Handlers.recordUploadAction principal action uploadId draw)
      (fun _ _ => True) s :=
  (transact_sound (c := .recordAudit _) trivial).forget

theorem issueUploadAt_sound (hids : Function.Injective ids) (principal : LocalApiTokenRecord)
    (call : UploadCall) (project : ProjectRecord) (source : ObjectSource)
    (draw : Server.RequestDraw) :
    Obeys capabilityKey ids
      (Handlers.issueUploadAt capabilityKey principal call project source draw)
      (fun _ _ => True) s := by
  refine Procedure.sound_lift_bind fun _ _ => Procedure.sound_lift_bind fun _ _ => ?_
  refine Procedure.Sound.bind (reserveOrReplay_sound ?_ _ _) fun reservation t _ _ hreserved => ?_
  · exact keyOf_stableUploadId project.id _ call.idempotency
  refine (ensureProvider_sound hids hreserved).bind fun _ u _ _ _ => ?_
  exact recordUploadAction_sound _ _ _ _

theorem authorizeUpload_sound (principal : LocalApiTokenRecord) (uploadId : String) :
    Obeys capabilityKey ids (Handlers.authorizeUpload principal uploadId) (fun _ _ => True) s := by
  refine (transact_sound (c := .uploadById uploadId) trivial).bind fun _ t _ _ _ => ?_
  refine (transact_sound (c := .listProjects principal.workspaceId) trivial).bind
    fun _ u _ _ _ => ?_
  refine Procedure.sound_lift_bind fun _ _ => Procedure.sound_lift_bind fun _ _ => ?_
  exact Procedure.sound_pure fun _ _ _ => trivial

theorem workspaceById_sound (id : String) :
    Obeys capabilityKey ids (Handlers.workspaceById id) (fun _ _ => True) s := by
  refine (transact_sound (c := .listWorkspaces) trivial).bind fun _ t _ _ _ => ?_
  exact obeys_lift _

theorem completeOperatorUpload_sound (principal : LocalApiTokenRecord) (uploadId : String)
    (parts : List Handlers.CompletedPart) (draw : Server.RequestDraw) :
    Obeys capabilityKey ids (Handlers.completeOperatorUpload principal uploadId parts draw)
      (fun _ _ => True) s := by
  refine (authorizeUpload_sound principal uploadId).bind fun _ t _ _ _ => ?_
  refine (transact_sound (c := .uploadById uploadId) trivial).bind
    fun reservation u _ _ hreserved => ?_
  refine (complete_sound hreserved.1 parts).bind fun _ v _ _ _ => ?_
  refine (workspaceById_sound principal.workspaceId).bind fun _ w _ _ _ => ?_
  refine (transact_sound (c := .completeUpload uploadId) trivial).bind fun _ x _ _ _ => ?_
  exact recordUploadAction_sound _ _ _ _

theorem abortOperatorUpload_sound (principal : LocalApiTokenRecord) {uploadId : String}
    (haborts : uploadId ∈ s.aborts) (draw : Server.RequestDraw) :
    Obeys capabilityKey ids (Handlers.abortOperatorUpload principal uploadId draw)
      (fun _ _ => True) s := by
  refine (authorizeUpload_sound principal uploadId).bind fun _ t ht _ _ => ?_
  have haborts' := ht.aborts _ haborts
  refine (transact_sound (c := .uploadById uploadId) trivial).bind
    fun reservation u hu _ hreserved => ?_
  obtain ⟨hreserved, hid⟩ := hreserved
  have haborts'' := hu.aborts _ haborts'
  refine (abortStorage_sound hreserved (hid.symm ▸ haborts'')).bind fun _ v hv _ _ => ?_
  refine (transact_sound (c := .abortUpload uploadId) (hv.aborts _ haborts'')).bind
    fun _ w _ _ _ => ?_
  exact recordUploadAction_sound _ _ _ _

/-! ### Uploads of guests -/

theorem guestUpload_sound (guest : InboxGuest) (uploadId : String) (nowMs : ℕ) :
    Obeys capabilityKey ids (Handlers.guestUpload guest uploadId nowMs)
      (fun r t => Reserved ids t r ∧ r.id = uploadId) s :=
  transactAs_sound (c := .inboxUploadById _ uploadId nowMs) trivial

theorem guestReplay_sound (guest : InboxGuest) (value : NewUploadReservation)
    (nowMs expiresAtMs : ℕ) :
    Obeys capabilityKey ids (Handlers.guestReplay guest value nowMs expiresAtMs)
      (fun r t => Reserved ids t r) s := by
  refine (guestUpload_sound guest value.id nowMs).bind fun record t _ _ hrecord => ?_
  refine Procedure.sound_lift_bind fun _ _ => ?_
  split
  · refine (transact_sound (c := .renewUpload record.id expiresAtMs) trivial).bind
      fun _ u _ _ _ => ?_
    exact (guestUpload_sound guest record.id nowMs).mono fun r v _ hr => hr.1
  · exact Procedure.sound_pure fun u hu _ => Later.reserved hu hrecord.1

theorem guestReserveOrReplay_sound (guest : InboxGuest) {value : NewUploadReservation}
    (hkey : KeyOf value.id value.storageKey) (nowMs expiresAtMs : ℕ) :
    Obeys capabilityKey ids (Handlers.guestReserveOrReplay guest value nowMs expiresAtMs)
      (fun r t => Reserved ids t r) s := by
  refine (tryTransact_sound (c := .reserveInboxUpload _ value) hkey).bind
    fun answer t _ _ hanswer => ?_
  split
  · rename_i record
    exact Procedure.sound_pure fun u hu _ => Later.reserved hu (hanswer record rfl)
  · exact guestReplay_sound guest value nowMs expiresAtMs
  · exact Procedure.sound_fail

theorem issueAt_sound (hids : Function.Injective ids) (guest : InboxGuest) (call : UploadCall)
    (project : ProjectRecord) :
    Obeys capabilityKey ids (Handlers.issueAt capabilityKey guest call project)
      (fun _ _ => True) s := by
  refine Procedure.sound_lift_bind fun _ _ => Procedure.sound_lift_bind fun _ _ => ?_
  refine Procedure.Sound.bind (guestReserveOrReplay_sound guest ?_ _ _)
    fun reservation t _ _ hreserved => ?_
  · exact keyOf_stableUploadId project.id _ call.idempotency
  refine (ensureProvider_sound hids hreserved).bind fun _ u _ _ _ => ?_
  exact Procedure.sound_pure fun _ _ _ => trivial

theorem completeAt_sound (guest : InboxGuest) (uploadId : String)
    (parts : List Handlers.CompletedPart) (draw : Server.RequestDraw) :
    Obeys capabilityKey ids (Handlers.completeAt guest uploadId parts draw)
      (fun _ _ => True) s := by
  refine (guestUpload_sound guest uploadId draw.nowMs).bind fun reservation t _ _ hreserved => ?_
  refine (workspaceById_sound guest.inbox.workspaceId).bind fun _ u hu _ _ => ?_
  have hproject : Obeys capabilityKey ids (Handlers.inboxProject guest.inbox)
      (fun _ _ => True) u := by
    refine (transact_sound (c := .listProjects guest.inbox.workspaceId) trivial).bind
      fun _ _ _ _ _ => ?_
    exact obeys_lift _
  refine hproject.bind fun _ v hv _ _ => ?_
  refine (complete_sound (Later.reserved hv (Later.reserved hu hreserved.1)) parts).bind
    fun _ w _ _ _ => ?_
  refine (transactAs_sound (c := .completeInboxUpload _ uploadId _ _) trivial).bind
    fun _ x _ _ _ => ?_
  exact Procedure.sound_pure fun _ _ _ => trivial

theorem abortAt_sound (guest : InboxGuest) {uploadId : String} (haborts : uploadId ∈ s.aborts)
    (nowMs : ℕ) :
    Obeys capabilityKey ids (Handlers.abortAt guest uploadId nowMs) (fun _ _ => True) s := by
  refine (guestUpload_sound guest uploadId nowMs).bind fun reservation t ht _ hreserved => ?_
  obtain ⟨hreserved, hid⟩ := hreserved
  have haborts' := ht.aborts _ haborts
  refine (abortStorage_sound hreserved (hid.symm ▸ haborts')).bind fun _ u hu _ _ => ?_
  refine (transactAs_sound (c := .abortInboxUpload _ uploadId nowMs) (hu.aborts _ haborts')).bind
    fun _ v _ _ _ => ?_
  exact Procedure.sound_pure fun _ _ _ => trivial

/-! ### Persisted plans -/

omit [Digest] in
theorem doomedKey_of_due {item : DeletionItem} (hdue : Due s item) {key : StorageKey}
    (hkey : (StorageKey.new item.storageKey).mapError (fun _ => ApiError.internal) = .ok key) :
    DoomedKey s key :=
  ⟨item.versionId, StorageKey.new_eq_ok.mp (mapError_eq_ok.mp hkey) ▸ hdue.1, hdue.2⟩

theorem deleteItems_sound {items : List DeletionItem} (hdue : ∀ item ∈ items, Due s item) :
    Obeys capabilityKey ids (Handlers.deleteItems items) (fun _ _ => True) s := by
  induction items generalizing s with
  | nil => exact Procedure.sound_pure fun _ _ _ => trivial
  | cons item items ih =>
    obtain ⟨hitem, hitems⟩ := List.forall_mem_cons.mp hdue
    refine Procedure.sound_lift_bind fun key hkey => ?_
    refine (tryOperate_sound (sound_delete (doomedKey_of_due hitem hkey)) stable_true).bind
      fun answer t ht _ _ => ?_
    refine Procedure.sound_lift_bind fun _ _ => ?_
    exact ih fun i hi => Later.due ht (hitems i hi)

theorem executeDeletion_sound {plan : DeletionPlan} (hdue : ∀ item ∈ plan.items, Due s item)
    (completedAtMs : ℕ) (event : NewAuditEvent) :
    Obeys capabilityKey ids (Handlers.executeDeletion plan completedAtMs event)
      (fun _ _ => True) s := by
  unfold Handlers.executeDeletion
  split
  · exact Procedure.sound_pure fun _ _ _ => trivial
  · refine (deleteItems_sound hdue).bind fun _ t _ _ _ => ?_
    exact (transact_sound (c := .finishDeletion _ _ _) trivial).forget

theorem deleteObjectAt_sound (principal : LocalApiTokenRecord)
    (request : Server.DeleteObjectRequest) (draw : Server.RequestDraw) :
    Obeys capabilityKey ids (Handlers.deleteObjectAt principal request draw)
      (fun _ _ => True) s := by
  refine (transact_sound (c := .projectBySlugs _ _ _) trivial).bind fun project t _ _ _ => ?_
  refine Procedure.sound_lift_bind fun _ _ => ?_
  refine (transact_sound (c := .beginObjectDeletion _) trivial).bind fun plan u _ _ hdue => ?_
  exact executeDeletion_sound hdue _ _

theorem deleteCounted_sound {plan : DeletionPlan} (workspaceId : String)
    (draw : Server.EnforcementDraw) {items : List DeletionItem}
    (hdue : ∀ item ∈ items, Due s item) (deletedCount : ℕ) :
    Obeys capabilityKey ids (Handlers.deleteCounted plan workspaceId draw deletedCount items)
      (fun _ _ => True) s := by
  induction items generalizing s deletedCount with
  | nil =>
    refine Procedure.sound_lift_bind fun completedAtMs _ => ?_
    exact (transact_sound (c := .finishDeletion _ _ _) trivial).forget
  | cons item items ih =>
    obtain ⟨hitem, hitems⟩ := List.forall_mem_cons.mp hdue
    refine Procedure.sound_lift_bind fun key hkey => ?_
    refine (tryOperate_sound (sound_delete (doomedKey_of_due hitem hkey)) stable_true).bind
      fun answer t ht _ _ => ?_
    have hrest := fun i hi => Later.due ht (hitems i hi)
    split
    · exact ih hrest _
    · exact ih hrest _
    -- the provider fails, and the run is marked as failed before the error is reported
    · refine (transact_sound (c := .failRetention _ _) trivial).bind fun _ _ _ _ _ => ?_
      exact Procedure.sound_fail

theorem enforceProject_sound (workspaceId projectId : String) (draw : Server.EnforcementDraw) :
    Obeys capabilityKey ids (Handlers.enforceProject workspaceId projectId draw)
      (fun _ _ => True) s := by
  refine (transact_sound (c := .beginRetention _ _ _ _ _) trivial).bind fun plan t _ _ hdue => ?_
  split
  · exact Procedure.sound_pure fun _ _ _ => trivial
  · exact deleteCounted_sound workspaceId draw hdue 0

theorem executeCleanups_sound (eventIds : ℕ → String) (completedAtMs : ℕ)
    {cleanups : List YardCleanupPlan}
    (hdue : ∀ cleanup ∈ cleanups, ∀ item ∈ cleanup.deletion.items, Due s item) :
    Obeys capabilityKey ids (Handlers.executeCleanups eventIds completedAtMs cleanups)
      (fun _ _ => True) s := by
  induction cleanups generalizing s with
  | nil => exact Procedure.sound_pure fun _ _ _ => trivial
  | cons cleanup cleanups ih =>
    obtain ⟨hcleanup, hcleanups⟩ := List.forall_mem_cons.mp hdue
    refine (executeDeletion_sound hcleanup _ _).bind fun _ t ht _ _ => ?_
    exact ih fun c hc item hitem => Later.due ht (hcleanups c hc item hitem)

theorem executeForYard_sound (yardId : Option String) (eventIds : ℕ → String) (completedAtMs : ℕ) :
    Obeys capabilityKey ids (Handlers.executeForYard yardId eventIds completedAtMs)
      (fun _ _ => True) s := by
  refine (transact_sound (c := .pendingYardCleanups yardId) trivial).bind fun _ t _ _ hdue => ?_
  exact executeCleanups_sound eventIds completedAtMs hdue

/-! ### The law over runs -/

/-- Every handler keeps to the discipline. -/
theorem sound_handler (hids : Function.Injective ids) {request : ServerRequest}
    (haborts : ∀ id ∈ request.aborted, id ∈ s.aborts) :
    Obeys capabilityKey ids (request.handler capabilityKey) (fun _ _ => True) s := by
  cases request with
  | issueUpload principal call project source draw =>
    exact issueUploadAt_sound hids principal call project source draw
  | issueInboxUpload guest call project => exact issueAt_sound hids guest call project
  | putUpload capabilityHash nowMs chunks => exact putUploadAt_sound capabilityHash nowMs chunks
  | putPart capabilityHash nowMs chunks => exact putPartAt_sound capabilityHash nowMs chunks
  | completeUpload principal uploadId parts draw =>
    exact completeOperatorUpload_sound principal uploadId parts draw
  | completeInboxUpload guest uploadId parts draw =>
    exact completeAt_sound guest uploadId parts draw
  | abortUpload principal uploadId draw =>
    exact abortOperatorUpload_sound principal (haborts _ List.mem_cons_self) draw
  | abortInboxUpload guest uploadId nowMs =>
    exact abortAt_sound guest (haborts _ List.mem_cons_self) nowMs
  | deleteObject principal request draw => exact deleteObjectAt_sound principal request draw
  | enforceProject workspaceId projectId draw =>
    exact enforceProject_sound workspaceId projectId draw
  | planYardCleanup deployId createdAtMs =>
    exact (transact_sound (c := .planYardCleanup deployId createdAtMs) trivial).forget
  | executeForYard yardId eventIds completedAtMs =>
    exact executeForYard_sound yardId eventIds completedAtMs
  | other change => exact (transact_sound (c := .other change) trivial).forget

theorem intact_fresh : Intact ids Site.fresh where
  paired := paired_init
  named _ h := absurd h Table.not_mem_empty
  formed _ h := absurd h Table.not_mem_empty
  items _ h := absurd h Table.not_mem_empty
  aborted _ h := absurd h Table.not_mem_empty
  provided _ h := absurd h Table.not_mem_empty
  described key _ metadata hdescription := by
    have hnone : Filesystem.fresh.metadata.fileAt key.metadataPath = none := by
      cases key.metadataPath <;> rfl
    rw [show Site.fresh.files = Filesystem.fresh from rfl, hnone] at hdescription
    cases hdescription
  received _ h := absurd h Table.not_mem_empty

/-- The bytes of the version are read back, as large as it says and with its checksum. -/
def Readable (s : Site) (v : ObjectVersionRecord) : Prop :=
  ∃ key metadata content, StorageKey.asStr key = v.storageKey ∧
    (get key).exec Filesystem.machine s.files = (.ok (metadata, content), s.files) ∧
      v.size = some content.length ∧ v.checksum = some (sha256 content).asStr

theorem readable_of_intact (h : Intact ids s) {v : ObjectVersionRecord}
    (hv : v ∈ s.repository.objectVersions) (hcomplete : v.state = .complete) :
    Doomed s v.id ∨ Readable s v := by
  -- the version has its reservation, which agrees with it and is complete, too
  obtain ⟨r, hr, hid⟩ := h.paired.versions v hv
  obtain ⟨w, hw, hwid, hagrees⟩ := h.paired.reservations r hr
  obtain rfl := Table.eq_of_key hw hv (hwid.trans hid)
  have hstate : r.state = .complete := by
    have hversion := hagrees.state
    rw [hcomplete] at hversion
    cases hr : r.state <;> rw [hr] at hversion <;> first | rfl | cases hversion
  obtain ⟨hsize, hchecksum⟩ := hagrees.complete hcomplete
  rcases h.received r hr w hw hwid (Or.inr hstate) with
    hdoomed | ⟨key, metadata, hkey, ⟨hdescription, content, hcontent, hhash⟩, hmsize, hmchecksum⟩
  · exact Or.inl ((h.named r hr).symm.trans hid ▸ hdoomed)
  · obtain ⟨-, rfl⟩ := hashed_eq_ok.mp hhash
    exact Or.inr ⟨key, _, content, hkey, get_eq_ok.mpr ⟨hdescription, hcontent, rfl, rfl⟩,
      hsize.trans (congrArg some hmsize.symm), hchecksum.trans (congrArg some hmchecksum.symm)⟩

/-- Where the provider never draws an identifier twice: in every state of every run, a complete
version that no plan names and whose abort no request asked for can be read back. -/
theorem custody_law (hids : Function.Injective ids) {w : Pool ServerCommand ServerCommand.Response
    Site} (h : Run ((server capabilityKey ids).system Site.fresh) (fun _ _ => True) w) :
    ∀ v ∈ w.state.repository.objectVersions, v.state = .complete →
      v.id ∈ w.state.aborts ∨
        (∃ row ∈ w.state.repository.deletionItems, row.item.versionId = v.id) ∨
          Readable w.state v := by
  have hintact : Intact ids w.state := by
    refine Service.keeps (d := custody ids) intact_fresh (fun u request _ hinv => ?_) h
    -- what a request asks to abort is recorded before its handler takes a step
    refine ⟨move_aborts hinv request.aborted, ?_⟩
    have hhandler : Obeys capabilityKey ids (request.handler capabilityKey) (fun _ _ => True)
        { u.state with aborts := request.aborted ++ u.state.aborts } :=
      sound_handler hids fun id hid => List.mem_append_left _ hid
    exact hhandler.program.bind fun _ _ _ _ _ => Program.sound_done fun _ _ _ => trivial
  intro v hv hcomplete
  rcases readable_of_intact hintact hv hcomplete with (haborts | hplanned) | hreadable
  · exact Or.inl haborts
  · exact Or.inr (Or.inl hplanned)
  · exact Or.inr (Or.inr hreadable)

end Digests

/-! ### An upload from its reservation to its end -/

/-- The identifiers that a provider may draw. -/
def drawnIds (k : ℕ) : String := String.ofList (List.replicate (k + 1) 'u')

theorem drawnIds_injective : Function.Injective drawnIds := by
  intro a b h
  have hlength := congrArg (fun text => text.toList.length) h
  simp only [drawnIds, String.toList_ofList, List.length_replicate] at hlength
  omega

/-- SHA-256 of what the run below digests: the identity and the capability of an upload, the hash
of the capability, and five bytes. -/
def uploadDigests : List (Bytes × String) :=
  [(Server.utf8 "token-1\x00key-1",
    "0045cb7a555953e1c37777edffc5b68450afdb735c5228ed4c8a4560a5008ffb"),
   (Server.utf8 "secret\x00token-1\x00key-1",
    "6afbd38517dfce6fed9cff8d87dd8a1760632b1a1c5470630ca718888e8ccb78"),
   (Server.utf8 "byu_6afbd38517dfce6fed9cff8d87dd8a1760632b1a1c5470630ca718888e8ccb78",
    "021609f44db3636612dc360654d666c337417344ae7a682938751c6c11360c5c"),
   (Server.utf8 "peas!", "5516383e9ecf19d64ede1eb79099534a163ca52b4ee6f9f2022487fe162209bd")]

theorem validChecksum_zeros : ValidChecksum (repeatedDigit '0') := by decide

@[reducible] def uploadDigest : Digest where
  sha256 bytes :=
    (uploadDigests.lookup bytes).elim ⟨repeatedDigit '0', validChecksum_zeros⟩ fun value =>
      if h : ValidChecksum value then ⟨value, h⟩ else ⟨repeatedDigit '0', validChecksum_zeros⟩

section Upload

attribute [local instance] uploadDigest

def uploader : LocalApiTokenRecord where
  id := "token-1"
  name := "Token"
  tokenPrefix := "byd_pat"
  secretHash := repeatedDigit 'b'
  scopes := ["object:write"]
  workspaceId := "w"
  projectId := none
  createdAtMs := 0
  expiresAtMs := 1000
  lastUsedAtMs := none
  revokedAtMs := none

theorem validSlug_seeds : ValidSlug "seeds" := by decide

theorem validSlug_garden : ValidSlug "garden" := by decide

def uploadProject : ProjectRecord where
  id := "p"
  workspaceId := "w"
  name := "Seeds"
  slug := ⟨"seeds", validSlug_seeds⟩

/-- A workspace with a project. -/
def uploadTables : Repository :=
  ((do
    let s ← Repository.empty.createWorkspace
      { id := "w", name := "Garden", slug := ⟨"garden", validSlug_garden⟩ }
    s.createProject uploadProject).toOption).getD Repository.empty

def uploadDraw (nowMs : ℕ) (eventId : String) : Server.RequestDraw where
  operationId := "operation"
  eventId := eventId
  requestId := "request"
  nowMs := nowMs

def uploadCall : UploadCall where
  request :=
    { workspace := ⟨"garden", validSlug_garden⟩, project := ⟨"seeds", validSlug_seeds⟩
      path := "peas.txt", filename := "peas.txt", sizeBytes := 5
      checksumSha256 := (sha256 (Server.utf8 "peas!")).asStr, contentType := "text/plain"
      gitRepository := none, gitCommit := none, gitBranch := none }
  idempotency := "key-1"
  nowMs := 10

def uploadCapability : String :=
  Server.hash (Server.stableCapability "secret" "token-1" "key-1")

/-- An upload whose bytes are sent twice, since a system call fails at first; its completion begins
in between, and ends after the second attempt. -/
def uploadTurns : List (Turn ServerRequest (List Bool)) :=
  [.arrive (.other uploadTables), .perform 0 [],
   .arrive (.issueUpload uploader uploadCall uploadProject .cli (uploadDraw 10 "e1")),
   .perform 1 [], .perform 1 [],
   .arrive (.putUpload uploadCapability 20 [some (Server.utf8 "pe"), some (Server.utf8 "as!")]),
   .perform 2 [], .perform 2 [false, true],
   .arrive (.completeUpload uploader (Server.stableUploadId "token-1" "key-1") []
     (uploadDraw 40 "e2")),
   .perform 3 [], .perform 3 [],
   .arrive (.putUpload uploadCapability 30 [some (Server.utf8 "peas!")]),
   .perform 4 [], .perform 3 [], .perform 4 [], .perform 3 [], .perform 4 [],
   .perform 3 [], .perform 3 []]

def uploadWorld : Pool ServerCommand ServerCommand.Response Site :=
  uploadTurns.foldl (server "secret" drawnIds).exec ((server "secret" drawnIds).system .fresh).init

/-- The version is complete, and its bytes are there. -/
theorem custody_upload :
    (∃ v ∈ uploadWorld.state.repository.objectVersions.rows, v.state = .complete) ∧
      ∀ v ∈ uploadWorld.state.repository.objectVersions, v.state = .complete →
        v.id ∈ uploadWorld.state.aborts ∨
          (∃ row ∈ uploadWorld.state.repository.deletionItems, row.item.versionId = v.id) ∨
            Readable uploadWorld.state v :=
  ⟨by decide +kernel, custody_law drawnIds_injective (Run.ofList_true (fun _ _ => rfl) Run.init _)⟩

end Upload

end Custody

end BlobYard
