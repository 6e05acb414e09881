/-
What a restore leaves behind.

Any call of a restore may fail and the program may stop between any two.  The object storage keeps
the contract `Namespace.allows`; in particular a `put` that fails has stored nothing, which the
cleanup relies on, since it deletes the objects whose `put` succeeded and no others.  At every
moment the destination is as it was before or it is a complete installation: its control files
are those the manifest describes, and the storage holds exactly the objects of the manifest, each
with the size and the checksum recorded for it.

* `Verified`, `Restored` — a backup that passed its checks, and what is made of it;
* `importObject_meets`, `restoreObjects_meets`, `cleanup_meets` — the parts;
* `apply_meets` — a restore; `restore_law` — the law.
-/
import BlobYard.Laws.StagedFiles
import BlobYard.Lib.Faults

namespace BlobYard

open Outcome FileTree Recovery

variable {σ : Type} {k : Contract ObjectCommand ObjectCommand.Response σ}

namespace Recovery

theorem verifyHash_reads [Digest] {s : Workbench σ} (path : StoragePath) (expected : String) :
    (Restore.verifyHash path expected).Meets (Workbench.allows k) (fun t => t = s)
      (fun _ _ => ∃ content, s.file path = some content ∧ (sha256 content).asStr = expected)
      (fun _ _ => True) s := by
  refine (openSecureFile_reads path).bind fun content t ht hcontent => ?_
  subst ht
  refine (hashReader_reads content).bind fun hash t ht hhash => ?_
  subst ht
  refine Procedure.meets_lift rfl (fun _ hsame => ⟨content, hcontent, ?_⟩) fun _ _ => trivial
  rw [← ensure_eq_ok.mp hsame, hhash.2]

end Recovery

/-! ### Backups that pass their checks -/

section Checks

variable [Digest] [MetadataDatabase] [ManifestEncoder]

/-- What is checked before anything is written. -/
structure Verified (s : Workbench σ) (manifest : BackupManifest) : Prop where
  decoded : ∃ bytes, s.file manifestPath = some bytes ∧ BackupManifest.decode bytes = .ok manifest
  oldest : oldestSupportedSchemaVersion ≤ manifest.metadataSchemaVersion
  newest : manifest.metadataSchemaVersion ≤ currentSchemaVersion
  metadata : ∃ file, s.file metadataPath = some file ∧
    (sha256 file).asStr = manifest.metadataSha256 ∧
      inspectDatabase file = .ok manifest.metadataSchemaVersion
  secret : ∃ file, s.file secretPath = some file ∧
    (sha256 file).asStr = manifest.runtimeSecretSha256 ∧
      validSecret .invalidBackup file = .ok ()

variable {s : Workbench σ}

omit [Digest] [MetadataDatabase] in
theorem readManifest_reads :
    Restore.readManifest.Meets (Workbench.allows k) (fun t => t = s)
      (fun manifest _ => ∃ bytes, s.file manifestPath = some bytes ∧
        BackupManifest.decode bytes = .ok manifest) (fun _ _ => True) s := by
  refine (readSecureFile_reads manifestPath).bind fun bytes t ht hbytes => ?_
  exact Procedure.meets_lift ht (fun manifest h => ⟨bytes, hbytes, h⟩) fun _ _ => trivial

theorem validateBackup_reads :
    Restore.validateBackup.Meets (Workbench.allows k) (fun t => t = s)
      (fun manifest _ => Verified s manifest) (fun _ _ => True) s := by
  -- every step reads and leaves the state as it is, so the facts are about one state
  refine readManifest_reads.bind fun manifest t ht hmanifest => ?_
  subst ht
  refine Procedure.meets_lift_bind rfl (fun _ holdest => ?_) fun _ _ => trivial
  refine Procedure.meets_lift_bind rfl (fun _ hnewest => ?_) fun _ _ => trivial
  refine (verifyHash_reads metadataPath _).bind fun _ t ht hmetadata => ?_
  subst ht
  refine (verifyHash_reads secretPath _).bind fun _ t ht hsecret => ?_
  subst ht
  refine (openSecureFile_reads metadataPath).bind fun _ t ht _ => ?_
  subst ht
  refine (directory_reads rfl).bind fun file t ht hfile => ?_
  subst ht
  refine Procedure.meets_lift_bind rfl (fun version hversion => ?_) fun _ _ => trivial
  refine Procedure.meets_lift_bind rfl (fun _ hsame => ?_) fun _ _ => trivial
  refine (readSecureFile_reads secretPath).bind fun runtime t ht hruntime => ?_
  subst ht
  refine Procedure.meets_lift_bind rfl (fun _ hvalid => ?_) fun _ _ => trivial
  refine Procedure.meets_pure rfl
    ⟨hmanifest, ensure_eq_ok.mp holdest, ensure_eq_ok.mp hnewest, ?_, ?_⟩
  -- the file that is hashed is the one that is inspected
  · obtain ⟨content, hcontent, hhash⟩ := hmetadata
    obtain rfl : content = file := Option.some.inj (hcontent.symm.trans (ofOption_eq_ok.mp hfile))
    exact ⟨content, hcontent, hhash, ensure_eq_ok.mp hsame ▸ mapError_eq_ok.mp hversion⟩
  -- and the runtime secret that is hashed is the one that is checked
  · obtain ⟨content, hcontent, hhash⟩ := hsecret
    obtain rfl : content = runtime := Option.some.inj (hcontent.symm.trans hruntime)
    exact ⟨content, hcontent, hhash, hvalid⟩

end Checks

variable {h t : Workbench σ}

section Files

variable [Digest]

/-- A control file of the installation is the one of the backup, and not empty. -/
def Copied (h : Workbench σ) (d : Directory) (path : StoragePath) (checksum : String) : Prop :=
  ∃ file, h.file path = some file ∧ d.fileAt path = some (.regular file) ∧ file ≠ [] ∧
    (sha256 file).asStr = checksum

theorem copyControlFile_untouched (ht : Untouched h t) (hprepared : h.Prepared) (path : StoragePath)
    (checksum : String) :
    (Restore.copyControlFile path checksum).Meets (Workbench.allows k) (Untouched h)
      (fun _ u => ∃ file, h.file path = some file ∧ file ≠ [] ∧ (sha256 file).asStr = checksum ∧
        Filed t u path file) (fun _ _ => True) t := by
  refine (meets_reading (openSecureFile_reads path) ht fun _ => trivial).bind
    fun file u hu hfile => ?_
  obtain ⟨hfile, rfl⟩ := hfile
  refine (copyVerified_untouched hu hprepared file path).bind fun copied v hv hcopied => ?_
  obtain ⟨⟨-, rfl⟩, hfiled⟩ := hcopied
  refine Procedure.meets_lift hv (fun _ hsame => ?_) fun _ _ => trivial
  obtain ⟨hsize, hsum⟩ := ensure_eq_ok.mp hsame
  refine ⟨file, ?_, fun hnil => hsize (by rw [hnil]; rfl), hsum, hfiled.filed⟩
  rw [← hfile]
  unfold Workbench.file
  rw [hu.source]

/-- The stage has the control files of the backup. -/
structure Controls (h : Workbench σ) (manifest : BackupManifest) (d : Directory) : Prop where
  metadata : Copied h d metadataPath manifest.metadataSha256
  secret : Copied h d secretPath manifest.runtimeSecretSha256

theorem copyControlFiles_untouched (ht : Untouched h t) (hprepared : h.Prepared)
    (manifest : BackupManifest) :
    (Restore.copyControlFiles manifest).Meets (Workbench.allows k) (Untouched h)
      (fun _ u => ∃ d, u.stage = some d ∧ Controls h manifest d) (fun _ _ => True) t := by
  refine (copyControlFile_untouched ht hprepared metadataPath _).bind fun _ u hu hmetadata => ?_
  refine (copyControlFile_untouched hu hprepared secretPath _).mono (fun _ v hv hsecret => ?_)
    fun _ _ _ _ => trivial
  obtain ⟨metadata, hmetadata, hnonempty, hhash, d₀, d₁, -, hd₁, hfiles₁⟩ := hmetadata
  obtain ⟨secret, hsecret, hnonempty', hhash', d₂, d, hd₂, hd, hfiles⟩ := hsecret
  obtain rfl : d₁ = d₂ := Option.some.inj (hd₁.symm.trans hd₂)
  -- the second file stands beside the first
  have hne : metadataPath ≠ secretPath := by decide
  refine ⟨d, hd, ⟨metadata, hmetadata, ?_, hnonempty, hhash⟩, ⟨secret, hsecret, ?_, hnonempty',
    hhash'⟩⟩
  · rw [hfiles, if_neg hne, hfiles₁, if_pos rfl]
  · rw [hfiles, if_pos rfl]

end Files

/-! ### Objects that are imported -/

section Import

variable {k : Contract ObjectCommand ObjectCommand.Response Namespace}
  {h t : Workbench Namespace}

/-- The calls keep the contract of the object storage; where `spares` holds, the deletion of a
stored object succeeds. -/
structure Promises [Digest] (k : Contract ObjectCommand ObjectCommand.Response Namespace)
    (spares : Prop) : Prop where
  allows : ∀ c s r t, k c s r t → Namespace.allows c s r t
  sparing : spares → ∀ c s r t, k c s r t → Namespace.sparing c s r t

/-- Only the storage and the directory that is built may have changed. -/
structure Filling (h t : Workbench Namespace) : Prop where
  source : t.source = h.source
  destination : t.destination = h.destination
  within : t.within = h.within

theorem Untouched.filling (ht : Untouched h t) : Filling h t :=
  ⟨ht.source, ht.destination, ht.within⟩

theorem Filling.file (ht : Filling h t) (path : StoragePath) : t.file path = h.file path := by
  unfold Workbench.file
  rw [ht.source]

/-- The storage has the objects of the backup under these keys, and no others. -/
structure Imported (h : Workbench Namespace) (keys : List StorageKey) (storage : Namespace) :
    Prop where
  distinct : keys.Nodup
  found : ∀ key ∈ keys, h.file (objectPath key) ≠ none
  stored : ∀ key, storage key = if key ∈ keys then h.file (objectPath key) else none

theorem imported_nil : Imported h [] Namespace.empty :=
  ⟨List.nodup_nil, fun _ hkey => absurd hkey List.not_mem_nil, fun _ => rfl⟩

/-- One more object. -/
theorem Imported.append {keys : List StorageKey} {storage : Namespace}
    (himported : Imported h keys storage) {key : StorageKey} {content : Bytes}
    (hfree : storage key = none) (hcontent : h.file (objectPath key) = some content) :
    Imported h (keys ++ [key]) (storage.set key (some content)) := by
  have hnew : key ∉ keys := by
    intro hkey
    have hstored := himported.stored key
    rw [hfree, if_pos hkey] at hstored
    exact himported.found key hkey hstored.symm
  refine ⟨?_, fun other hother => ?_, fun other => ?_⟩
  · rw [List.nodup_append]
    refine ⟨himported.distinct, List.nodup_singleton key, fun a ha b hb hab => ?_⟩
    rw [List.mem_singleton.mp hb] at hab
    exact hnew (hab ▸ ha)
  · rcases List.mem_append.mp hother with hother | hother
    · exact himported.found other hother
    · rw [List.mem_singleton.mp hother, hcontent]
      simp
  · by_cases heq : other = key
    · subst heq
      rw [Namespace.set_self, if_pos (by simp), hcontent]
    · rw [Namespace.set_of_ne _ _ heq, himported.stored]
      simp [heq]

variable [Digest]

/-- The key of an object of the manifest, with bytes in the backup that have its size and
checksum. -/
def Matches (h : Workbench Namespace) (object : BackupObject) (key : StorageKey) : Prop :=
  key.asStr = object.storageKey ∧ ∃ content, h.file (objectPath key) = some content ∧
    content.length = object.size ∧ (sha256 content).asStr = object.checksum

/-- The keys of these objects, and no others. -/
structure KeysOf (h : Workbench Namespace) (objects : List BackupObject) (keys : List StorageKey) :
    Prop where
  complete : ∀ object ∈ objects, ∃ key ∈ keys, Matches h object key
  only : ∀ key ∈ keys, ∃ object ∈ objects, Matches h object key

theorem KeysOf.cons {object : BackupObject} {objects : List BackupObject} {key : StorageKey}
    {keys : List StorageKey} (hkeys : KeysOf h objects keys) (hmatches : Matches h object key) :
    KeysOf h (object :: objects) (key :: keys) := by
  constructor
  · intro o ho
    rcases List.mem_cons.mp ho with rfl | ho
    · exact ⟨key, List.mem_cons_self, hmatches⟩
    · obtain ⟨other, hother, h⟩ := hkeys.complete o ho
      exact ⟨other, List.mem_cons_of_mem key hother, h⟩
  · intro other hother
    rcases List.mem_cons.mp hother with rfl | hother
    · exact ⟨object, List.mem_cons_self, hmatches⟩
    · obtain ⟨o, ho, h⟩ := hkeys.only other hother
      exact ⟨o, List.mem_cons_of_mem object ho, h⟩

/-- One object: it is put into the storage, or the storage is left alone. -/
theorem importObject_meets {spares : Prop} (hk : Promises k spares) (ht : Filling h t)
    (backup : BackupObject) :
    (Restore.importObject backup).Meets (Workbench.allows k) (Filling h)
      (fun r u => Matches h backup r.1 ∧ ¬(r.2.2.size ≠ backup.size ∨ r.2.2.checksum ≠ r.2.1) ∧
        ∃ content, h.file (objectPath r.1) = some content ∧ t.storage r.1 = none ∧
          u = { t with storage := t.storage.set r.1 (some content) })
      (fun _ u => u = t) t := by
  refine Procedure.meets_lift_bind ht (fun key hkey => ?_) fun _ _ => rfl
  refine Procedure.meets_lift_bind ht (fun expected hexpected => ?_) fun _ _ => rfl
  refine (meets_reading (E := fun _ u => u = t) (openSecureFile_reads _) ht fun _ => rfl).bind
    fun content u hu hcontent => ?_
  obtain ⟨hcontent, rfl⟩ := hcontent
  refine (meets_reading (E := fun _ v => v = u) (hashReader_reads content) hu fun _ => rfl).bind
    fun hash v hv hhash => ?_
  obtain ⟨⟨hlength, rfl⟩, rfl⟩ := hhash
  refine Procedure.meets_lift_bind hv (fun _ hsame => ?_) fun _ _ => rfl
  refine (meets_reading (E := fun _ w => w = v) (openSecureFile_reads _) hv fun _ => rfl).bind
    fun source w hw hsource => ?_
  obtain ⟨hsource, rfl⟩ := hsource
  -- the file is opened a second time, and nothing else writes to the backup
  obtain rfl : content = source := Option.some.inj (hcontent.symm.trans hsource)
  obtain ⟨hsize, hsum⟩ := ensure_eq_ok.mp hsame
  rw [hw.file] at hcontent
  have hmatches : Matches h backup key :=
    ⟨BackupManifest.storageKey_eq_ok.mp hkey, content, hcontent, hsize, hsum⟩
  refine Procedure.Meets.bind (P := fun metadata x => metadata = ⟨content.length, sha256 content⟩ ∧
    w.storage key = none ∧ x = { w with storage := w.storage.set key (some content) }) ?_ ?_
  · refine Procedure.meets_attempt (Workbench.meets_object hw fun r storage hput => ?_)
    rcases hk.allows _ _ _ _ hput with ⟨metadata, rfl, hhashed, -, hfree, rfl⟩ | ⟨⟨e, rfl⟩, rfl⟩
    · exact ⟨⟨hw.source, hw.destination, hw.within⟩, (hashed_eq_ok.mp hhashed).2, hfree, rfl⟩
    · exact ⟨hw, rfl⟩
  · rintro metadata x hx ⟨rfl, hfree, rfl⟩
    refine Procedure.meets_pure hx ⟨hmatches, ?_, content, hcontent, hfree, rfl⟩
    -- the storage computed what the manifest says
    have hexpected' : sha256 content = expected := BackupManifest.checksum_ext
      (hsum.trans (BackupManifest.checksum_eq_ok.mp hexpected).symm)
    rintro (hbad | hbad)
    · exact hbad hsize
    · exact hbad hexpected'

/-- A look at the inventory. -/
theorem listObjectKeys_meets {spares : Prop} (hk : Promises k spares)
    {I : Workbench Namespace → Prop} (ht : I t) (rename : StorageError → RecoveryError) :
    (object .listObjectKeys rename).Meets (Workbench.allows k) I
      (fun keys u => (∀ key, key ∈ keys ↔ ∃ content, t.storage key = some content) ∧ u = t)
      (fun _ u => u = t) t := by
  refine Procedure.meets_attempt (Workbench.meets_object ht fun r storage hlist => ?_)
  obtain ⟨hkeys, rfl⟩ := hk.allows _ _ _ _ hlist
  refine ⟨ht, ?_⟩
  cases r with
  | ok keys => exact ⟨hkeys keys rfl, rfl⟩
  | error e => rfl

/-- The loop: whatever it ends with, the storage has the objects of the keys it names. -/
theorem restoreObjects_meets {spares : Prop} (hk : Promises k spares) (rest : List BackupObject)
    {imported : List StorageKey} (ht : Filling h t) (himported : Imported h imported t.storage) :
    (Restore.restoreObjects imported rest).Meets (Workbench.allows k) (Filling h)
      (fun r u => u.stage = t.stage ∧ Imported h r.2 u.storage ∧ (r.1 = .ok () →
        ∃ more, r.2 = imported ++ more ∧ KeysOf h rest more)) t := by
  -- induction on the objects left, for every state the loop may be in
  induction rest generalizing imported t with
  | nil =>
    rw [Restore.restoreObjects]
    have hcompare : (Restore.compareInventory imported).Meets (Workbench.allows k) (Filling h)
        (fun _ u => u = t) (fun _ u => u = t) t := by
      refine (listObjectKeys_meets hk ht _).bind fun keys u hu hkeys => ?_
      obtain ⟨-, rfl⟩ := hkeys
      exact Procedure.meets_lift hu (fun _ _ => rfl) fun _ _ => rfl
    refine Program.Meets.bind hcompare fun r u hu hr => ⟨hu, ?_⟩
    have hsame : u = t := by
      cases r with
      | ok _ => exact hr
      | error _ => exact hr
    subst hsame
    exact ⟨rfl, himported, fun _ => ⟨[], (List.append_nil _).symm, by simp, by simp⟩⟩
  | cons backup rest ih =>
    rw [Restore.restoreObjects]
    refine Program.Meets.bind (importObject_meets hk ht backup) fun r u hu hr => ?_
    cases r with
    | error e =>
      -- the storage was left alone
      obtain rfl : u = t := hr
      exact ⟨hu, rfl, himported, fun hok => by cases hok⟩
    | ok r =>
      obtain ⟨key, expected, metadata⟩ := r
      obtain ⟨hmatches, hchecked, content, hcontent, hfree, rfl⟩ := hr
      have happend := himported.append hfree hcontent
      show (if metadata.size ≠ backup.size ∨ metadata.checksum ≠ expected then _ else _ :
        WorkbenchProgram _).Meets _ _ _ _
      rw [if_neg hchecked]
      refine (ih hu happend).mono fun r v _ hv => ?_
      obtain ⟨hstage, hkeys, hok⟩ := hv
      refine ⟨hstage, hkeys, fun hr => ?_⟩
      obtain ⟨more, hmore, hall⟩ := hok hr
      exact ⟨key :: more, by rw [hmore, List.append_assoc, List.singleton_append],
        hall.cons hmatches⟩

/-- The deletions: where they succeed, nothing is left under the keys. -/
theorem deleteAll_meets {spares : Prop} (hk : Promises k spares) {keys : List StorageKey}
    (ht : Filling h t) (hdistinct : keys.Nodup)
    (hstored : spares → ∀ key ∈ keys, t.storage key ≠ none) :
    (Restore.deleteAll keys).Meets (Workbench.allows k) (Filling h)
      (fun _ u => spares → ∀ key, u.storage key = if key ∈ keys then none else t.storage key)
      t := by
  -- the deletions after the first find the first key gone and the others unchanged
  induction keys generalizing t with
  | nil => exact ⟨ht, fun _ key => by simp⟩
  | cons key keys ih =>
    obtain ⟨hnew, hdistinct⟩ := List.nodup_cons.mp hdistinct
    rw [Restore.deleteAll]
    refine Program.Meets.bind (P := fun _ u => spares → u.storage = t.storage.set key none) ?_
      fun _ u hu hdeleted => ?_
    · refine Workbench.meets_object ht fun r storage hdelete => ?_
      refine ⟨⟨ht.source, ht.destination, ht.within⟩, fun hspares => ?_⟩
      exact (Namespace.deleted (hk.sparing hspares _ _ _ _ hdelete)
        (hstored hspares key List.mem_cons_self)).1
    · refine Program.Meets.bind (ih hu hdistinct fun hspares other hother => ?_)
        fun _ v hv hothers => ⟨hv, fun hspares other => ?_⟩
      -- the keys that are left are still stored, since no key comes twice
      · have hne : other ≠ key := by
          rintro rfl
          exact hnew hother
        rw [hdeleted hspares, Namespace.set_of_ne _ _ hne]
        exact hstored hspares other (List.mem_cons_of_mem key hother)
      · rw [hothers hspares, hdeleted hspares]
        by_cases heq : other = key
        · subst heq
          simp
        · rw [Namespace.set_of_ne _ _ heq]
          simp [heq]

/-- What was imported is deleted again. -/
theorem cleanup_meets {spares : Prop} (hk : Promises k spares) {imported : List StorageKey}
    (ht : Filling h t) (himported : Imported h imported t.storage) :
    (Restore.cleanup imported).Meets (Workbench.allows k) (Filling h)
      (fun _ u => spares → u.storage = Namespace.empty)
      (fun _ u => spares → u.storage = Namespace.empty) t := by
  have hstored (key : StorageKey) (hkey : key ∈ imported) : t.storage key ≠ none := by
    rw [himported.stored, if_pos hkey]
    exact himported.found key hkey
  refine Program.Meets.bind (deleteAll_meets hk ht (List.nodup_reverse.mpr himported.distinct)
    fun _ key hkey => hstored key (List.mem_reverse.mp hkey)) fun failed u hu hempty => ⟨hu, ?_⟩
  have hall : spares → u.storage = Namespace.empty := by
    intro hspares
    funext key
    rw [hempty hspares, himported.stored]
    by_cases hkey : key ∈ imported <;> simp [hkey, Namespace.empty]
  cases failed with
  | true => exact hall
  | false => exact hall

end Import

/-! ### Restores -/

section Apply

variable [Digest] [MetadataDatabase] [ManifestEncoder]
  {k : Contract ObjectCommand ObjectCommand.Response Namespace} {h t : Workbench Namespace}

/-- A complete installation made of the backup that `h` reads. -/
structure Restored (h t : Workbench Namespace) (manifest : BackupManifest) : Prop where
  verified : Verified h manifest
  installed : ∃ d, t.destination = .activated d ∧ Controls h manifest d
  complete : ∀ object ∈ manifest.objects, ∃ key, Matches h object key ∧
    t.storage key = h.file (objectPath key)
  only : ∀ key, t.storage key ≠ none → ∃ object ∈ manifest.objects, object.storageKey = key.asStr

/-- The destination is as it was, or it is a complete installation. -/
def Sound (h t : Workbench Namespace) : Prop :=
  t.destination = h.destination ∨ ∃ manifest, Restored h t manifest

/-- The destination is as it was, and so is the storage where deletions succeed. -/
def Undone (spares : Prop) (h t : Workbench Namespace) : Prop :=
  t.destination = h.destination ∧ (spares → t.storage = h.storage)

omit [Digest] [MetadataDatabase] [ManifestEncoder] in
theorem Untouched.undone {spares : Prop} (ht : Untouched h t) : Undone spares h t :=
  ⟨ht.destination, fun _ => ht.storage⟩

omit [Digest] [MetadataDatabase] [ManifestEncoder] in
/-- The removal of the stage undoes nothing that matters here. -/
theorem removeStage_undone {spares : Prop} (hprepared : h.Prepared) (hfilling : Filling h t)
    (ht : Undone spares h t) :
    (Workbench.onDirectory .removeStage).Meets (Workbench.allows k) (Filling h)
      (fun _ u => Undone spares h u) t := by
  refine Workbench.meets_directory hfilling ⟨?_, ?_⟩ ht
  · exact ⟨hfilling.source, hfilling.destination, hfilling.within⟩
  · refine ⟨ht.1, fun hspares => ?_⟩
    show t.within.getD t.storage = h.storage
    rw [hfilling.within, ht.2 hspares, hprepared.getD]

/-- The end of a restore: the installation is put in place, or the import is undone. -/
theorem persistRestoredStage_meets {spares : Prop} (hk : Promises k spares) (hprepared : h.Prepared)
    {manifest : BackupManifest} (hverified : Verified h manifest) (ht : Filling h t) {d : Directory}
    (hstage : t.stage = some d) (hcontrols : Controls h manifest d)
    (hempty : h.storage = Namespace.empty) {r : Except RecoveryError Unit} {keys : List StorageKey}
    (himported : Imported h keys t.storage)
    (hall : r = .ok () → KeysOf h manifest.objects keys) :
    (Restore.persistRestoredStage (r, keys)).Meets (Workbench.allows k) (Sound h)
      (fun _ u => Restored h u manifest) (fun _ u => Undone spares h u) t := by
  have hundone (u : Workbench Namespace) (hu : Filling h u)
      (hstorage : spares → u.storage = Namespace.empty) : Undone spares h u :=
    ⟨hu.destination, fun hspares => (hstorage hspares).trans hempty.symm⟩
  cases r with
  | error error =>
    -- an object could not be imported
    show (dropOnError (Restore.cleanupAfter keys error)).Meets _ _ _ _ _
    refine Procedure.Meets.weaken (I := Filling h) ?_ fun u hu => Or.inl hu.destination
    refine Procedure.meets_recover ?_
    have hcleanup : (Restore.cleanupAfter keys error).Meets (Workbench.allows k) (Filling h)
        (fun _ u => Restored h u manifest) (fun _ u => spares → u.storage = Namespace.empty) t :=
      (cleanup_meets hk ht himported).bind fun _ u hu hstorage => Procedure.meets_fail hu hstorage
    refine hcleanup.mono (fun _ _ _ hr => hr) fun e u hu hstorage => ?_
    refine Procedure.Meets.bind (P := fun _ u => Undone spares h u) (Procedure.meets_ignore ?_)
      fun _ v hv hundone' => Procedure.meets_fail hv hundone'
    exact removeStage_undone hprepared hu (hundone u hu hstorage)
  | ok _ =>
    show (persistStageWithCleanup (Restore.cleanup keys)).Meets _ _ _ _ _
    have hkeys := hall rfl
    have hrestored : Restored h { t with stage := none, destination := .activated d } manifest := by
      refine ⟨hverified, ⟨d, rfl, hcontrols⟩, fun object hobject => ?_, fun key hkey => ?_⟩
      · obtain ⟨key, hkey, hmatches⟩ := hkeys.complete object hobject
        refine ⟨key, hmatches, ?_⟩
        show t.storage key = _
        rw [himported.stored, if_pos hkey]
      -- what is stored was imported, and what was imported is in the manifest
      · have hmem : key ∈ keys := by
          by_contra hnot
          exact hkey ((himported.stored key).trans (if_neg hnot))
        obtain ⟨object, hobject, hmatches⟩ := hkeys.only key hmem
        exact ⟨object, hobject, hmatches.1.symm⟩
    have hcleanup := (cleanup_meets hk ht himported).mono
      (Q := fun _ u => Filling h u ∧ (spares → u.storage = Namespace.empty))
      (F := fun _ u => Filling h u ∧ (spares → u.storage = Namespace.empty))
      (fun _ _ hu hr => ⟨hu, hr⟩) fun _ _ hu hr => ⟨hu, hr⟩
    refine persistStageWithCleanup_meets hstage (Or.inl ht.destination)
      ⟨Or.inr ⟨manifest, hrestored⟩, hrestored⟩
      (hcleanup.weaken fun u hu => Or.inl hu.destination) fun u _ hu => ?_
    exact (removeStage_undone hprepared hu.1 (hundone u hu.1 hu.2)).weaken
      fun v hv => Or.inl hv.destination

omit [MetadataDatabase] [ManifestEncoder] in
/-- What comes before the import: the control files are copied and the storage is empty. -/
theorem stage_untouched {spares : Prop} (hk : Promises k spares) (hprepared : h.Prepared)
    (ht : Untouched h t) (manifest : BackupManifest) :
    (dropOnError do
      Restore.copyControlFiles manifest
      directory .openStorage .storage
      Restore.requireEmptyStorage).Meets (Workbench.allows k) (Untouched h)
      (fun _ u => h.storage = Namespace.empty ∧ ∃ d, u.stage = some d ∧ Controls h manifest d)
      (fun _ _ => True) t := by
  refine dropOnError_untouched hprepared ?_
  refine (copyControlFiles_untouched ht hprepared manifest).bind fun _ u hu hcontrols => ?_
  refine (directory_untouched hu hprepared (by simp) _).bind fun _ v hv hopen => ?_
  obtain ⟨-, rfl⟩ := Prod.mk.inj hopen
  refine ((listObjectKeys_meets hk hv _).mono (fun _ _ _ hr => hr) fun _ _ _ _ => trivial).bind
    fun keys w hw hkeys => ?_
  obtain ⟨hlisted, rfl⟩ := hkeys
  refine Procedure.meets_lift hw (fun _ hnil => ⟨?_, hcontrols⟩) fun _ _ => trivial
  -- no key is listed, so nothing is stored
  funext key
  rw [← hw.storage]
  cases hcontent : w.storage key with
  | none => rfl
  | some content =>
    have hmem := (hlisted key).mpr ⟨content, hcontent⟩
    rw [ensure_eq_ok.mp hnil] at hmem
    cases hmem

/-- A restore, at every moment and at its end. -/
theorem apply_meets {spares : Prop} (hk : Promises k spares) (hprepared : h.Prepared) :
    Restore.apply.Meets (Workbench.allows k) (Sound h)
      (fun report u => ∃ manifest, Restored h u manifest ∧
        report.metadataSchemaVersion = manifest.metadataSchemaVersion ∧
          report.objects = manifest.objects.length ∧
            Restore.totalBytes manifest = .ok report.bytes)
      (fun _ u => Undone spares h u) h := by
  -- until the destination is renamed nothing can be seen of the restore
  have hsound (u : Workbench Namespace) (hu : Untouched h u) : Sound h u := Or.inl hu.destination
  have hchecked : Restore.validateBackup.Meets (Workbench.allows k) (Untouched h)
      (fun manifest u => Verified h manifest ∧ u = h) (fun _ u => Undone spares h u) h :=
    meets_reading validateBackup_reads (Untouched.refl h) fun _ => (Untouched.refl h).undone
  refine (hchecked.weaken hsound).bind fun manifest t _ hverified => ?_
  obtain ⟨hverified, rfl⟩ := hverified
  -- a size that does not fit is an error before anything is written
  refine Procedure.meets_lift_bind (Or.inl rfl) (fun bytes hbytes => ?_)
    fun _ _ => (Untouched.refl t).undone
  have hstaged : createStage.Meets (Workbench.allows k) (Untouched t) (fun _ u => Untouched t u)
      (fun _ u => Undone spares t u) t :=
    (createStage_untouched (Untouched.refl t) hprepared).mono (fun _ u hu _ => hu)
      fun _ u hu _ => hu.undone
  -- the stage comes next, and the control files in it
  refine (hstaged.weaken hsound).bind fun _ u _ hu => ?_
  have hcopied := (stage_untouched hk hprepared hu manifest).mono
    (Q := fun _ v => Untouched t v ∧ t.storage = Namespace.empty ∧
      ∃ d, v.stage = some d ∧ Controls t manifest d) (F := fun _ v => Undone spares t v)
    (fun _ v hv hd => ⟨hv, hd⟩) fun _ v hv _ => hv.undone
  refine (hcopied.weaken hsound).bind fun _ v _ hv => ?_
  obtain ⟨hv, hempty, d, hd, hcontrols⟩ := hv
  have himported : Imported t [] v.storage := by
    rw [hv.storage, hempty]
    exact imported_nil
  -- the objects are the first that changes the storage, and the list of keys says how
  have hrestored := (restoreObjects_meets hk manifest.objects hv.filling himported).mono
    (Q := fun r w => Filling t w ∧ w.stage = v.stage ∧ Imported t r.2 w.storage ∧
      (r.1 = .ok () → KeysOf t manifest.objects r.2)) fun r w hw hr => by
    obtain ⟨hstage, hkeys, hall⟩ := hr
    refine ⟨hw, hstage, hkeys, fun hok => ?_⟩
    obtain ⟨more, hmore, hkeysOf⟩ := hall hok
    rw [hmore]
    exact hkeysOf
  refine Procedure.Meets.bind (P := fun r w => Filling t w ∧ w.stage = v.stage ∧
    Imported t r.2 w.storage ∧ (r.1 = .ok () → KeysOf t manifest.objects r.2)) ?_ fun r w _ hw => ?_
  -- from here on an error is undone by the deletions
  · exact Program.Meets.bind (hrestored.weaken fun w hw => Or.inl hw.destination)
      fun r w hw hr => ⟨hw, hr⟩
  -- the comparison, the renaming and the report
  · obtain ⟨hw, hstage, hkeys, hall⟩ := hw
    refine (persistRestoredStage_meets hk hprepared hverified hw (hstage.trans hd) hcontrols hempty
      hkeys hall).bind fun _ x hx hdone => ?_
    exact Procedure.meets_pure hx ⟨manifest, hdone, rfl, rfl, hbytes⟩

omit [MetadataDatabase] [ManifestEncoder] in
theorem promises_allows : Promises Namespace.allows False :=
  ⟨fun _ _ _ _ hcall => hcall, fun hfalse => hfalse.elim⟩

omit [MetadataDatabase] [ManifestEncoder] in
theorem promises_sparing : Promises Namespace.sparing True :=
  ⟨fun _ _ _ _ hcall => Namespace.allows_of_sparing hcall, fun _ _ _ _ _ hcall => hcall⟩

/-- A restore never leaves a part of an installation at its destination: wherever it stops, the
destination is as it was or complete.  It reports success with a complete installation, and after a
failure the destination is as it was; so is the storage, if the deletions of the cleanup succeed. -/
theorem restore_law (hprepared : h.Prepared) :
    (∀ t, Restore.apply.program.Stops (Workbench.allows Namespace.allows) h t → Sound h t) ∧
      (∀ report t,
        Restore.apply.program.Runs (Workbench.allows Namespace.allows) h (.ok report) t →
          ∃ manifest, Restored h t manifest ∧
            report.metadataSchemaVersion = manifest.metadataSchemaVersion ∧
              report.objects = manifest.objects.length ∧
                Restore.totalBytes manifest = .ok report.bytes) ∧
      (∀ error t,
        Restore.apply.program.Runs (Workbench.allows Namespace.allows) h (.error error) t →
          t.destination = h.destination) ∧
      ∀ error t,
        Restore.apply.program.Runs (Workbench.allows Namespace.sparing) h (.error error) t →
          t.storage = h.storage := by
  have hallows := apply_meets promises_allows hprepared
  have hsparing := apply_meets promises_sparing hprepared
  refine ⟨fun t hstops => ?_, fun report t hruns => ?_, fun error t hruns => ?_,
    fun error t hruns => ?_⟩
  · exact Program.Meets.stops hallows hstops
  · exact (hallows.ok hruns).2
  · exact (hallows.error hruns).2.1
  · exact (hsparing.error hruns).2.2 trivial

end Apply

/-! ### Executions with the filesystem provider -/

/-- An execution with the filesystem provider, in which calls may fail, is one that the contract of
the object storage allows. -/
theorem runs_objectsWith [Digest] {α : Type} (x : Recovery α) (fails : List Bool)
    (s : Workbench Filesystem) :
    x.program.Runs (Workbench.allows Namespace.allows) (s.map Filesystem.contents)
      (x.program.execWith filesystemCalls fails s).1
      ((x.program.execWith filesystemCalls fails s).2.map Filesystem.contents) := by
  have hruns : x.program.Runs (fun c s r t => filesystemCalls.faulty c s r t ∧ True) s
      (x.program.execWith filesystemCalls fails s).1
      (x.program.execWith filesystemCalls fails s).2 :=
    Program.runs_execWith fun _ _ => trivial
  refine Contract.Refines.runs ?_ hruns
  rintro c s r t ⟨hcall, -⟩
  exact Workbench.refines FilesystemStorage.objects_refines c s r t hcall

theorem runs_objects [Digest] {α : Type} (x : Recovery α) (s : Workbench Filesystem) :
    x.program.Runs (Workbench.allows Namespace.allows) (s.map Filesystem.contents)
      (x.exec filesystemCalls s).1 ((x.exec filesystemCalls s).2.map Filesystem.contents) := by
  have hruns := runs_objectsWith x [] s
  rwa [Program.execWith_nil] at hruns

/-- The call is no deletion that fails. -/
def Spares : Sigma WorkbenchCommand.Response → Prop
  | ⟨.object (.delete _), r⟩ => r = .ok ()
  | _ => True

instance : DecidablePred Spares
  | ⟨.object (.delete _), .ok _⟩ => .isTrue rfl
  | ⟨.object (.delete _), .error _⟩ => .isFalse nofun
  | ⟨.object (.put _ _ _), _⟩ => .isTrue trivial
  | ⟨.object (.get _), _⟩ => .isTrue trivial
  | ⟨.object .listObjectKeys, _⟩ => .isTrue trivial
  | ⟨.directory _, _⟩ => .isTrue trivial

/-- One in which some calls fail, but no deletion, is one that the contract with deletions that
succeed allows. -/
theorem runs_sparing [Digest] {α : Type} {x : Recovery α} {fails : List Bool}
    {s : Workbench Filesystem}
    (h : ∀ call ∈ x.program.callsWith filesystemCalls fails s, Spares call) :
    x.program.Runs (Workbench.allows Namespace.sparing) (s.map Filesystem.contents)
      (x.program.execWith filesystemCalls fails s).1
      ((x.program.execWith filesystemCalls fails s).2.map Filesystem.contents) := by
  refine Contract.Refines.runs ?_ (Program.runs_execWith h)
  rintro c s r t ⟨hcall, hspares⟩
  have hallows := Workbench.refines FilesystemStorage.objects_refines c s r t hcall
  cases c with
  | directory c => exact hallows
  | object c =>
    obtain ⟨storage, hstorage, ht⟩ := hallows
    cases c with
    | delete key => exact ⟨storage, ⟨hstorage, fun _ => hspares⟩, ht⟩
    | put key source expected => exact ⟨storage, hstorage, ht⟩
    | get key => exact ⟨storage, hstorage, ht⟩
    | listObjectKeys => exact ⟨storage, hstorage, ht⟩

theorem runs_of_sparing {α : Type} [Digest] {x : Recovery α} {h t : Workbench Namespace}
    {r : Except RecoveryError α}
    (hruns : x.program.Runs (Workbench.allows Namespace.sparing) h r t) :
    x.program.Runs (Workbench.allows Namespace.allows) h r t := by
  have hrefines : (Workbench.allows Namespace.sparing).Refines (fun s => s)
      (Workbench.allows Namespace.allows) := by
    rintro (c | c) s r t hcall
    · exact hcall
    · obtain ⟨storage, hstorage, ht⟩ := hcall
      exact ⟨storage, Namespace.allows_of_sparing hstorage, ht⟩
  exact hrefines.runs hruns

theorem exists_error {α : Type} {r : Except RecoveryError α} (h : r.isOk = false) :
    ∃ e, r = .error e := by
  cases r with
  | error e => exact ⟨e, rfl⟩
  | ok a => cases h

theorem exists_ok {α : Type} {r : Except RecoveryError α} (h : r.isOk = true) :
    ∃ a, r = .ok a := by
  cases r with
  | error e => cases h
  | ok a => exact ⟨a, rfl⟩

/-! ### An installation with two objects -/

section Garden

attribute [local instance] compactWriter

/-- One value, alone or with a line break behind it. -/
def readLine (text : List Char) : Option Json :=
  (Json.readValue (text.length + 1) text).bind fun value =>
    if value.2 = [] ∨ value.2 = ['\n'] then some value.1 else none

theorem readLine_compact (value : Json) {rest : List Char} (hrest : rest = [] ∨ rest = ['\n']) :
    readLine (value.compact ++ rest) = some value := by
  have hends : Json.EndsNumber rest := by
    rcases hrest with rfl | rfl
    · rintro c ⟨⟩
    · rintro c ⟨⟩
      rfl
  have hlength : value.compact.length < (value.compact ++ rest).length + 1 := by
    rw [List.length_append]
    omega
  rw [readLine, Json.reads value _ rest hlength hends, Option.bind_some, if_pos hrest]

def gardenBytes (text : String) : Bytes := text.toUTF8.data.toList

/-- The characters of an ASCII text, taken from its bytes. -/
def gardenCharacters (text : String) : List Char :=
  (gardenBytes text).map fun byte => Char.ofNat byte.toNat

/-- SHA-256 of the files of the two installations. -/
def gardenDigests : List (Bytes × String) :=
  [(gardenBytes "SQLite format 3 garden",
    "dd26ba66b0e2453ed71d2889a57195da2a6c1a39017ddd3535ad6984fa2136d9"),
   (gardenBytes "SQLite format 3 orchard",
    "c05839c3728fa0dfc0bd2b7e8b90219f311354e67f33739433e612e9e7dc3190"),
   (gardenBytes "garden-runtime-secret",
    "06808520f5703b1537c616a73a6df3356cccef930dc870863c62da29b6f1de8d"),
   (gardenBytes "peas!", "5516383e9ecf19d64ede1eb79099534a163ca52b4ee6f9f2022487fe162209bd"),
   (gardenBytes "beans", "6eb228fb5b59ab49a45a48bdd9e5f0ed65b43afb52ec72cc825a567986630827")]

theorem validChecksum_nines : ValidChecksum (repeatedDigit '9') := by decide

@[reducible] def gardenDigest : Digest where
  sha256 bytes :=
    (gardenDigests.lookup bytes).elim ⟨repeatedDigit '9', validChecksum_nines⟩ fun value =>
      if h : ValidChecksum value then ⟨value, h⟩ else ⟨repeatedDigit '9', validChecksum_nines⟩

def gardenVersion (id project : String) (content : Bytes) : ObjectVersionRecord where
  id := id
  projectId := project
  objectPath := "peas.txt"
  version := 1
  storageKey := "versions/" ++ project ++ "/" ++ id
  state := .complete
  size := some content.length
  checksum := some (gardenDigest.sha256 content).asStr
  createdAtMs := 10
  source := .cli
  gitRepository := none
  gitCommit := none
  gitBranch := none

/-- Two complete versions, of the projects `p` and `p-2`. -/
def gardenVersions : List ObjectVersionRecord :=
  [gardenVersion "u1" "p" (gardenBytes "peas!"), gardenVersion "u2" "p-2" (gardenBytes "beans")]

/-- Two complete versions, of the projects `p` and `q`. -/
def orchardVersions : List ObjectVersionRecord :=
  [gardenVersion "u1" "p" (gardenBytes "peas!"), gardenVersion "u2" "q" (gardenBytes "beans")]

/-- A file of metadata stands for itself; the one of the orchard has its versions, every other one
but the empty one those of the garden. -/
@[reducible] def gardenDatabase : MetadataDatabase where
  integrityCheck _ := some "ok"
  userVersion file := if file = [] then some 0 else some currentSchemaVersion
  backup := some
  opened := .ok
  listObjectVersions file :=
    .ok (if file = gardenBytes "SQLite format 3 orchard" then orchardVersions else gardenVersions)
  opened_checks := by
    rintro file _ - ⟨⟩
    exact ⟨rfl, rfl⟩
  userVersion_nil := by
    rintro version ⟨⟩
    rfl

/-- The manifest of an installation, with the keys of the peas and the beans. -/
def plantedManifest (metadata : String) (objects : List (String × String)) : BackupManifest :=
  BackupManifest.new currentSchemaVersion metadata
    "06808520f5703b1537c616a73a6df3356cccef930dc870863c62da29b6f1de8d"
    (objects.map fun object => { storageKey := object.1, size := 5, checksum := object.2 })

def peasChecksum : String := "5516383e9ecf19d64ede1eb79099534a163ca52b4ee6f9f2022487fe162209bd"

def beansChecksum : String := "6eb228fb5b59ab49a45a48bdd9e5f0ed65b43afb52ec72cc825a567986630827"

def gardenManifest : BackupManifest :=
  plantedManifest "dd26ba66b0e2453ed71d2889a57195da2a6c1a39017ddd3535ad6984fa2136d9"
    [("versions/p/u1", peasChecksum), ("versions/p-2/u2", beansChecksum)]

def orchardManifest : BackupManifest :=
  plantedManifest "c05839c3728fa0dfc0bd2b7e8b90219f311354e67f33739433e612e9e7dc3190"
    [("versions/p/u1", peasChecksum), ("versions/q/u2", beansChecksum)]

/-- The lines of one object. -/
def objectLines (key checksum : String) : List String :=
  ["    \x7b\n", "      \"storageKey\": \"", key, "\",\n", "      \"size\": 5,\n",
   "      \"checksum\": \"", checksum, "\"\n", "    \x7d"]

/-- A manifest in several lines. -/
def manifestText (metadata : String) (first second : List String) : List Char :=
  (["\x7b\n  \"formatVersion\": 1,\n", "  \"coreVersion\": \"0.1.16\",\n",
    "  \"metadataSchemaVersion\": 24,\n", "  \"metadataSha256\": \"", metadata, "\",\n",
    "  \"runtimeSecretSha256\": ",
    "\"06808520f5703b1537c616a73a6df3356cccef930dc870863c62da29b6f1de8d\",\n",
    "  \"objects\": [\n"] ++ first ++ [",\n"] ++ second ++ ["\n  ]\n\x7d"]).flatMap gardenCharacters

/-- In the order of the texts of the keys, the beans of the garden come first. -/
def gardenText : List Char :=
  manifestText "dd26ba66b0e2453ed71d2889a57195da2a6c1a39017ddd3535ad6984fa2136d9"
    (objectLines "versions/p-2/u2" beansChecksum) (objectLines "versions/p/u1" peasChecksum)

def orchardText : List Char :=
  manifestText "c05839c3728fa0dfc0bd2b7e8b90219f311354e67f33739433e612e9e7dc3190"
    (objectLines "versions/p/u1" peasChecksum) (objectLines "versions/q/u2" beansChecksum)

/-- The two manifests with their texts. -/
def plantedTexts : List (BackupManifest × List Char) :=
  [(gardenManifest, gardenText), (orchardManifest, orchardText)]

theorem readLine_plantedTexts :
    ∀ planted ∈ plantedTexts, readLine (planted.2 ++ ['\n']) = none := by
  decide +kernel

theorem plantedTexts_find? : ∀ planted ∈ plantedTexts,
    plantedTexts.find? (fun other => planted.2 ++ ['\n'] = other.2 ++ ['\n']) = some planted := by
  decide +kernel

/-- The reader of these texts: of a value in one line, or of one of the manifests. -/
@[reducible] def gardenReader : JsonReader where
  toJsonWriter := compactWriter
  read text := (readLine text).or
    ((plantedTexts.find? fun planted => text = planted.2 ++ ['\n']).map fun planted =>
      planted.1.toJson)
  read_compact value _ := by
    have hread := readLine_compact value (Or.inl rfl)
    rw [List.append_nil] at hread
    rw [hread, Option.some_or]

/-- A text is read with the line break behind it. -/
theorem fromSlice_line (text : List Char) :
    @Server.fromSlice gardenReader (utf8Bytes text ++ [10]) =
      gardenReader.read (text ++ ['\n']) := by
  have hbytes : utf8Bytes (text ++ ['\n']) = utf8Bytes text ++ [10] := by
    rw [utf8Bytes, List.flatMap_append]
    rfl
  show (utf8Text? (utf8Bytes text ++ [10])).bind gardenReader.read = _
  rw [utf8Text?_eq_some.mpr hbytes, Option.bind_some]

/-- The manifests are written in several lines, every other value in one. -/
@[reducible] def gardenEncoder : ManifestEncoder where
  toJsonReader := gardenReader
  encode value :=
    match plantedTexts.find? fun planted => value.same planted.1.toJson with
    | some planted => utf8Bytes planted.2
    | none => utf8Bytes value.compact
  read_encode value _ := by
    split
    · rename_i planted hfound
      have hmem := List.mem_of_find?_eq_some hfound
      have hsame := List.find?_some hfound
      obtain rfl : value = planted.1.toJson := Json.eq_of_same value _ hsame
      rw [fromSlice_line]
      show (readLine _).or _ = _
      rw [readLine_plantedTexts planted hmem, Option.none_or, plantedTexts_find? planted hmem,
        Option.map_some]
    · rw [fromSlice_line]
      show (readLine _).or _ = _
      rw [readLine_compact value (Or.inr rfl), Option.some_or]

attribute [local instance] gardenDigest gardenDatabase gardenEncoder

/-- The control files of an installation. -/
def plantedHome (metadata : String) : Directory :=
  let built : Except FileTree.Failure Directory := do
    let home ← DirectoryCommand.createStaged metadataPath (gardenBytes metadata) .empty
    DirectoryCommand.createStaged secretPath (gardenBytes "garden-runtime-secret") home
  built.toOption.getD .empty

/-- The objects of an installation. -/
def plantedStorage (peas beans : String) : Filesystem :=
  ((do
    let key ← .lift (StorageKey.new peas)
    let _ ← FilesystemStorage.put key (gardenBytes "peas!") none
    let key ← .lift (StorageKey.new beans)
    let _ ← FilesystemStorage.put key (gardenBytes "beans") none
    pure () : FileAction Unit).exec Filesystem.machine .fresh).2

def garden : Workbench Filesystem where
  source := some (plantedHome "SQLite format 3 garden")
  stage := none
  destination := .absent
  storage := plantedStorage "versions/p/u1" "versions/p-2/u2"
  within := none

def orchard : Workbench Filesystem where
  source := some (plantedHome "SQLite format 3 orchard")
  stage := none
  destination := .absent
  storage := plantedStorage "versions/p/u1" "versions/q/u2"
  within := none

/-- The backup of an installation. -/
def backupOf (home : Workbench Filesystem) : Option Directory :=
  match (Backup.create.exec filesystemCalls home).2.destination with
  | .activated b => some b
  | _ => none

/-- A restore of the backup, to a new installation with the filesystem provider inside. -/
def restoreOf (home : Workbench Filesystem) : Workbench Filesystem where
  source := backupOf home
  stage := none
  destination := .absent
  storage := .fresh
  within := some .fresh

theorem restoreOf_prepared (home : Workbench Filesystem) :
    ((restoreOf home).map Filesystem.contents).Prepared := by
  rintro _ ⟨⟩
  rfl

theorem planted_valid : ∀ planted ∈ plantedTexts, planted.1.Valid := by
  intro planted hplanted
  have hvalid : ∀ planted ∈ plantedTexts, planted.1.validate = .ok () := by decide +kernel
  exact BackupManifest.validate_eq_ok.mp (hvalid planted hplanted)

theorem planted_decode (planted : BackupManifest × List Char) (hplanted : planted ∈ plantedTexts) :
    BackupManifest.decode planted.1.encode = .ok planted.1 := by
  have hsizes : ∀ planted ∈ plantedTexts, planted.1.metadataSchemaVersion ≤ u32Max ∧
      ∀ object ∈ planted.1.objects, object.size ≤ u64Max := by
    decide +kernel
  obtain ⟨hschema, hsize⟩ := hsizes planted hplanted
  exact BackupManifest.decode_encode (planted_valid planted hplanted) hschema hsize

theorem restoreOf_garden :
    (restoreOf garden).file manifestPath = some gardenManifest.encode := by
  decide +kernel

theorem restoreOf_orchard :
    (restoreOf orchard).file manifestPath = some orchardManifest.encode := by
  decide +kernel

/-- The first calls of a restore read the manifest. -/
theorem callsWith_readManifest {s : Workbench Filesystem} {manifest : BackupManifest}
    (hfile : s.file manifestPath = some manifest.encode)
    (hdecode : BackupManifest.decode manifest.encode = .ok manifest) (fails : List Bool) :
    Restore.readManifest.program.execWith filesystemCalls (false :: false :: fails) s =
        (.ok manifest, s) ∧
      Restore.readManifest.program.callsWith filesystemCalls (false :: false :: fails) s =
        [⟨.directory (.openSource manifestPath), .ok manifest.encode⟩,
         ⟨.directory (.read manifest.encode), .ok manifest.encode⟩] := by
  have hopen : filesystemCalls.perform (.directory (.openSource manifestPath)) s =
      (.ok manifest.encode, s) := by
    show (ofOption () (s.file manifestPath), s) = _
    rw [hfile]
    rfl
  constructor
  · show Program.execWith filesystemCalls (Program.step (.directory (.openSource manifestPath)) _)
      (false :: false :: fails) s = _
    rw [Program.execWith, hopen]
    show (Except.ok manifest.encode >>= BackupManifest.decode, s) = _
    exact congrArg (·, s) hdecode
  · show Program.callsWith filesystemCalls (Program.step (.directory (.openSource manifestPath)) _)
      (false :: false :: fails) s = _
    rw [Program.callsWith, hopen]
    rfl

/-- What a call has done to the object storage. -/
inductive Traffic where
  | stored (key : String)
  | deleted (key : String)
  deriving DecidableEq

def trafficOf : Sigma WorkbenchCommand.Response → Option Traffic
  | ⟨.object (.put key _ _), .ok _⟩ => some (.stored key.asStr)
  | ⟨.object (.delete key), .ok _⟩ => some (.deleted key.asStr)
  | _ => none

/-- The second object of the garden cannot be stored. -/
def secondPutFails : List Bool := false :: false :: (List.replicate 31 false ++ [true])

/-- The calls of this restore. -/
def failedCalls : List (Sigma WorkbenchCommand.Response) :=
  Restore.apply.program.callsWith filesystemCalls secondPutFails (restoreOf garden)

theorem failedCalls_traffic : (∀ call ∈ failedCalls, Spares call) ∧
    failedCalls.filterMap trafficOf =
      [.stored "versions/p-2/u2", .deleted "versions/p-2/u2"] := by
  obtain ⟨hexec, hcalls⟩ := callsWith_readManifest restoreOf_garden
    (planted_decode (gardenManifest, gardenText) List.mem_cons_self)
    (List.replicate 31 false ++ [true])
  rw [failedCalls, secondPutFails, Restore.apply, Restore.validateBackup, Procedure.bind_assoc,
    Procedure.program_bind, Program.callsWith_bind, hexec, hcalls]
  decide +kernel

theorem secondPutFails_isOk : (Restore.apply.program.execWith filesystemCalls secondPutFails
    (restoreOf garden)).1.isOk = false := by
  obtain ⟨hexec, hcalls⟩ := callsWith_readManifest restoreOf_garden
    (planted_decode (gardenManifest, gardenText) List.mem_cons_self)
    (List.replicate 31 false ++ [true])
  rw [secondPutFails, Restore.apply, Restore.validateBackup, Procedure.bind_assoc,
    Procedure.program_bind, Program.execWith_bind, hexec, hcalls]
  decide +kernel

theorem orchard_isOk : (Restore.apply.program.execWith filesystemCalls [false, false]
    (restoreOf orchard)).1.isOk = true := by
  obtain ⟨hexec, hcalls⟩ := callsWith_readManifest restoreOf_orchard
    (planted_decode (orchardManifest, orchardText) (List.mem_cons_of_mem _ List.mem_cons_self)) []
  rw [Restore.apply, Restore.validateBackup, Procedure.bind_assoc, Procedure.program_bind,
    Program.execWith_bind, hexec, hcalls]
  decide +kernel

/-- A restore of the garden that cannot store the peas has stored the beans before, and deletes them
again; nothing is left of it.  A restore of the orchard is complete. -/
theorem restore_garden :
    (failedCalls.filterMap trafficOf =
        [.stored "versions/p-2/u2", .deleted "versions/p-2/u2"] ∧
      ∃ error t, Restore.apply.program.execWith filesystemCalls secondPutFails (restoreOf garden) =
        (.error error, t) ∧ t.destination = .absent ∧ t.storage.contents = Namespace.empty) ∧
      ∃ report t manifest, Restore.apply.program.execWith filesystemCalls [false, false]
        (restoreOf orchard) = (.ok report, t) ∧ report.objects = manifest.objects.length ∧
          Restored ((restoreOf orchard).map Filesystem.contents) (t.map Filesystem.contents)
            manifest := by
  have hgarden := restore_law (restoreOf_prepared garden)
  have horchard := restore_law (restoreOf_prepared orchard)
  refine ⟨⟨failedCalls_traffic.2, ?_⟩, ?_⟩
  · have hfailed := secondPutFails_isOk
    have hruns := runs_sparing failedCalls_traffic.1
    generalize Restore.apply.program.execWith filesystemCalls secondPutFails (restoreOf garden) =
      answer at hfailed hruns
    obtain ⟨r, t⟩ := answer
    obtain ⟨error, rfl⟩ := exists_error hfailed
    -- the storage of the new installation was empty, and its cleanup has emptied it again
    have hempty : ((restoreOf garden).map Filesystem.contents).storage = Namespace.empty :=
      Filesystem.contents_fresh
    exact ⟨error, t, rfl, hgarden.2.2.1 error _ (runs_of_sparing hruns),
      (hgarden.2.2.2 error _ hruns).trans hempty⟩
  · have hok := orchard_isOk
    have hruns := runs_objectsWith Restore.apply [false, false] (restoreOf orchard)
    generalize Restore.apply.program.execWith filesystemCalls [false, false] (restoreOf orchard) =
      answer at hok hruns
    obtain ⟨r, t⟩ := answer
    obtain ⟨report, rfl⟩ := exists_ok hok
    obtain ⟨manifest, hrestored, -, hobjects, -⟩ := horchard.2.1 report _ hruns
    exact ⟨report, t, manifest, rfl, hobjects, hrestored⟩

end Garden
end BlobYard
