/-
What a backup contains.

Any call of a backup may fail and the program may stop between any two.  At every moment the
destination is as it was before or it is a complete backup: a copy of the metadata in which every
version is complete or aborted, the runtime secret, and the bytes of every complete version under
its key, with a manifest that passes the checks of a restore.

* `Describes`, `Content`, `BackedUp` — an object, its bytes, and a complete backup;
* `copyObject_meets`, `copyObjects_meets`, `writeManifest_meets` — the parts;
* `create_meets` — a backup; `backup_law` — the law.
-/
import BlobYard.Laws.Recovery

namespace BlobYard

open Outcome FileTree Recovery

variable {σ : Type} {k : Contract ObjectCommand ObjectCommand.Response σ} {h t u : Workbench σ}

/-! ### The control files -/

theorem file_of_openSource (ht : Untouched h t) {path : StoragePath} {file : Bytes}
    {u : Workbench σ} (hcall : DirectoryCommand.perform (.openSource path) t = (.ok file, u)) :
    h.file path = some file ∧ u = t := by
  obtain ⟨hfile, rfl⟩ := Prod.mk.inj hcall
  refine ⟨?_, rfl⟩
  unfold Workbench.file
  rw [← ht.source]
  exact ofOption_eq_ok.mp hfile

theorem stageFile_of_openStaged {path : StoragePath} {file : Bytes} {u : Workbench σ}
    (hcall : DirectoryCommand.perform (.openStaged path) t = (.ok file, u)) :
    t.stageFile path = some file ∧ u = t := by
  obtain ⟨hfile, rfl⟩ := Prod.mk.inj hcall
  exact ⟨ofOption_eq_ok.mp hfile, rfl⟩

section Control

variable [MetadataDatabase]

/-- The copy of the metadata that a backup starts from. -/
def Snapshot (h : Workbench σ) (copy : Bytes) (schema : ℕ) : Prop :=
  ∃ file, h.file metadataPath = some file ∧ MetadataDatabase.backup file = some copy ∧
    inspectDatabase file = .ok schema ∧ inspectDatabase copy = .ok schema

theorem snapshotDatabase_untouched (ht : Untouched h t) (hprepared : h.Prepared) :
    Backup.snapshotDatabase.Meets (Workbench.allows k) (Untouched h)
      (fun schema u => ∃ copy, u.stageFile metadataPath = some copy ∧ Snapshot h copy schema)
      (fun _ _ => True) t := by
  refine (directory_untouched ht hprepared (by simp) _).bind fun file u hu hfile => ?_
  obtain ⟨hsource, rfl⟩ := file_of_openSource ht hfile
  refine Procedure.meets_lift_bind hu (fun schema hschema => ?_) fun _ _ => trivial
  refine Procedure.meets_lift_bind hu (fun _ _ => ?_) fun _ _ => trivial
  refine Procedure.meets_lift_bind hu (fun copy hcopy => ?_) fun _ _ => trivial
  refine (directory_untouched hu hprepared (by simp) _).bind fun _ v hv hcreate => ?_
  refine (directory_untouched hv hprepared (by simp) _).bind fun _ w hw hwrite => ?_
  refine (directory_untouched hw hprepared (by simp) _).bind fun copied x hx hcopied => ?_
  obtain ⟨hcopied, rfl⟩ := stageFile_of_openStaged hcopied
  -- what is read is what was written
  have hself := (added_of_calls hcreate hwrite).filed.self
  obtain rfl : copied = copy := Option.some.inj (hcopied.symm.trans hself)
  refine Procedure.meets_lift_bind hx (fun schema' hschema' => ?_) fun _ _ => trivial
  refine Procedure.meets_lift_bind hx (fun _ hsame => ?_) fun _ _ => trivial
  obtain rfl : schema' = schema := ensure_eq_ok.mp hsame
  exact Procedure.meets_pure hx ⟨copied, hself, file, hsource, ofOption_eq_ok.mp hcopy,
    mapError_eq_ok.mp hschema, mapError_eq_ok.mp hschema'⟩

omit [MetadataDatabase] in
theorem validSecret_eq_ok {error error' : RecoveryError} {bytes : Bytes}
    (hvalid : validSecret error bytes = .ok ()) : validSecret error' bytes = .ok () := by
  simp only [validSecret, bind_eq_ok, ofOption_eq_ok, mapError_eq_ok] at hvalid ⊢
  exact hvalid

omit [MetadataDatabase] in
theorem readRuntimeSecret_reads :
    Backup.readRuntimeSecret.Meets (Workbench.allows k) (fun u => u = t)
      (fun bytes _ => t.file secretPath = some bytes ∧ validSecret .invalidBackup bytes = .ok ())
      (fun _ _ => True) t := by
  have hread : ((readSecureFile secretPath).recover fun _ => .fail .installationUnavailable).Meets
      (Workbench.allows k) (fun u => u = t) (fun bytes _ => t.file secretPath = some bytes)
      (fun _ _ => True) t := by
    refine Procedure.meets_recover ((readSecureFile_reads secretPath).mono (fun _ _ _ hr => hr)
      fun _ u hu _ => ?_)
    exact Procedure.meets_fail hu trivial
  refine hread.bind fun bytes u hu hbytes => ?_
  subst hu
  refine Procedure.meets_lift_bind rfl (fun _ hvalid => ?_) fun _ _ => trivial
  exact Procedure.meets_pure rfl ⟨hbytes, validSecret_eq_ok hvalid⟩

/-- The runtime secret, copied. -/
def SecretCopied (h u : Workbench σ) : Prop :=
  ∃ bytes, h.file secretPath = some bytes ∧ u.stageFile secretPath = some bytes ∧
    validSecret .invalidBackup bytes = .ok ()

theorem stageControlFiles_untouched (ht : Untouched h t) (hprepared : h.Prepared) :
    Backup.stageControlFiles.Meets (Workbench.allows k) (Untouched h)
      (fun schema u => schema = currentSchemaVersion ∧ SecretCopied h u ∧
        ∃ copy, u.stageFile metadataPath = some copy ∧ Snapshot h copy schema)
      (fun _ _ => True) t := by
  refine (snapshotDatabase_untouched ht hprepared).bind fun schema u hu hsnapshot => ?_
  obtain ⟨copy, hcopy, hsnapshot⟩ := hsnapshot
  refine (directory_untouched hu hprepared (by simp) _).bind fun _ v hv hsame => ?_
  obtain ⟨-, rfl⟩ := Prod.mk.inj hsame
  refine Procedure.meets_lift_bind hv (fun _ hschema => ?_) fun _ _ => trivial
  refine (meets_reading readRuntimeSecret_reads hv fun _ => trivial).bind
    fun bytes w hw hbytes => ?_
  obtain ⟨⟨hbytes, hvalid⟩, rfl⟩ := hbytes
  refine (writePrivateFile_untouched hw hprepared secretPath bytes).bind fun _ x hx hadded => ?_
  have hfile : h.file secretPath = some bytes := by
    rw [← hbytes]
    unfold Workbench.file
    rw [hw.source]
  exact Procedure.meets_pure hx ⟨ensure_eq_ok.mp hschema, ⟨bytes, hfile, hadded.filed.self, hvalid⟩,
    copy, hadded.extends _ _ hcopy, hsnapshot⟩

/-- The metadata of a backup, with the versions it lists. -/
structure Listed (h : Workbench σ) (file : Bytes) (records : List ObjectVersionRecord) : Prop where
  snapshot : ∃ copy, Snapshot h copy currentSchemaVersion ∧ MetadataDatabase.opened copy = .ok file
  schema : inspectDatabase file = .ok currentSchemaVersion
  versions : MetadataDatabase.listObjectVersions file = .ok records
  settled : ∀ record ∈ records, record.state ≠ .pending

theorem inspectDatabase_eq_ok {file : Bytes} {schema : ℕ} :
    inspectDatabase file = .ok schema ↔ MetadataDatabase.integrityCheck file = some "ok" ∧
      MetadataDatabase.userVersion file = some schema := by
  simp only [inspectDatabase, bind_eq_ok, ensure_eq_ok, ofOption_eq_ok]
  constructor
  · rintro ⟨integrity, hintegrity, -, rfl, hversion⟩
    exact ⟨hintegrity, hversion⟩
  · rintro ⟨hintegrity, hversion⟩
    exact ⟨"ok", hintegrity, (), rfl, hversion⟩

/-- Opening a file of the current schema leaves the answers to the checks. -/
theorem inspectDatabase_opened {file file' : Bytes}
    (hschema : inspectDatabase file = .ok currentSchemaVersion)
    (hopened : MetadataDatabase.opened file = .ok file') :
    inspectDatabase file' = .ok currentSchemaVersion := by
  obtain ⟨hok, hcurrent⟩ := inspectDatabase_eq_ok.mp hschema
  obtain ⟨hintegrity, hversion⟩ := MetadataDatabase.opened_checks hcurrent hopened
  exact inspectDatabase_eq_ok.mpr ⟨hintegrity.trans hok, hversion.trans hcurrent⟩

/-- A file with a schema is not empty. -/
theorem ne_nil_of_inspectDatabase {file : Bytes}
    (hschema : inspectDatabase file = .ok currentSchemaVersion) : file ≠ [] := by
  rintro rfl
  have hzero := MetadataDatabase.userVersion_nil (inspectDatabase_eq_ok.mp hschema).2
  cases hzero

theorem inventoryRecords_untouched (ht : Untouched h t) (hprepared : h.Prepared) {copy : Bytes}
    (hcopy : t.stageFile metadataPath = some copy)
    (hsnapshot : Snapshot h copy currentSchemaVersion)
    (hsecret : SecretCopied h t) :
    Backup.inventoryRecords.Meets (Workbench.allows k) (Untouched h)
      (fun records u => SecretCopied h u ∧ ∃ file, u.stageFile metadataPath = some file ∧
        Listed h file records) (fun _ _ => True) t := by
  refine (directory_untouched ht hprepared (by simp) _).bind fun file u hu hfile => ?_
  obtain ⟨hfile, rfl⟩ := stageFile_of_openStaged hfile
  obtain rfl : copy = file := Option.some.inj (hcopy.symm.trans hfile)
  refine Procedure.meets_lift_bind hu (fun opened hopened => ?_) fun _ _ => trivial
  refine (directory_untouched hu hprepared (by simp) _).bind fun _ v hv hwrite => ?_
  have hfiled := writeFile_filed hwrite
  refine Procedure.meets_lift_bind hv (fun records hrecords => ?_) fun _ _ => trivial
  refine Procedure.meets_lift_bind hv (fun _ hsettled => ?_) fun _ _ => trivial
  obtain ⟨bytes, hbytes, hstaged, hvalid⟩ := hsecret
  have hopened' := mapError_eq_ok.mp hopened
  refine Procedure.meets_pure hv ⟨⟨bytes, hbytes, hfiled.other (by decide) hstaged, hvalid⟩, opened,
    hfiled.self, ⟨copy, hsnapshot, hopened'⟩, ?_, mapError_eq_ok.mp hrecords,
    ensure_eq_ok.mp hsettled⟩
  obtain ⟨-, -, -, -, hinspect⟩ := hsnapshot
  exact inspectDatabase_opened hinspect hopened'

end Control

/-! ### The objects -/

section Objects

variable [Digest] {G : StorageKey → Bytes → Prop}

/-- What a read of the object storage says: it changes nothing, and the object is one of `G`. -/
def Reads (k : Contract ObjectCommand ObjectCommand.Response σ) (storage : σ)
    (G : StorageKey → Bytes → Prop) : Prop :=
  ∀ key r storage', k (.get key) storage r storage' → storage' = storage ∧
    ∀ metadata content, r = .ok (metadata, content) → G key content

/-- An object of a manifest describes a version. -/
def Describes (record : ObjectVersionRecord) (object : BackupObject) : Prop :=
  record.storageKey = object.storageKey ∧ record.size = some object.size ∧
    record.checksum = some object.checksum

/-- The bytes of an object of a manifest. -/
structure Content (G : StorageKey → Bytes → Prop) (object : BackupObject) (key : StorageKey)
    (content : Bytes) : Prop where
  named : key.asStr = object.storageKey
  size : content.length = object.size
  bound : content.length ≤ u64Max
  checksum : (sha256 content).asStr = object.checksum
  stored : G key content

omit [Digest] in
theorem get_untouched (hread : Reads k h.storage G) (ht : Untouched h t) (key : StorageKey) :
    (object (.get key) mapStorage).Meets (Workbench.allows k) (Untouched h)
      (fun r u => G key r.2 ∧ u = t) (fun _ _ => True) t := by
  refine Procedure.meets_attempt (Workbench.meets_object ht fun r storage hget => ?_)
  rw [ht.storage] at hget
  obtain ⟨hsame, hstored⟩ := hread _ _ _ hget
  have heq : ({ t with storage } : Workbench σ) = t := by
    rw [hsame, ← ht.storage]
  rw [heq]
  refine ⟨ht, ?_⟩
  cases r with
  | ok r => exact ⟨hstored _ _ rfl, rfl⟩
  | error e => trivial

/-- One version: its bytes are added under its key, or the backup fails. -/
theorem copyObject_untouched (hread : Reads k h.storage G) (ht : Untouched h t)
    (hprepared : h.Prepared) (record : ObjectVersionRecord) :
    (Backup.copyObject record).Meets (Workbench.allows k) (Untouched h)
      (fun object u => Describes record object ∧ ∃ key content, Content G object key content ∧
        Added t u (objectPath key) content) (fun _ _ => True) t := by
  refine Procedure.meets_lift_bind ht (fun key hkey => ?_) fun _ _ => trivial
  refine Procedure.meets_lift_bind ht (fun size hsize => ?_) fun _ _ => trivial
  refine Procedure.meets_lift_bind ht (fun value hvalue => ?_) fun _ _ => trivial
  refine Procedure.meets_lift_bind ht (fun checksum hchecksum => ?_) fun _ _ => trivial
  refine (get_untouched hread ht key).bind fun read u hu hget => ?_
  obtain ⟨hstored, rfl⟩ := hget
  refine Procedure.meets_lift_bind hu (fun _ _ => ?_) fun _ _ => trivial
  refine (copyVerified_untouched hu hprepared read.2 (objectPath key)).bind
    fun actual v hv hcopied => ?_
  obtain ⟨⟨hbound, rfl⟩, hadded⟩ := hcopied
  refine Procedure.meets_lift_bind hv (fun _ hsame => ?_) fun _ _ => trivial
  obtain ⟨hlength, hsum⟩ := ensure_eq_ok.mp hsame
  have hasStr : checksum.asStr = value := 
    BackupManifest.checksum_new_eq_ok.mp (mapError_eq_ok.mp hchecksum)
  refine Procedure.meets_pure hv ⟨⟨rfl, ofOption_eq_ok.mp hsize, ?_⟩, key, read.2, ?_, hadded⟩
  · show record.checksum = some checksum.asStr
    rw [hasStr]
    exact ofOption_eq_ok.mp hvalue
  · exact ⟨StorageKey.new_eq_ok.mp (mapError_eq_ok.mp hkey), hlength, hbound, hsum, hstored⟩

/-- The bytes of an object stand in the directory that is built. -/
def Placed (G : StorageKey → Bytes → Prop) (u : Workbench σ) (object : BackupObject) : Prop :=
  ∃ key content, Content G object key content ∧ u.stageFile (objectPath key) = some content

/-- What the loop adds to the directory. -/
structure Copies (G : StorageKey → Bytes → Prop) (t u : Workbench σ)
    (records : List ObjectVersionRecord) (objects : List BackupObject) (bytes bytes' : ℕ) :
    Prop where
  described : List.Forall₂ Describes records objects
  placed : ∀ object ∈ objects, Placed G u object
  distinct : (objects.map BackupObject.storageKey).Nodup
  fresh : ∀ object ∈ objects, ∀ key : StorageKey, key.asStr = object.storageKey →
    ∀ content, t.stageFile (objectPath key) ≠ some content
  total : bytes' = bytes + (objects.map BackupObject.size).sum
  bound : bytes ≤ u64Max → bytes' ≤ u64Max
  kept : Extends t u

theorem copyObjects_untouched (hread : Reads k h.storage G) (ht : Untouched h t)
    (hprepared : h.Prepared) (records : List ObjectVersionRecord) (objects : List BackupObject)
    (bytes : ℕ) :
    (Backup.copyObjects objects bytes records).Meets (Workbench.allows k) (Untouched h)
      (fun r u => ∃ more, r.1 = objects ++ more ∧ Copies G t u records more bytes r.2)
      (fun _ _ => True) t := by
  -- induction on the versions left, for every state the loop may be in
  induction records generalizing t objects bytes with
  | nil =>
    refine Procedure.meets_pure ht ⟨[], (List.append_nil _).symm, .nil, by simp, by simp, by simp,
      by simp, fun hbytes => hbytes, fun _ _ hfile => hfile⟩
  | cons record records ih =>
    rw [Backup.copyObjects]
    refine (copyObject_untouched hread ht hprepared record).bind fun object u hu hobject => ?_
    obtain ⟨hdescribes, key, content, hcontent, hadded⟩ := hobject
    refine Procedure.meets_lift_bind hu (fun bytes' hbytes => ?_) fun _ _ => trivial
    refine (ih hu (objects ++ [object]) bytes').mono (fun r v _ hv => ?_) fun _ _ _ _ => trivial
    obtain ⟨more, hmore, hcopies⟩ := hv
    obtain ⟨rfl, hbound⟩ := checkedAdd_eq_some.mp (ofOption_eq_ok.mp hbytes)
    have hself : u.stageFile (objectPath key) = some content := hadded.filed.self
    refine ⟨object :: more, by rw [hmore, List.append_assoc, List.singleton_append], ?_⟩
    refine ⟨.cons hdescribes hcopies.described, ?_, ?_, ?_, ?_, fun _ => hcopies.bound hbound,
      hadded.extends.trans hcopies.kept⟩
    · intro o ho
      rcases List.mem_cons.mp ho with rfl | ho
      · exact ⟨key, content, hcontent, hcopies.kept _ _ hself⟩
      · exact hcopies.placed o ho
    -- a second object of the key would find its file there
    · rw [List.map_cons, List.nodup_cons]
      refine ⟨fun hmem => ?_, hcopies.distinct⟩
      obtain ⟨o, ho, hkey⟩ := List.mem_map.mp hmem
      exact hcopies.fresh o ho key (hcontent.named.trans hkey.symm) content hself
    · intro o ho key' hkey' content' hfile
      rcases List.mem_cons.mp ho with rfl | ho
      · obtain rfl : key' = key := StorageKey.ext (hkey'.trans hcontent.named.symm)
        exact hadded.fresh content' hfile
      · exact hcopies.fresh o ho key' hkey' content' (hadded.extends _ _ hfile)
    · rw [hcopies.total, List.map_cons, List.sum_cons]
      omega

end Objects

/-! ### Complete backups -/

section Create

variable [Digest] [MetadataDatabase] [ManifestEncoder] {G : StorageKey → Bytes → Prop}

/-- A complete backup of the installation that `h` reads, whose objects are of `G`. -/
structure BackedUp (h : Workbench σ) (G : StorageKey → Bytes → Prop) (b : Directory)
    (manifest : BackupManifest) : Prop where
  valid : manifest.Valid
  schema : manifest.metadataSchemaVersion = currentSchemaVersion
  described : regularAt b manifestPath = some manifest.encode
  metadata : ∃ file records objects, regularAt b metadataPath = some file ∧ Listed h file records ∧
    (file.length ≤ u64Max ∧ (sha256 file).asStr = manifest.metadataSha256) ∧
      List.Forall₂ Describes (records.filter fun record => record.state = .complete) objects ∧
        objects.Perm manifest.objects
  secret : ∃ bytes, h.file secretPath = some bytes ∧ regularAt b secretPath = some bytes ∧
    validSecret .invalidBackup bytes = .ok () ∧
      bytes.length ≤ u64Max ∧ (sha256 bytes).asStr = manifest.runtimeSecretSha256
  objects : ∀ object ∈ manifest.objects, ∃ key content, Content G object key content ∧
    regularAt b (objectPath key) = some content
  total : (manifest.objects.map BackupObject.size).sum ≤ u64Max

/-- A backup is ready to be put in place. -/
def Ready (h : Workbench σ) (G : StorageKey → Bytes → Prop) (u : Workbench σ)
    (manifest : BackupManifest) : Prop :=
  ∃ d, u.stage = some d ∧ BackedUp h G d manifest

omit [MetadataDatabase] [ManifestEncoder] in
theorem hashFile_reads (path : StoragePath) :
    (hashFile path).Meets (Workbench.allows k) (fun u => u = t)
      (fun sum _ => ∃ file, t.stageFile path = some file ∧ file.length ≤ u64Max ∧
        sum = (sha256 file).asStr) (fun _ _ => True) t := by
  refine (directory_reads rfl).bind fun file u hu hfile => ?_
  subst hu
  refine (hashReader_reads file).bind fun hash v hv hhash => ?_
  obtain ⟨hlength, rfl⟩ := hhash
  exact Procedure.meets_pure hv ⟨file, ofOption_eq_ok.mp hfile, hlength, rfl⟩

omit [MetadataDatabase] [ManifestEncoder] in
/-- Every object of the manifest is well formed. -/
theorem Placed.valid {object : BackupObject} (hplaced : Placed G u object) : object.Valid := by
  obtain ⟨key, content, hcontent, -⟩ := hplaced
  exact ⟨hcontent.named ▸ key.valid, hcontent.checksum ▸ (sha256 content).valid⟩

theorem writeManifest_untouched (ht : Untouched h t) (hprepared : h.Prepared) {s : Workbench σ}
    {file : Bytes} {records : List ObjectVersionRecord} {objects : List BackupObject} {bytes : ℕ}
    (hsecret : SecretCopied h t) (hfile : t.stageFile metadataPath = some file)
    (hlisted : Listed h file records)
    (hcopies : Copies G s t (records.filter fun record => record.state = .complete) objects 0
      bytes) :
    (Backup.writeManifest currentSchemaVersion objects).Meets (Workbench.allows k) (Untouched h)
      (fun manifest u => Ready h G u manifest ∧ manifest.objects.Perm objects)
      (fun _ _ => True) t := by
  -- the database and the secret are hashed as they were staged
  refine (meets_reading (hashFile_reads metadataPath) ht fun _ => trivial).bind
    fun metadata u hu hmetadata => ?_
  obtain ⟨⟨file', hfile', hlength, rfl⟩, rfl⟩ := hmetadata
  obtain rfl : file' = file := Option.some.inj (hfile'.symm.trans hfile)
  refine (meets_reading (hashFile_reads secretPath) hu fun _ => trivial).bind
    fun secret v hv hhash => ?_
  obtain ⟨⟨bytes', hbytes', hlength', rfl⟩, rfl⟩ := hhash
  obtain ⟨runtime, hruntime, hstaged, hvalid⟩ := hsecret
  obtain rfl : bytes' = runtime := Option.some.inj (hbytes'.symm.trans hstaged)
  -- the manifest is written beside them, with the objects in the order of their keys
  refine (writePrivateFile_untouched hv hprepared manifestPath _).bind fun _ w hw hadded => ?_
  have hobjects : ∀ object ∈ objects, object.Valid :=
    fun object hobject => (hcopies.placed object hobject).valid
  have hmanifest : (BackupManifest.new currentSchemaVersion (sha256 file').asStr
      (sha256 bytes').asStr objects).Valid :=
    BackupManifest.new_valid (sha256 file').valid (sha256 bytes').valid hobjects hcopies.distinct
  have hperm : (orderBy BackupObject.rank objects).Perm objects := orderBy_perm _ _
  -- the stage is a directory, and what was staged is in it
  obtain ⟨d, d', hd, hd', hfiles⟩ := hadded.filed
  have hregular {path : StoragePath} {content : Bytes} (hpath : w.stageFile path = some content) :
      regularAt d' path = some content := by
    unfold Workbench.stageFile at hpath
    rw [hd'] at hpath
    exact hpath
  refine Procedure.meets_pure hw ⟨⟨d', hd', hmanifest, rfl, hregular hadded.filed.self,
    ⟨file', records, objects, hregular (hadded.extends _ _ hfile), hlisted, ⟨hlength, rfl⟩,
      hcopies.described, hperm.symm⟩,
    ⟨bytes', hruntime, hregular (hadded.extends _ _ hstaged), hvalid, hlength', rfl⟩, ?_, ?_⟩,
    hperm⟩
  -- every object listed was staged
  · intro object hobject
    obtain ⟨key, content, hcontent, hplaced⟩ := hcopies.placed object (hperm.mem_iff.mp hobject)
    exact ⟨key, content, hcontent, hregular (hadded.extends _ _ hplaced)⟩
  -- the total is the sum over the objects, whatever their order
  · have htotal := hcopies.bound (Nat.zero_le _)
    rw [hcopies.total, Nat.zero_add] at htotal
    show ((orderBy BackupObject.rank objects).map BackupObject.size).sum ≤ u64Max
    rw [(hperm.map BackupObject.size).sum_eq]
    exact htotal

/-- The destination is as it was, or it is a complete backup. -/
def Consistent (h : Workbench σ) (G : StorageKey → Bytes → Prop) (t : Workbench σ) : Prop :=
  t.source = h.source ∧ t.storage = h.storage ∧ (t.destination = h.destination ∨
    ∃ b manifest, t.destination = .activated b ∧ BackedUp h G b manifest)

/-- What the directory holds before it is put in place. -/
theorem stage_backup (hread : Reads k h.storage G)
    (ht : Untouched h t) (hprepared : h.Prepared) :
    (do
      let inspection ← Backup.stageControlFiles
      let records ← Backup.inventoryRecords
      let staged ← Backup.stageObjects records
      let manifest ← Backup.writeManifest inspection staged.1
      pure (inspection, manifest, staged.2)).Meets (Workbench.allows k) (Untouched h)
      (fun r u => Ready h G u r.2.1 ∧ r.1 = currentSchemaVersion ∧
        r.2.2 = (r.2.1.objects.map BackupObject.size).sum)
      (fun _ _ => True) t := by
  -- the database and the secret first
  refine (stageControlFiles_untouched ht hprepared).bind fun schema u hu hcontrol => ?_
  obtain ⟨rfl, hsecret, copy, hcopy, hsnapshot⟩ := hcontrol
  -- then the records of the database that was staged
  refine (inventoryRecords_untouched hu hprepared hcopy hsnapshot hsecret).bind
    fun records v hv hrecords => ?_
  obtain ⟨hsecret, file, hfile, hlisted⟩ := hrecords
  -- each complete record has its object copied, in the order of the records
  have hstage : (Backup.stageObjects records).Meets (Workbench.allows k) (Untouched h)
      (fun r w => Copies G v w (records.filter fun record => record.state = .complete) r.1 0 r.2)
      (fun _ _ => True) v := by
    refine (directory_untouched hv hprepared (by simp) _).bind fun _ w hw hopen => ?_
    obtain ⟨-, rfl⟩ := Prod.mk.inj hopen
    refine (copyObjects_untouched hread hw hprepared _ [] 0).mono (fun r x _ hx => ?_)
      fun _ _ _ _ => trivial
    obtain ⟨more, hmore, hcopies⟩ := hx
    rw [hmore]
    exact hcopies
  refine hstage.bind fun staged w hw hcopies => ?_
  obtain ⟨bytes, hbytes, hstaged, hvalid⟩ := hsecret
  -- the manifest last
  refine (writeManifest_untouched hw hprepared
    ⟨bytes, hbytes, hcopies.kept _ _ hstaged, hvalid⟩ (hcopies.kept _ _ hfile) hlisted hcopies).bind
      fun manifest x hx hready => ?_
  refine Procedure.meets_pure hx ⟨hready.1, rfl, ?_⟩
  show staged.2 = _
  rw [hcopies.total, Nat.zero_add, (hready.2.map BackupObject.size).sum_eq]

/-- A backup, at every moment and at its end. -/
theorem create_meets (hread : Reads k h.storage G) (hprepared : h.Prepared) :
    Backup.create.Meets (Workbench.allows k) (Consistent h G)
      (fun report u => ∃ b manifest, u.destination = .activated b ∧ BackedUp h G b manifest ∧
        report.metadataSchemaVersion = currentSchemaVersion ∧
          report.objects = manifest.objects.length ∧
            report.bytes = (manifest.objects.map BackupObject.size).sum)
      (fun _ u => u.destination = h.destination) h := by
  -- as long as nothing is activated, the source and the storage are as they were
  have hconsistent (u : Workbench σ) (hu : Untouched h u) : Consistent h G u :=
    ⟨hu.source, hu.storage, Or.inl hu.destination⟩
  have hprepare := Untouched.refl h
  -- the destination is checked before anything is created
  have hchecked : validateDirectory.Meets (Workbench.allows k) (Untouched h)
      (fun _ u => Untouched h u) (fun _ u => u.destination = h.destination) h :=
    (directory_untouched hprepare hprepared (by simp) _).mono (fun _ _ hu _ => hu)
      fun _ u hu _ => hu.destination
  refine (hchecked.weaken hconsistent).bind fun _ t _ ht => ?_
  -- the stage is created beside it
  have hcreated : createStage.Meets (Workbench.allows k) (Untouched h)
      (fun _ u => Untouched h u) (fun _ u => u.destination = h.destination) t :=
    (createStage_untouched ht hprepared).mono (fun _ _ hu _ => hu) fun _ u hu _ => hu.destination
  refine (hcreated.weaken hconsistent).bind fun _ u _ hu => ?_
  -- a failure while the stage is filled removes the stage
  have hstaged := (dropOnError_untouched hprepared (stage_backup hread hu hprepared)).mono
    (Q := fun r v => Untouched h v ∧ Ready h G v r.2.1 ∧ r.1 = currentSchemaVersion ∧
      r.2.2 = (r.2.1.objects.map BackupObject.size).sum)
    (F := fun _ v => v.destination = h.destination) (fun _ _ hv hr => ⟨hv, hr⟩)
    fun _ v hv _ => hv.destination
  refine (hstaged.weaken hconsistent).bind fun staged v _ hv => ?_
  obtain ⟨hv, ⟨d, hd, hbacked⟩, hschema, hbytes⟩ := hv
  -- the rename is the moment from which there is a backup
  have hpersist : (persistStageWithCleanup (pure ())).Meets (Workbench.allows k) (Consistent h G)
      (fun _ w => w.destination = .activated d) (fun _ w => w.destination = h.destination) v := by
    refine persistStageWithCleanup_meets (R := fun w => w = v) hd (hconsistent v hv)
      ⟨⟨hv.source, hv.storage, Or.inr ⟨d, staged.2.1, rfl, hbacked⟩⟩, rfl⟩
      (Procedure.meets_pure (hconsistent v hv) rfl) fun w hw hsame => ?_
    subst hsame
    exact Workbench.meets_directory hw ⟨hconsistent _ (hv.perform hprepared (by simp)),
      hv.destination⟩ hv.destination
  refine hpersist.bind fun _ w hw hdone => ?_
  exact Procedure.meets_pure hw ⟨d, staged.2.1, hdone, hbacked, hschema, rfl, hbytes⟩

/-! ### Backups are restored -/

omit [Digest] [MetadataDatabase] [ManifestEncoder] in
/-- Sizes with a sum of 64 bits are added up. -/
theorem foldlM_sizes (objects : List BackupObject) (total : ℕ)
    (hbound : total + (objects.map BackupObject.size).sum ≤ u64Max) :
    objects.foldlM (fun total object =>
      ofOption RecoveryError.integrity (checkedAdd total object.size)) total =
        .ok (total + (objects.map BackupObject.size).sum) := by
  induction objects generalizing total with
  | nil => rfl
  | cons object objects ih =>
    rw [List.map_cons, List.sum_cons] at hbound ⊢
    have hadd : checkedAdd total object.size = some (total + object.size) :=
      checkedAdd_eq_some.mpr ⟨rfl, by omega⟩
    rw [List.foldlM_cons, hadd]
    show objects.foldlM _ (total + object.size) = _
    rw [ih (total + object.size) (by omega), Nat.add_assoc]

/-- A complete backup passes all checks of a restore that reads it. -/
theorem BackedUp.verified {b : Directory} {manifest : BackupManifest}
    (hbacked : BackedUp h G b manifest) {τ : Type} {s : Workbench τ} (hs : s.source = some b) :
    Verified s manifest ∧
      Restore.totalBytes manifest = .ok (manifest.objects.map BackupObject.size).sum := by
  -- a file of the directory is what a restore reads
  have hfile {path : StoragePath} {content : Bytes} (hpath : regularAt b path = some content) :
      s.file path = some content := by
    unfold Workbench.file
    rw [hs, Option.bind_some, hpath]
  obtain ⟨file, records, objects, hmetadata, hlisted, ⟨-, hsum⟩, -⟩ := hbacked.metadata
  obtain ⟨secret, -, hsecret, hvalid, -, hsum'⟩ := hbacked.secret
  -- the sizes fit the decoder
  have hsizes : ∀ object ∈ manifest.objects, object.size ≤ u64Max := by
    intro object hobject
    obtain ⟨key, content, hcontent, -⟩ := hbacked.objects object hobject
    rw [← hcontent.size]
    exact hcontent.bound
  have hdecode : BackupManifest.decode manifest.encode = .ok manifest :=
    BackupManifest.decode_encode hbacked.valid (by rw [hbacked.schema]; decide) hsizes
  -- what the restore checks is what was written
  refine ⟨⟨⟨_, hfile hbacked.described, hdecode⟩, ?_, ?_, ⟨file, hfile hmetadata, hsum, ?_⟩,
    ⟨secret, hfile hsecret, hsum', hvalid⟩⟩, ?_⟩
  · rw [hbacked.schema]
    decide
  · rw [hbacked.schema]
  · rw [hbacked.schema]
    exact hlisted.schema
  · have htotal := foldlM_sizes manifest.objects 0 (by rw [Nat.zero_add]; exact hbacked.total)
    rw [Nat.zero_add] at htotal
    exact htotal

end Create

/-! ### The law -/

section Law

variable [Digest] [MetadataDatabase] [ManifestEncoder] {h : Workbench Namespace}

/-- The bytes are those the storage has under the key. -/
def StoredIn (h : Workbench Namespace) (key : StorageKey) (content : Bytes) : Prop :=
  h.storage key = some content

omit [MetadataDatabase] [ManifestEncoder] in
theorem reads_allows : Reads Namespace.allows h.storage (StoredIn h) := by
  intro key r storage hget
  exact ⟨hget.2, fun metadata content hr => hget.1 metadata content hr⟩

/-- A backup never changes the installation it reads and never leaves a part of a backup at its
destination: wherever it stops, the destination is as it was or a complete backup.  It reports
success with a complete backup, and after a failure the destination is as it was.  A complete backup
passes all checks of a restore. -/
theorem backup_law (hprepared : h.Prepared) :
    (∀ t, Backup.create.program.Stops (Workbench.allows Namespace.allows) h t →
      Consistent h (StoredIn h) t) ∧
      (∀ report t,
        Backup.create.program.Runs (Workbench.allows Namespace.allows) h (.ok report) t →
          ∃ b manifest, t.destination = .activated b ∧ BackedUp h (StoredIn h) b manifest ∧
            report.metadataSchemaVersion = currentSchemaVersion ∧
              report.objects = manifest.objects.length ∧
                report.bytes = (manifest.objects.map BackupObject.size).sum) ∧
      (∀ error t,
        Backup.create.program.Runs (Workbench.allows Namespace.allows) h (.error error) t →
          t.destination = h.destination) ∧
      ∀ b manifest, BackedUp h (StoredIn h) b manifest → ∀ s : Workbench Namespace,
        s.source = some b → Verified s manifest ∧
          Restore.totalBytes manifest = .ok (manifest.objects.map BackupObject.size).sum := by
  have hmeets := create_meets reads_allows hprepared
  refine ⟨fun t hstops => ?_, fun report t hruns => ?_, fun error t hruns => ?_,
    fun b manifest hbacked s hs => ?_⟩
  · exact Program.Meets.stops hmeets hstops
  · exact (hmeets.ok hruns).2
  · exact (hmeets.error hruns).2
  · exact hbacked.verified hs

end Law

section Garden

attribute [local instance] gardenDigest gardenDatabase gardenEncoder

theorem garden_succeeds : (Backup.create.exec filesystemCalls garden).1.isOk = true := by
  decide +kernel

/-- The backup of the garden is complete. -/
theorem backup_garden :
    ∃ b manifest, (Backup.create.exec filesystemCalls garden).2.destination = .activated b ∧
      BackedUp (garden.map Filesystem.contents) (StoredIn (garden.map Filesystem.contents)) b
        manifest := by
  have hprepared : (garden.map Filesystem.contents).Prepared := by
    rintro _ ⟨⟩
  obtain ⟨report, hreport⟩ := exists_ok garden_succeeds
  have hruns := runs_objects Backup.create garden
  rw [hreport] at hruns
  obtain ⟨b, manifest, hdestination, hbacked, -⟩ := (backup_law hprepared).2.1 report _ hruns
  exact ⟨b, manifest, hdestination, hbacked⟩

end Garden
end BlobYard
