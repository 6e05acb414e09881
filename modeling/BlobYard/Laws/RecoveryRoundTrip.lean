/-
A backup that is restored.

Here the commands work with the filesystem provider and no call fails.  A complete backup is always
accepted, and all its objects are imported.  What decides is the last check: the inventory, which
lists the objects by the components of their paths, is compared with the manifest, which lists them
by the texts of their keys.  The two orders differ exactly on inverted pairs of paths.

* `exec_validateBackup`, `exec_copyControlFiles`, `exec_createStage` — the steps before the import;
* `Loaded`, `exec_restoreObjects` — the import;
* `roundTrip_law` — what is backed up is restored, unless two keys are inverted.
-/
import BlobYard.Laws.Backups

namespace BlobYard

open Outcome FileTree Recovery FilesystemStorage

theorem ensure_of {c : Prop} [Decidable c] {e : RecoveryError} (h : c) : ensure c e = .ok () :=
  ensure_eq_ok.mpr h

section Calls

variable [Digest]

variable {s t : Workbench Filesystem}

theorem exec_directory {c : DirectoryCommand} {a : c.Value} (error : RecoveryError)
    (h : c.perform s = (.ok a, t)) :
    (directory c error).exec filesystemCalls s = (.ok a, t) := by
  rw [directory, Procedure.exec_attempt]
  show ((c.perform s).1.mapError _, (c.perform s).2) = _
  rw [h]
  rfl

theorem exec_object {c : ObjectCommand} {a : c.Value} {storage : Filesystem}
    (rename : StorageError → RecoveryError) (h : objects.perform c s.storage = (.ok a, storage)) :
    (object c rename).exec filesystemCalls s = (.ok a, { s with storage }) := by
  rw [object, Procedure.exec_attempt]
  show ((objects.perform c s.storage).1.mapError rename,
    { s with storage := (objects.perform c s.storage).2 }) = _
  rw [h]
  rfl

/-! ### Reading the backup -/

theorem exec_openSecureFile {path : StoragePath} {content : Bytes}
    (hfile : s.file path = some content) :
    (openSecureFile path).exec filesystemCalls s = (.ok content, s) := by
  refine exec_directory _ ?_
  show (ofOption () (s.file path), s) = _
  rw [hfile]
  rfl

theorem exec_readSecureFile {path : StoragePath} {content : Bytes}
    (hfile : s.file path = some content) :
    (readSecureFile path).exec filesystemCalls s = (.ok content, s) := by
  rw [readSecureFile, Procedure.exec_then (exec_openSecureFile hfile)]
  exact exec_directory _ rfl

theorem streamHash_ok {content : Bytes} (hlength : content.length ≤ u64Max) :
    streamHash content = .ok (content.length, (sha256 content).asStr) :=
  streamHash_eq_ok.mpr ⟨hlength, rfl⟩

theorem exec_hashReader {content : Bytes} (hlength : content.length ≤ u64Max) :
    (hashReader content).exec filesystemCalls s =
      (.ok (content.length, (sha256 content).asStr), s) := by
  have hread : (directory (.read content) .storage).exec filesystemCalls s = (.ok content, s) :=
    exec_directory _ rfl
  rw [hashReader, Procedure.exec_then hread, Procedure.exec_lift, streamHash_ok hlength]

theorem exec_verifyHash {path : StoragePath} {content : Bytes} {expected : String}
    (hfile : s.file path = some content) (hlength : content.length ≤ u64Max)
    (hhash : (sha256 content).asStr = expected) :
    (Restore.verifyHash path expected).exec filesystemCalls s = (.ok (), s) := by
  rw [Restore.verifyHash, Procedure.exec_then (exec_openSecureFile hfile),
    Procedure.exec_then (exec_hashReader hlength), Procedure.exec_lift, ensure_of hhash]

/-- The files of a backup can be hashed. -/
structure Sized (s : Workbench Filesystem) : Prop where
  metadata : ∀ file, s.file metadataPath = some file → file.length ≤ u64Max
  secret : ∀ file, s.file secretPath = some file → file.length ≤ u64Max

theorem exec_validateBackup [MetadataDatabase] [ManifestEncoder] {manifest : BackupManifest}
    (hverified : Verified s manifest) (hsized : Sized s) :
    Restore.validateBackup.exec filesystemCalls s = (.ok manifest, s) := by
  obtain ⟨bytes, hbytes, hdecoded⟩ := hverified.decoded
  obtain ⟨metadata, hmetadata, hhash, hschema⟩ := hverified.metadata
  obtain ⟨secret, hsecret, hhash', hvalid⟩ := hverified.secret
  -- the manifest is read and decoded
  have hread : Restore.readManifest.exec filesystemCalls s = (.ok manifest, s) := by
    rw [Restore.readManifest, Procedure.exec_then (exec_readSecureFile hbytes),
      Procedure.exec_lift, hdecoded]
  -- the metadata opens as a database of a schema that is known
  have hopen : (directory (.openSource metadataPath) .database).exec filesystemCalls s =
      (.ok metadata, s) := by
    refine exec_directory _ ?_
    show (ofOption () (s.file metadataPath), s) = _
    rw [hmetadata]
    rfl
  have hinspected : ((inspectDatabase metadata).mapError fun _ => RecoveryError.database) =
      .ok manifest.metadataSchemaVersion := mapError_eq_ok.mpr hschema
  -- and every other check of the backup is a field of `Verified`
  rw [Restore.validateBackup, Procedure.exec_then hread,
    Procedure.exec_lift_then (ensure_of hverified.oldest),
    Procedure.exec_lift_then (ensure_of hverified.newest),
    Procedure.exec_then (exec_verifyHash hmetadata (hsized.metadata _ hmetadata) hhash),
    Procedure.exec_then (exec_verifyHash hsecret (hsized.secret _ hsecret) hhash'),
    Procedure.exec_then (exec_openSecureFile hmetadata), Procedure.exec_then hopen,
    Procedure.exec_lift_then hinspected, Procedure.exec_lift_then (ensure_of rfl),
    Procedure.exec_then (exec_readSecureFile hsecret), Procedure.exec_lift_then hvalid,
    Procedure.exec_pure]

/-! ### Building the installation -/

/-- A new directory, next to a destination where nothing stands. -/
theorem exec_createStage (habsent : s.destination = .absent) :
    createStage.exec filesystemCalls s =
      (.ok (), { s with stage := some .empty, storage := s.within.getD s.storage }) := by
  have hfound : ((directory .destinationExists .persistence).recover fun _ =>
      (pure false : Recovery Bool)).exec filesystemCalls s = (.ok false, s) := by
    have hcall : (directory .destinationExists .persistence).exec filesystemCalls s =
        (.ok false, s) := by
      refine exec_directory (c := .destinationExists) _ ?_
      -- The answer is read off the destination, so the workbench is taken apart first.
      obtain ⟨source, stage, destination, storage, within⟩ := s
      cases habsent
      rfl
    rw [Procedure.exec_recover, hcall]
    rfl
  have hparent : (directory .createParent .persistence).exec filesystemCalls s = (.ok (), s) :=
    exec_directory _ rfl
  have hstage : (directory .createStage .persistence).exec filesystemCalls s =
      (.ok (), { s with stage := some .empty, storage := s.within.getD s.storage }) :=
    exec_directory _ rfl
  rw [createStage, Procedure.exec_then hfound, Procedure.exec_lift_then (ensure_of rfl),
    Procedure.exec_then hparent, Procedure.exec_then hstage, dropOnError, Procedure.exec_recover]
  rfl

omit [Digest] in
/-- A file of the top of a directory is added where nothing stands; other names are left. -/
theorem exists_added {d : Directory} {name : List Char} (hmissing : d.root.lookup [name] = .missing)
    (content : Bytes) :
    ∃ d₁ d₂, DirectoryCommand.createStaged [name] [] d = .ok d₁ ∧
      DirectoryCommand.replaceStaged [name] content d₁ = .ok d₂ ∧
        ∀ other, other ≠ name → d₂.root.lookup [other] = d.root.lookup [other] := by
  obtain ⟨d₁, hcreate, hfile⟩ := Tree.exists_file hmissing (.regular [])
  obtain ⟨d₀, hremove, hmissing'⟩ := Tree.exists_remove hfile
  obtain ⟨d₂, hcreate', -⟩ := Tree.exists_file hmissing' (.regular content)
  have hparents : d.makeDirs [name].dropLast = .ok d := by
    show d.makeDirs [] = .ok d
    rw [Tree.makeDirs, show d.root.lookup [] = .directory from rfl]
  refine ⟨d₁, d₂, bind_eq_ok.mpr ⟨d, hparents, hcreate⟩, bind_eq_ok.mpr ⟨d₀, hremove, hcreate'⟩,
    fun other hother => ?_⟩
  have hbelow : ¬[name] <+: [other] := fun hprefix =>
    hother (List.cons_prefix_cons.mp hprefix).1.symm
  have habove : ¬[other] <+: [name] := fun hprefix =>
    hother (List.cons_prefix_cons.mp hprefix).1
  rw [(Tree.create_ok hcreate').2,
    Forest.lookup_place_beside (by rw [hmissing']; simp) habove hbelow, (Tree.remove_ok hremove).2,
    Forest.lookup_drop_of_not_below hfile hbelow, (Tree.create_ok hcreate).2,
    Forest.lookup_place_beside (by rw [hmissing]; simp) habove hbelow]

/-- One control file is copied. -/
theorem exec_copyControlFile {d d₁ d₂ : Directory} {path : StoragePath} {content : Bytes}
    {checksum : String} (hfile : s.file path = some content) (hlength : content.length ≤ u64Max)
    (hnonempty : content ≠ []) (hhash : (sha256 content).asStr = checksum)
    (hstage : s.stage = some d) (hcreate : DirectoryCommand.createStaged path [] d = .ok d₁)
    (hreplace : DirectoryCommand.replaceStaged path content d₁ = .ok d₂) :
    (Restore.copyControlFile path checksum).exec filesystemCalls s =
      (.ok (), { s with stage := some d₂ }) := by
  -- the file is created empty, read again and then written as a whole
  have hcreated : (directory (.createFile path) .persistence).exec filesystemCalls s =
      (.ok (), { s with stage := some d₁ }) := by
    refine exec_directory (c := .createFile path) _ ?_
    simp only [DirectoryCommand.perform, DirectoryCommand.restage, hstage, hcreate]
  have hsame : (directory .setPermissions .persistence).exec filesystemCalls
      { s with stage := some d₁ } = (.ok (), { s with stage := some d₁ }) := exec_directory _ rfl
  have hread : (directory (.read content) .storage).exec filesystemCalls
      { s with stage := some d₁ } = (.ok content, { s with stage := some d₁ }) :=
    exec_directory _ rfl
  have hwritten : (directory (.writeFile path content) .persistence).exec filesystemCalls
      { s with stage := some d₁ } = (.ok (), { s with stage := some d₂ }) := by
    refine exec_directory (c := .writeFile path content) _ ?_
    simp only [DirectoryCommand.perform, DirectoryCommand.restage, hreplace]
  have hcopy : (copyVerified content path).exec filesystemCalls s =
      (.ok (content.length, (sha256 content).asStr), { s with stage := some d₂ }) := by
    rw [copyVerified, Procedure.exec_then hcreated, Procedure.exec_then hsame,
      Procedure.exec_then hread, Procedure.exec_then hwritten, Procedure.exec_lift,
      streamHash_ok hlength]
  -- the copy is accepted: it is not empty and has the checksum
  have hsize : content.length ≠ 0 := fun hzero => hnonempty (List.length_eq_zero_iff.mp hzero)
  rw [Restore.copyControlFile, Procedure.exec_then (exec_openSecureFile hfile),
    Procedure.exec_then hcopy, Procedure.exec_lift, ensure_of ⟨hsize, hhash⟩]

theorem exec_copyControlFiles {manifest : BackupManifest} {metadata secret : Bytes}
    (hstage : s.stage = some .empty) (hsized : Sized s)
    (hmetadata : s.file metadataPath = some metadata) (hnonempty : metadata ≠ [])
    (hhash : (sha256 metadata).asStr = manifest.metadataSha256)
    (hsecret : s.file secretPath = some secret) (hnonempty' : secret ≠ [])
    (hhash' : (sha256 secret).asStr = manifest.runtimeSecretSha256) :
    ∃ d, (Restore.copyControlFiles manifest).exec filesystemCalls s =
      (.ok (), { s with stage := some d }) := by
  have hempty : (Tree.empty : Directory).root.lookup ["metadata.sqlite3".toList] = .missing := rfl
  obtain ⟨d₁, d₂, hcreate, hreplace, hothers⟩ := exists_added hempty metadata
  have hmissing : d₂.root.lookup ["runtime.secret".toList] = .missing := by
    rw [hothers _ (by decide)]
    rfl
  obtain ⟨d₃, d, hcreate', hreplace', -⟩ := exists_added hmissing secret
  have hfirst := exec_copyControlFile hmetadata (hsized.metadata _ hmetadata) hnonempty hhash hstage
    hcreate hreplace
  have hsecond := exec_copyControlFile (s := { s with stage := some d₂ }) hsecret
    (hsized.secret _ hsecret) hnonempty' hhash' rfl hcreate' hreplace'
  refine ⟨d, ?_⟩
  rw [Restore.copyControlFiles, Procedure.exec_then hfirst]
  exact hsecond

end Calls

/-! ### The import -/

/-- The provider has an object under the key, and a description of it. -/
def HeldBy (home : Filesystem) (key : StorageKey) (content : Bytes) : Prop :=
  home.objects.fileAt key.path = some content ∧
    ∃ metadata, home.metadata.fileAt key.metadataPath = some metadata

/-- The provider has objects and descriptions of these keys, and no others. -/
structure Loaded (keys : List StorageKey) (fs : Filesystem) : Prop where
  populated : Populated fs
  object : ∀ path, (∃ content, fs.objects.fileAt path = some content) ↔
    ∃ key ∈ keys, key.path = path
  description : ∀ path, (∃ metadata, fs.metadata.fileAt path = some metadata) ↔
    ∃ key ∈ keys, key.metadataPath = path

theorem loaded_fresh : Loaded [] Filesystem.fresh where
  populated := populated_fresh
  object path := by
    cases path <;> simp [Filesystem.fresh, Tree.empty, Tree.fileAt, Forest.fileAt, Forest.lookup,
      Forest.find?]
  description path := by
    cases path <;> simp [Filesystem.fresh, Tree.empty, Tree.fileAt, Forest.fileAt, Forest.lookup,
      Forest.find?]

variable {home fs fs' : Filesystem} {keys : List StorageKey} {key : StorageKey} {content : Bytes}

/-- Where a file is added, one more path has a file. -/
theorem exists_file_iff {γ : Type} {now before : StoragePath → Option γ} {added : StoragePath}
    {c : γ} (h : ∀ path, now path = if path = added then some c else before path)
    (path : StoragePath) :
    (∃ content, now path = some content) ↔
      (∃ content, before path = some content) ∨ added = path := by
  rw [h]
  by_cases heq : path = added
  · simp [heq]
  · simp [heq, Ne.symm heq]

section Put

variable [Digest]

theorem Loaded.put (hloaded : Loaded keys fs) {expected : Option ObjectChecksum}
    {metadata : StorageMetadata}
    (hput : (FilesystemStorage.put key content expected).exec Filesystem.machine fs =
      (.ok metadata, fs')) : Loaded (keys ++ [key]) fs' := by
  have hstored := (put_spec hput).2.2
  have hmore (toPath : StorageKey → StoragePath) (path : StoragePath) :
      (∃ k ∈ keys ++ [key], toPath k = path) ↔
        (∃ k ∈ keys, toPath k = path) ∨ toPath key = path := by
    simp [or_and_right, exists_or]
  refine ⟨hloaded.populated.put hput, fun path => ?_, fun path => ?_⟩
  · rw [exists_file_iff hstored.object, hloaded.object, hmore]
  · rw [exists_file_iff hstored.description, hloaded.description, hmore]

/-- Another object that stood beside these can be put there, too. -/
theorem Loaded.exists_put (hloaded : Loaded keys fs) (hkeys : ∀ k ∈ keys, ∃ c, HeldBy home k c)
    (hheld : HeldBy home key content) (hnew : key ∉ keys) (hlength : content.length ≤ u64Max) :
    ∃ fs', (FilesystemStorage.put key content (some (sha256 content))).exec Filesystem.machine fs =
      (.ok ⟨content.length, sha256 content⟩, fs') := by
  obtain ⟨hobject, metadata, hdescription⟩ := hheld
  refine FilesystemStorage.exists_put hloaded.populated (hashed_eq_ok.mpr ⟨hlength, rfl⟩)
    (by rintro _ ⟨⟩; rfl) (fun path c hfile => ?_) fun path m hfile => ?_
  -- both stood in one tree, so neither is above the other
  · obtain ⟨k, hk, rfl⟩ := (hloaded.object path).mp ⟨c, hfile⟩
    obtain ⟨c', hc', -⟩ := hkeys k hk
    have hne : k.path ≠ key.path := fun heq => hnew (StorageKey.path_injective heq ▸ hk)
    exact ⟨fun habove => hne (Forest.eq_of_files hobject hc' habove),
      fun hbelow => hne (Forest.eq_of_files hc' hobject hbelow).symm⟩
  · obtain ⟨k, hk, rfl⟩ := (hloaded.description path).mp ⟨m, hfile⟩
    obtain ⟨-, -, m', hm'⟩ := hkeys k hk
    have hne : k.metadataPath ≠ key.metadataPath :=
      fun heq => hnew (StorageKey.metadataPath_injective heq ▸ hk)
    exact ⟨fun habove => hne (Forest.eq_of_files hdescription hm' habove),
      fun hbelow => hne (Forest.eq_of_files hm' hdescription hbelow).symm⟩

end Put

section Import

variable [Digest] {s : Workbench Filesystem}

/-- One object is imported. -/
theorem exec_importObject {object : BackupObject} {G : StorageKey → Bytes → Prop}
    (hcontent : Content G object key content) (hfile : s.file (objectPath key) = some content)
    (hput : (FilesystemStorage.put key content (some (sha256 content))).exec Filesystem.machine
      s.storage = (.ok ⟨content.length, sha256 content⟩, fs')) :
    (Restore.importObject object).exec filesystemCalls s =
      (.ok (key, sha256 content, ⟨content.length, sha256 content⟩), { s with storage := fs' }) := by
  have hkey := BackupManifest.storageKey_eq_ok.mpr hcontent.named
  have hchecksum := BackupManifest.checksum_eq_ok.mpr hcontent.checksum
  rw [Restore.importObject, Procedure.exec_lift_then hkey, Procedure.exec_lift_then hchecksum,
    Procedure.exec_then (exec_openSecureFile hfile),
    Procedure.exec_then (exec_hashReader hcontent.bound),
    Procedure.exec_lift_then (ensure_of ⟨hcontent.size, hcontent.checksum⟩),
    Procedure.exec_then (exec_openSecureFile hfile)]
  have hcall := exec_object (c := .put key content (some (sha256 content)))
    (fun _ => RecoveryError.storage) hput
  rw [Procedure.exec_then hcall]
  rfl

/-- The loop goes on to its end: all objects are imported. -/
theorem exec_restoreObjects {b : Directory} (objects : List BackupObject)
    (imported : List StorageKey) (hsource : s.source = some b)
    (hobjects : ∀ object ∈ objects, ∃ key content, Content (HeldBy home) object key content ∧
      regularAt b (objectPath key) = some content)
    (himported : ∀ key ∈ imported, ∃ content, HeldBy home key content)
    (hdistinct : (imported.map StorageKey.asStr ++ objects.map BackupObject.storageKey).Nodup)
    (hloaded : Loaded imported s.storage) :
    ∃ keys fs, keys.map StorageKey.asStr = objects.map BackupObject.storageKey ∧
      Loaded (imported ++ keys) fs ∧
        (Restore.restoreObjects imported objects).exec filesystemCalls s =
          (Restore.restoreObjects (imported ++ keys) []).exec filesystemCalls
            { s with storage := fs } := by
  -- induction on the objects left, for every state the loop may be in
  induction objects generalizing imported s with
  | nil => exact ⟨[], s.storage, rfl, by rwa [List.append_nil], by rw [List.append_nil]⟩
  | cons object objects ih =>
    obtain ⟨key, content, hcontent, hregular⟩ := hobjects object List.mem_cons_self
    have hnew : key ∉ imported := by
      intro hkey
      have hdisjoint := (List.nodup_append.mp hdistinct).2.2
      exact hdisjoint _ (List.mem_map_of_mem hkey) _ List.mem_cons_self hcontent.named
    obtain ⟨fs₁, hput⟩ := hloaded.exists_put himported hcontent.stored hnew hcontent.bound
    have hfile : s.file (objectPath key) = some content := by
      unfold Workbench.file
      rw [hsource, Option.bind_some, hregular]
    have himport : (Restore.importObject object).program.exec filesystemCalls s =
        (.ok (key, sha256 content, ⟨content.length, sha256 content⟩), { s with storage := fs₁ }) :=
      exec_importObject hcontent hfile hput
    have hchecked : ¬(content.length ≠ object.size ∨ sha256 content ≠ sha256 content) := by
      rintro (hbad | hbad)
      · exact hbad hcontent.size
      · exact hbad rfl
    have hstep : (Restore.restoreObjects imported (object :: objects)).exec filesystemCalls s =
        (Restore.restoreObjects (imported ++ [key]) objects).exec filesystemCalls
          { s with storage := fs₁ } := by
      rw [Restore.restoreObjects, Program.exec_bind, himport]
      show (if content.length ≠ object.size ∨ sha256 content ≠ sha256 content then _ else _ :
        WorkbenchProgram _).exec filesystemCalls { s with storage := fs₁ } = _
      rw [if_neg hchecked]
    have himported' : ∀ k ∈ imported ++ [key], ∃ content, HeldBy home k content := by
      intro k hk
      rcases List.mem_append.mp hk with hk | hk
      · exact himported k hk
      · rw [List.mem_singleton.mp hk]
        exact ⟨content, hcontent.stored⟩
    have hdistinct' : ((imported ++ [key]).map StorageKey.asStr ++
        objects.map BackupObject.storageKey).Nodup := by
      rw [List.map_append, List.map_singleton, hcontent.named, List.append_assoc,
        List.singleton_append]
      exact hdistinct
    obtain ⟨keys, fs', hkeys, hloaded', hrest⟩ := ih (s := { s with storage := fs₁ })
      (imported ++ [key]) hsource (fun o ho => hobjects o (List.mem_cons_of_mem object ho))
      himported' hdistinct' (hloaded.put hput)
    rw [List.append_assoc, List.singleton_append] at hloaded' hrest
    refine ⟨key :: keys, fs', ?_, hloaded', hstep.trans hrest⟩
    rw [List.map_cons, List.map_cons, hkeys, hcontent.named]

end Import

/-! ### The comparison -/

/-- No two of these keys have paths that are in the other order as texts. -/
def Upright (K : StorageKey → Prop) : Prop :=
  ∀ a b, K a → K b → ¬PathOrder.Inverted '/' a.path b.path

/-- A list in the order of the paths is the list in the order of the texts unless there is an
inverted pair. -/
theorem inventory_eq_iff {physical keys : List StorageKey}
    (hsame : ∀ key, key ∈ physical ↔ key ∈ keys)
    (hphysical : (physical.map StorageKey.path).Pairwise (· < ·))
    (hkeys : (keys.map StorageKey.asStr).Pairwise (· < ·)) :
    physical = keys ↔ Upright (· ∈ keys) := by
  -- no component of a path has a slash, so texts are compared at the first difference
  have hproper : ∀ path ∈ physical.map StorageKey.path, PathOrder.Proper '/' path := by
    intro path hpath
    obtain ⟨key, -, rfl⟩ := List.mem_map.mp hpath
    exact key.path_proper
  have hjoin := PathOrder.pairwise_join_iff hproper hphysical
  have htexts : (physical.map StorageKey.path).map (PathOrder.join '/') =
      physical.map fun key => key.asStr.toList := by
    rw [List.map_map]
    exact List.map_congr_left fun key _ => key.join_path
  -- upright means that the list is ascending as texts too
  have hupright : Upright (· ∈ keys) ↔ (physical.map fun key => key.asStr.toList).Pairwise
      (· < ·) := by
    rw [← htexts, hjoin]
    constructor
    · intro hnone p hp q hq
      obtain ⟨a, ha, rfl⟩ := List.mem_map.mp hp
      obtain ⟨b, hb, rfl⟩ := List.mem_map.mp hq
      exact hnone a b ((hsame a).mp ha) ((hsame b).mp hb)
    · intro hnone a b ha hb
      exact hnone _ (List.mem_map_of_mem ((hsame a).mpr ha)) _
        (List.mem_map_of_mem ((hsame b).mpr hb))
  rw [hupright, List.pairwise_map]
  rw [List.pairwise_map] at hkeys
  have hkeys' : keys.Pairwise fun a b => a.asStr.toList < b.asStr.toList :=
    hkeys.imp fun hlt => String.lt_iff_toList_lt.mp hlt
  -- two ascending lists with the same members are one list
  constructor
  · rintro rfl
    exact hkeys'
  · intro hascending
    have hirrefl (a : StorageKey) (hlt : a.asStr.toList < a.asStr.toList) : False :=
      lt_irrefl _ hlt
    have hnodup (l : List StorageKey)
        (hl : l.Pairwise fun a b => a.asStr.toList < b.asStr.toList) : l.Nodup :=
      hl.imp (S := (· ≠ ·)) fun hlt heq => hirrefl _ (heq ▸ hlt)
    exact ((List.perm_ext_iff_of_nodup (hnodup _ hascending) (hnodup _ hkeys')).mpr
      hsame).eq_of_pairwise (fun a b _ _ hab hba => absurd hab (lt_asymm hba)) hascending hkeys'

section Apply

variable [Digest] {s h : Workbench Filesystem}

/-- The last check of the import. -/
theorem exec_compareInventory (hloaded : Loaded keys s.storage)
    (hkeys : (keys.map StorageKey.asStr).Pairwise (· < ·)) :
    ∃ r, (Restore.restoreObjects keys []).exec filesystemCalls s = ((r, keys), s) ∧
      (r = .ok () ↔ Upright (· ∈ keys)) := by
  obtain ⟨physical, hlist, hmem, hordered⟩ := listObjectKeys_spec s.storage
  have hsame (key : StorageKey) : key ∈ physical ↔ key ∈ keys := by
    rw [hmem, Filesystem.Stores, hloaded.object]
    constructor
    · rintro ⟨k, hk, hpath⟩
      exact StorageKey.path_injective hpath ▸ hk
    · intro hk
      exact ⟨key, hk, rfl⟩
  have hcall := exec_object (s := s) (c := .listObjectKeys) (fun _ => RecoveryError.storage)
    (Prod.ext hlist rfl : objects.perform .listObjectKeys s.storage = (.ok physical, s.storage))
  refine ⟨ensure (physical = keys) .integrity, ?_, ?_⟩
  · rw [Restore.restoreObjects, Program.exec_bind]
    have hcompare : (Restore.compareInventory keys).program.exec filesystemCalls s =
        (ensure (physical = keys) .integrity, s) := by
      show (Restore.compareInventory keys).exec filesystemCalls s = _
      rw [Restore.compareInventory, Procedure.exec_then hcall, Procedure.exec_lift]
    rw [hcompare]
    rfl
  · rw [ensure_eq_ok]
    exact inventory_eq_iff hsame hordered hkeys

/-- A restore to a path where nothing stands, with the object storage inside the installation. -/
def restoring (b : Directory) : Workbench Filesystem where
  source := some b
  stage := none
  destination := .absent
  storage := .fresh
  within := some .fresh

/-- The same, while the installation is built. -/
def building (b d : Directory) (storage : Filesystem) : Workbench Filesystem :=
  { restoring b with stage := some d, storage }

theorem exec_requireEmptyStorage (hloaded : Loaded [] s.storage) :
    Restore.requireEmptyStorage.exec filesystemCalls s = (.ok (), s) := by
  obtain ⟨physical, hlist, hmem, -⟩ := listObjectKeys_spec s.storage
  have hnil : physical = [] := by
    refine List.eq_nil_iff_forall_not_mem.mpr fun key hkey => ?_
    obtain ⟨k, hk, -⟩ := (hloaded.object key.path).mp ((hmem key).mp hkey)
    cases hk
  have hcall := exec_object (s := s) (c := .listObjectKeys) (fun _ => RecoveryError.storage)
    (Prod.ext hlist rfl : objects.perform .listObjectKeys s.storage = (.ok physical, s.storage))
  rw [Restore.requireEmptyStorage, Procedure.exec_then hcall, Procedure.exec_lift, ensure_of hnil]

/-- An error of the import is not a success of the restore. -/
theorem persistRestoredStage_error {error : RecoveryError} {u : Workbench Filesystem} :
    (Restore.persistRestoredStage (.error error, keys)).exec filesystemCalls s ≠ (.ok (), u) := by
  show (dropOnError (Restore.cleanupAfter keys error)).exec filesystemCalls s ≠ (.ok (), u)
  have hdrop (e : RecoveryError) (t : Workbench Filesystem) (a : Unit) (t' : Workbench Filesystem) :
      (do .ignore (Workbench.onDirectory .removeStage); .fail e : Recovery Unit).exec
        filesystemCalls t ≠ (.ok a, t') := by
    simp
  rw [dropOnError, ne_eq, Procedure.exec_recover_eq_ok hdrop, Restore.cleanupAfter,
    Procedure.exec_bind_eq_ok]
  simp

/-- The directory that was built is put in place. -/
theorem persistRestoredStage_ok {d : Directory} (hstage : s.stage = some d)
    (habsent : s.destination = .absent) :
    (Restore.persistRestoredStage (.ok (), keys)).exec filesystemCalls s =
      (.ok (), { s with stage := none, destination := .activated d }) := by
  show (persistStageWithCleanup (Restore.cleanup keys)).exec filesystemCalls s = _
  have hrename : (directory .renameStage .persistence).exec filesystemCalls s =
      (.ok (), { s with stage := none, destination := .activated d }) := by
    refine exec_directory (c := .renameStage) _ ?_
    rw [DirectoryCommand.perform_renameStage hstage, habsent]
    rfl
  rw [persistStageWithCleanup, Procedure.exec_recover, hrename, Procedure.execElse_ok]

variable [MetadataDatabase] [ManifestEncoder] {b : Directory} {manifest : BackupManifest}

theorem BackedUp.sized (hbacked : BackedUp h (HeldBy home) b manifest) (hs : s.source = some b) :
    Sized s := by
  obtain ⟨metadata, -, -, hmetadata, -, ⟨hlength, -⟩, -⟩ := hbacked.metadata
  obtain ⟨secret, -, hsecret, -, hlength', -⟩ := hbacked.secret
  have hfile (path : StoragePath) : s.file path = regularAt b path := by
    unfold Workbench.file
    rw [hs, Option.bind_some]
  constructor
  · intro file hmeta
    rw [hfile, hmetadata] at hmeta
    exact Option.some.inj hmeta ▸ hlength
  · intro file hfile'
    rw [hfile, hsecret] at hfile'
    exact Option.some.inj hfile' ▸ hlength'

/-- The control files are copied and the storage is found empty. -/
theorem exec_stage (hbacked : BackedUp h (HeldBy home) b manifest) :
    ∃ d, (dropOnError do
      Restore.copyControlFiles manifest
      directory .openStorage .storage
      Restore.requireEmptyStorage).exec filesystemCalls (building b .empty .fresh) =
        (.ok (), building b d .fresh) := by
  obtain ⟨metadata, records, -, hmetadata, hlisted, ⟨-, hhash⟩, -⟩ := hbacked.metadata
  obtain ⟨secret, -, hsecret, hvalid, -, hhash'⟩ := hbacked.secret
  have hnonempty : secret ≠ [] := by
    rintro rfl
    cases hvalid
  obtain ⟨d, hcopied⟩ := exec_copyControlFiles (s := building b .empty .fresh) rfl
    (hbacked.sized rfl) hmetadata (ne_nil_of_inspectDatabase hlisted.schema) hhash hsecret hnonempty
      hhash'
  have hopened : (directory .openStorage .storage).exec filesystemCalls (building b d .fresh) =
      (.ok (), building b d .fresh) := exec_directory _ rfl
  refine ⟨d, ?_⟩
  rw [dropOnError, Procedure.exec_recover, Procedure.exec_then hcopied]
  show Procedure.execElse _ _ (Procedure.exec filesystemCalls _ (building b d .fresh)) = _
  rw [Procedure.exec_then hopened, exec_requireEmptyStorage loaded_fresh, Procedure.execElse_ok]

/-- What a restore of a complete backup comes to: everything but the last check succeeds. -/
theorem exec_apply (hbacked : BackedUp h (HeldBy home) b manifest) :
    ∃ keys fs d r, keys.map StorageKey.asStr = manifest.objects.map BackupObject.storageKey ∧
      (r = .ok () ↔ Upright (· ∈ keys)) ∧ Restore.apply.exec filesystemCalls (restoring b) =
        (do
          Restore.persistRestoredStage (r, keys)
          pure { metadataSchemaVersion := manifest.metadataSchemaVersion,
                 objects := manifest.objects.length,
                 bytes := (manifest.objects.map BackupObject.size).sum }
          : Recovery Restore.Report).exec filesystemCalls (building b d fs) := by
  obtain ⟨hverified, htotal⟩ := hbacked.verified (s := restoring b) rfl
  have hvalidated := exec_validateBackup hverified (hbacked.sized rfl)
  have hcreated : createStage.exec filesystemCalls (restoring b) =
      (.ok (), building b .empty .fresh) := exec_createStage rfl
  obtain ⟨d, hstaged⟩ := exec_stage hbacked
  have hascending := hbacked.valid.ascending
  obtain ⟨keys, fs, hkeys, hloaded, himported⟩ := exec_restoreObjects
    (s := building b d .fresh) manifest.objects [] rfl hbacked.objects
    (fun _ hkey => absurd hkey List.not_mem_nil) (hascending.imp fun hlt => hlt.ne) loaded_fresh
  -- the objects are in place, and the storage lists them in the order of their paths
  obtain ⟨r, hcompared, hr⟩ := exec_compareInventory (s := building b d fs) hloaded
    (hkeys ▸ hascending)
  refine ⟨keys, fs, d, r, hkeys, hr, ?_⟩
  -- the import goes on to the comparison of the two lists
  have hrestored : (⟨(Restore.restoreObjects [] manifest.objects).bind fun r => .done (.ok r)⟩ :
      Recovery (Except RecoveryError Unit × List StorageKey)).exec filesystemCalls
        (building b d .fresh) = (.ok (r, keys), building b d fs) := by
    have hend := himported.trans hcompared
    rw [Procedure.exec_mk, Program.exec_bind, hend]
    rfl
  rw [Restore.apply, Procedure.exec_then hvalidated, Procedure.exec_lift_then htotal,
    Procedure.exec_then hcreated, Procedure.exec_then hstaged, Procedure.exec_then hrestored]

/-- A restore of a complete backup succeeds unless there is an inverted pair of keys. -/
theorem apply_succeeds_iff (hbacked : BackedUp h (HeldBy home) b manifest) :
    (∃ report u, Restore.apply.exec filesystemCalls (restoring b) = (.ok report, u)) ↔
      Upright fun key => ∃ object ∈ manifest.objects, object.storageKey = key.asStr := by
  obtain ⟨keys, fs, d, r, hkeys, hr, hexec⟩ := exec_apply hbacked
  -- the restored keys are those of the manifest
  have hmem (key : StorageKey) :
      key ∈ keys ↔ ∃ object ∈ manifest.objects, object.storageKey = key.asStr := by
    have hmap : key.asStr ∈ keys.map StorageKey.asStr ↔
        key.asStr ∈ manifest.objects.map BackupObject.storageKey := by rw [hkeys]
    simp only [List.mem_map] at hmap
    rw [← hmap]
    constructor
    · intro hkey
      exact ⟨key, hkey, rfl⟩
    · rintro ⟨k, hk, heq⟩
      exact StorageKey.ext heq ▸ hk
  have hupright : (fun key : StorageKey => ∃ object ∈ manifest.objects,
      object.storageKey = key.asStr) = (· ∈ keys) := funext fun key => (propext (hmem key)).symm
  rw [hupright, ← hr, hexec]
  simp only [Procedure.exec_bind_eq_ok]
  -- the stage is kept exactly when the comparison was no error
  constructor
  · rintro ⟨report, u, a, t, hpersist, -⟩
    cases r with
    | ok _ => rfl
    | error e => exact absurd hpersist persistRestoredStage_error
  · rintro rfl
    exact ⟨_, _, (), _, persistRestoredStage_ok rfl rfl, rfl⟩

end Apply

/-! ### The law -/

section RoundTrip

variable [Digest] [MetadataDatabase] [ManifestEncoder] {h t u : Workbench Filesystem}

/-- The key of a complete version. -/
def Committed (records : List ObjectVersionRecord) (key : StorageKey) : Prop :=
  ∃ record ∈ records, record.state = .complete ∧ record.storageKey = key.asStr

/-- The installation `u` has the metadata of the backup, the runtime secret of `h`, and the objects
that `h` has for the complete versions. -/
structure Reinstalled (h : Workbench Filesystem) (file : Bytes) (records : List ObjectVersionRecord)
    (u : Workbench Filesystem) : Prop where
  installed : ∃ d secret, u.destination = .activated d ∧ regularAt d metadataPath = some file ∧
    h.file secretPath = some secret ∧ regularAt d secretPath = some secret
  complete : ∀ key, Committed records key → ∃ content, h.storage.contents key = some content ∧
    u.storage.contents key = some content
  only : ∀ key, u.storage.contents key ≠ none → Committed records key

omit [MetadataDatabase] [ManifestEncoder] in
theorem reads_objects (storage : Filesystem) : Reads objects.faulty storage (HeldBy storage) := by
  intro key r storage' hget
  rcases hget with hget | ⟨rfl, rfl⟩
  · refine ⟨get_leaves hget, fun metadata content hr => ?_⟩
    subst hr
    obtain ⟨hmetadata, hobject, -, -⟩ := get_eq_ok.mp hget
    exact ⟨hobject, metadata, hmetadata⟩
  · exact ⟨rfl, fun _ _ hr => by cases hr⟩

omit [MetadataDatabase] [ManifestEncoder] in
/-- An execution with the filesystem provider is one of those in which calls may fail. -/
theorem runs_filesystemCalls {α : Type} {x : Recovery α} {r : Except RecoveryError α}
    (hexec : x.exec filesystemCalls h = (r, t)) :
    x.program.Runs (Workbench.allows objects.faulty) h r t := by
  have hruns := Program.runs_exec filesystemCalls x.program h
  rw [show x.program.exec filesystemCalls h = (r, t) from hexec] at hruns
  have hrefines : filesystemCalls.faulty.Refines (fun s => s)
      (Workbench.allows objects.faulty) := by
    intro c s r t hcall
    cases c with
    | directory c =>
      rcases hcall with hcall | hcall
      · exact Or.inl hcall
      · exact Or.inr hcall
    | object c =>
      rcases hcall with hcall | ⟨rfl, rfl⟩
      · obtain ⟨rfl, rfl⟩ := Prod.mk.inj hcall
        exact ⟨_, Or.inl rfl, rfl⟩
      · exact ⟨_, Or.inr ⟨rfl, rfl⟩, rfl⟩
  exact hrefines.runs hruns

omit [Digest] [MetadataDatabase] [ManifestEncoder] in
theorem storageKeys_eq {records : List ObjectVersionRecord} {objects : List BackupObject}
    (hdescribed : List.Forall₂ Describes records objects) :
    records.map ObjectVersionRecord.storageKey = objects.map BackupObject.storageKey := by
  induction hdescribed with
  | nil => rfl
  | cons hdescribes _ ih => rw [List.map_cons, List.map_cons, ih, hdescribes.1]

omit [Digest] [MetadataDatabase] [ManifestEncoder] in
/-- The complete versions are those that the manifest describes. -/
theorem committed_iff {manifest : BackupManifest} {records : List ObjectVersionRecord}
    {objects : List BackupObject}
    (hdescribed : List.Forall₂ Describes (records.filter fun record => record.state = .complete)
      objects) (hperm : objects.Perm manifest.objects) (key : StorageKey) :
    Committed records key ↔ ∃ object ∈ manifest.objects, object.storageKey = key.asStr := by
  have hmem : key.asStr ∈ (records.filter fun record => record.state = .complete).map
      ObjectVersionRecord.storageKey ↔ key.asStr ∈ objects.map BackupObject.storageKey := by
    rw [storageKeys_eq hdescribed]
  simp only [List.mem_map, List.mem_filter, decide_eq_true_eq, and_assoc] at hmem
  rw [Committed, hmem]
  simp only [hperm.mem_iff]

/-- What a restore of a complete backup leaves behind. -/
theorem BackedUp.reinstalled {b : Directory} {manifest : BackupManifest}
    (hbacked : BackedUp h (HeldBy h.storage) b manifest) {file : Bytes}
    {records : List ObjectVersionRecord} (hmetadata : regularAt b metadataPath = some file)
    (hcommitted : ∀ key, Committed records key ↔
      ∃ object ∈ manifest.objects, object.storageKey = key.asStr)
    (hrestored : Restored ((restoring b).map Filesystem.contents) (u.map Filesystem.contents)
      manifest) : Reinstalled h file records u := by
  have hfile (path : StoragePath) :
      ((restoring b).map Filesystem.contents).file path = regularAt b path := rfl
  have hheld (key : StorageKey) (hkey : Committed records key) : ∃ content,
      h.storage.contents key = some content ∧ u.storage.contents key = some content := by
    obtain ⟨object, hobject, hnamed⟩ := (hcommitted key).mp hkey
    obtain ⟨key₁, content, hcontent, hregular⟩ := hbacked.objects object hobject
    obtain ⟨key₂, hmatches, hstored⟩ := hrestored.complete object hobject
    -- all three are the key of the object
    obtain rfl : key₁ = key := StorageKey.ext (hcontent.named.trans hnamed)
    obtain rfl : key₂ = key₁ := StorageKey.ext (hmatches.1.trans hnamed)
    refine ⟨content, hcontent.stored.1, ?_⟩
    show (u.map Filesystem.contents).storage key₂ = some content
    rw [hstored, hfile, hregular]
  refine ⟨?_, hheld, fun key hkey => ?_⟩
  · obtain ⟨d, hd, hcontrols⟩ := hrestored.installed
    obtain ⟨metadata, hcopied, hinstalled, -⟩ := hcontrols.metadata
    obtain ⟨secret, hcopied', hinstalled', -⟩ := hcontrols.secret
    obtain ⟨bytes, hsecret, hregular, -⟩ := hbacked.secret
    rw [hfile] at hcopied hcopied'
    obtain rfl : metadata = file := Option.some.inj (hcopied.symm.trans hmetadata)
    obtain rfl : secret = bytes := Option.some.inj (hcopied'.symm.trans hregular)
    exact ⟨d, secret, hd, regularAt_eq_some.mpr hinstalled, hsecret,
      regularAt_eq_some.mpr hinstalled'⟩
  · exact (hcommitted key).mpr (hrestored.only key hkey)

/-- A backup is restored to an installation with the same metadata, runtime secret and objects of
complete versions, unless two keys of complete versions have paths that are in the other order as
texts; then the restore fails. -/
theorem roundTrip_law {report : Backup.Report} (hprepared : h.Prepared)
    (hcreate : Backup.create.exec filesystemCalls h = (.ok report, t)) :
    ∃ b file records, t.destination = .activated b ∧ regularAt b metadataPath = some file ∧
      Listed h file records ∧
        ((∃ report' u, Restore.apply.exec filesystemCalls (restoring b) = (.ok report', u)) ↔
          Upright (Committed records)) ∧
        ∀ report' u, Restore.apply.exec filesystemCalls (restoring b) = (.ok report', u) →
          Reinstalled h file records u ∧
            report' = ⟨report.metadataSchemaVersion, report.objects, report.bytes⟩ := by
  have hmeets := create_meets (reads_objects h.storage) hprepared
  obtain ⟨-, b, manifest, hdestination, hbacked, hschema, hlength, hbytes⟩ :=
    hmeets.ok (runs_filesystemCalls hcreate)
  obtain ⟨file, records, objects, hmetadata, hlisted, -, hdescribed, hperm⟩ := hbacked.metadata
  have hcommitted := committed_iff hdescribed hperm
  refine ⟨b, file, records, hdestination, hmetadata, hlisted, ?_, fun report' u hexec => ?_⟩
  · rw [apply_succeeds_iff hbacked, funext fun key => propext (hcommitted key)]
  -- the execution is one that the contract of the object storage allows so its success has the
  -- effects that the contract promises
  · have hruns := runs_objects Restore.apply (restoring b)
    rw [hexec] at hruns
    have hprepared' : ((restoring b).map Filesystem.contents).Prepared := by
      rintro _ ⟨⟩
      rfl
    obtain ⟨-, manifest', hrestored, hschema', hlength', hbytes'⟩ :=
      (apply_meets promises_allows hprepared').ok hruns
    obtain ⟨hverified, htotal⟩ :=
      hbacked.verified (s := (restoring b).map Filesystem.contents) rfl
    obtain ⟨bytes, hread, hdecoded⟩ := hverified.decoded
    obtain ⟨bytes', hread', hdecoded'⟩ := hrestored.verified.decoded
    -- both sides have read one manifest from one file
    obtain rfl : bytes = bytes' := Option.some.inj (hread.symm.trans hread')
    obtain rfl : manifest = manifest' := Except.ok.inj (hdecoded.symm.trans hdecoded')
    refine ⟨hbacked.reinstalled hmetadata hcommitted hrestored, ?_⟩
    obtain ⟨schema, count, total⟩ := report'
    rw [htotal] at hbytes'
    simp only [Restore.Report.mk.injEq]
    exact ⟨by rw [hschema, ← hbacked.schema]; exact hschema', by rw [hlength]; exact hlength',
      by rw [hbytes]; exact (Except.ok.inj hbytes').symm⟩

end RoundTrip

section Garden

attribute [local instance] gardenDigest gardenDatabase gardenEncoder

theorem validPath_first : ValidRelativePath "versions/p/u1" 512 := by decide

theorem validPath_second : ValidRelativePath "versions/p-2/u2" 512 := by decide

/-- The metadata of an installation is copied as it is. -/
theorem listed_file {home : Workbench Filesystem} {metadata file : Bytes}
    {records : List ObjectVersionRecord} (hmetadata : home.file metadataPath = some metadata)
    (hlisted : Listed home file records) : file = metadata := by
  obtain ⟨copy, ⟨source, hsource, hcopy, -⟩, hopened⟩ := hlisted.snapshot
  obtain rfl : source = metadata := Option.some.inj (hsource.symm.trans hmetadata)
  exact (Except.ok.inj hopened).symm.trans (Option.some.inj hcopy).symm

theorem orchard_succeeds : (Backup.create.exec filesystemCalls orchard).1.isOk = true := by
  decide +kernel

/-- No component of the path of an object of the orchard continues another one. -/
theorem orchard_upright : Upright (Committed orchardVersions) := by
  have hpaths : ∀ key, Committed orchardVersions key →
      key.path ∈ [["versions".toList, ['p'], "u1".toList],
        ["versions".toList, ['q'], "u2".toList]] := by
    rintro key ⟨record, hrecord, -, hkey⟩
    rcases List.mem_cons.mp hrecord with rfl | hrecord
    · rw [show key = ⟨"versions/p/u1", validPath_first⟩ from StorageKey.ext hkey.symm]
      decide +kernel
    · obtain rfl := List.mem_singleton.mp hrecord
      rw [show key = ⟨"versions/q/u2", by decide⟩ from StorageKey.ext hkey.symm]
      decide +kernel
  intro a b ha hb hinverted
  have hcomponents : ∀ p ∈ [["versions".toList, ['p'], "u1".toList],
      ["versions".toList, ['q'], "u2".toList]], ∀ q ∈ [["versions".toList, ['p'], "u1".toList],
      ["versions".toList, ['q'], "u2".toList]], ∀ c ∈ p, ∀ c' ∈ q, c <+: c' → c = c' := by
    decide +kernel
  exact PathOrder.not_inverted (hcomponents _ (hpaths a ha) _ (hpaths b hb)) hinverted

/-- The backup of the garden is complete, and no restore of it succeeds: as paths, the objects of
`p` come before those of `p-2`.  The backup of the orchard is restored. -/
theorem roundTrip_garden :
    (∃ b, (Backup.create.exec filesystemCalls garden).2.destination = .activated b ∧
      ¬∃ report u, Restore.apply.exec filesystemCalls (restoring b) = (.ok report, u)) ∧
    ∃ b, (Backup.create.exec filesystemCalls orchard).2.destination = .activated b ∧
      ∃ report u, Restore.apply.exec filesystemCalls (restoring b) = (.ok report, u) ∧
        Reinstalled orchard (gardenBytes "SQLite format 3 orchard") orchardVersions u := by
  constructor
  · obtain ⟨report, hreport⟩ := exists_ok garden_succeeds
    obtain ⟨b, file, records, hdestination, -, hlisted, hsucceeds, -⟩ :=
      roundTrip_law (h := garden) (by rintro _ ⟨⟩) (Prod.ext hreport (Eq.refl _))
    refine ⟨b, hdestination, fun hrestored => ?_⟩
    have hsource : garden.file metadataPath = some (gardenBytes "SQLite format 3 garden") := by
      decide +kernel
    obtain rfl := listed_file hsource hlisted
    have hrecords : gardenVersions = records := Except.ok.inj hlisted.versions
    -- the keys of the peas and the beans are committed, and in the wrong order
    have hfirst : Committed records ⟨"versions/p/u1", validPath_first⟩ := by
      rw [← hrecords]
      exact ⟨_, List.mem_cons_self, rfl, by decide +kernel⟩
    have hsecond : Committed records ⟨"versions/p-2/u2", validPath_second⟩ := by
      rw [← hrecords]
      exact ⟨_, List.mem_cons_of_mem _ List.mem_cons_self, rfl, by decide +kernel⟩
    refine hsucceeds.mp hrestored _ _ hfirst hsecond
      ⟨["versions".toList], ['p'], ["u1".toList], '-', ['2'], ["u2".toList], by simp, by decide, ?_,
        ?_⟩
    · decide +kernel
    · decide +kernel
  · obtain ⟨report, hreport⟩ := exists_ok orchard_succeeds
    obtain ⟨b, file, records, hdestination, -, hlisted, hsucceeds, hreinstalled⟩ :=
      roundTrip_law (h := orchard) (by rintro _ ⟨⟩) (Prod.ext hreport (Eq.refl _))
    have hsource : orchard.file metadataPath = some (gardenBytes "SQLite format 3 orchard") := by
      decide +kernel
    obtain rfl := listed_file hsource hlisted
    obtain rfl : orchardVersions = records := Except.ok.inj hlisted.versions
    -- the keys of the orchard are in one order both ways
    obtain ⟨report', u, hrestored⟩ := hsucceeds.mpr orchard_upright
    exact ⟨b, hdestination, report', u, hrestored, (hreinstalled report' u hrestored).1⟩

end Garden
end BlobYard
