/-
The manifest of a backup.

A backup is a directory with a copy of the metadata database, the runtime secret and the objects.
Its manifest names the schema of the metadata, the checksums of the two control files and every
object with its size and checksum, in strictly ascending order.

* `RecoveryError` — the failures of the recovery commands;
* `BackupManifest`, `BackupObject` — the manifest and its objects;
* `BackupManifest.new`, `BackupManifest.validate` — one made, and one checked;
* `BackupManifest.encode`, `BackupManifest.decode` — its text;
* `validate_eq_ok` — what a manifest that passes the check is like;
* `decode_encode` — a manifest that is written is read back.
-/
import BlobYard.Contract.Storage
import BlobYard.Lib.Order
import BlobYard.Server.Cursors

namespace BlobYard

open Outcome Server

/-- Why a recovery command failed. -/
inductive RecoveryError where
  | installationUnavailable
  | destinationExists
  | invalidBackup
  | database
  | schemaTooOld
  | schemaTooNew
  | activeUploads
  | storage
  | integrity
  | storageNotEmpty
  | rollbackUnsafe
  | persistence
  deriving DecidableEq

/-- `CARGO_PKG_VERSION`. -/
def coreVersion : String := "0.1.16"

/-- `FORMAT_VERSION`. -/
def formatVersion : ℕ := 1

/-- One object of a backup. -/
structure BackupObject where
  storageKey : String
  size : ℕ
  checksum : String
  deriving DecidableEq

/-- The derived order of objects. -/
def BackupObject.rank (object : BackupObject) : Lex (String × Lex (ℕ × String)) :=
  toLex (object.storageKey, toLex (object.size, object.checksum))

structure BackupManifest where
  formatVersion : ℕ
  coreVersion : String
  metadataSchemaVersion : ℕ
  metadataSha256 : String
  runtimeSecretSha256 : String
  objects : List BackupObject
  deriving DecidableEq

namespace BackupManifest

/-- `BackupManifest::new`. -/
def new (metadataSchemaVersion : ℕ) (metadataSha256 runtimeSecretSha256 : String)
    (objects : List BackupObject) : BackupManifest where
  formatVersion := BlobYard.formatVersion
  coreVersion := BlobYard.coreVersion
  metadataSchemaVersion := metadataSchemaVersion
  metadataSha256 := metadataSha256
  runtimeSecretSha256 := runtimeSecretSha256
  objects := orderBy BackupObject.rank objects

/-- The loop over the objects, with the keys seen so far and the object before. -/
def validateObjects (keys : List String) (previous : Option BackupObject) :
    List BackupObject → Except RecoveryError Unit
  | [] => .ok ()
  | object :: rest => do
    let _ ← (StorageKey.new object.storageKey).mapError fun _ => .invalidBackup
    let _ ← (ObjectChecksum.new object.checksum).mapError fun _ => .invalidBackup
    ensure (object.storageKey ∉ keys ∧ ∀ value ∈ previous, ¬object.rank ≤ value.rank) .invalidBackup
    validateObjects (object.storageKey :: keys) (some object) rest

/-- `BackupManifest::validate`. -/
def validate (manifest : BackupManifest) : Except RecoveryError Unit := do
  ensure (manifest.formatVersion = BlobYard.formatVersion ∧ manifest.coreVersion ≠ "")
    .invalidBackup
  let _ ← (ObjectChecksum.new manifest.metadataSha256).mapError fun _ => .invalidBackup
  let _ ← (ObjectChecksum.new manifest.runtimeSecretSha256).mapError fun _ => .invalidBackup
  validateObjects [] none manifest.objects

end BackupManifest

/-! ### The text of a manifest -/

/-- `JsonEncoder`: the text of a value in several lines, which is read back with the line break
that is written behind it. -/
class ManifestEncoder extends JsonReader where
  encode : Json → Bytes
  read_encode : ∀ value : Json, value.depth < 128 → fromSlice (encode value ++ [10]) = some value

def BackupObject.toJson (object : BackupObject) : Json :=
  .object [("storageKey", .string object.storageKey), ("size", .number object.size),
    ("checksum", .string object.checksum)]

/-- The derived decoder of an object. -/
def BackupObject.ofJson (value : Json) : Option BackupObject := do
  let fields ← value.record? ["storageKey", "size", "checksum"]
  let storageKey ← Json.required? Json.text? "storageKey" fields
  let size ← Json.required? (Json.natural? u64Max) "size" fields
  let checksum ← Json.required? Json.text? "checksum" fields
  some { storageKey, size, checksum }

namespace BackupManifest

def toJson (manifest : BackupManifest) : Json :=
  .object [("formatVersion", .number manifest.formatVersion),
    ("coreVersion", .string manifest.coreVersion),
    ("metadataSchemaVersion", .number manifest.metadataSchemaVersion),
    ("metadataSha256", .string manifest.metadataSha256),
    ("runtimeSecretSha256", .string manifest.runtimeSecretSha256),
    ("objects", .array (manifest.objects.map BackupObject.toJson))]

/-- A list of objects. -/
def objects? : Json → Option (List BackupObject)
  | .array values => values.mapM BackupObject.ofJson
  | _ => none

/-- The derived decoder of a manifest. -/
def ofJson (value : Json) : Option BackupManifest := do
  let fields ← value.record? ["formatVersion", "coreVersion", "metadataSchemaVersion",
    "metadataSha256", "runtimeSecretSha256", "objects"]
  let formatVersion ← Json.required? (Json.natural? u32Max) "formatVersion" fields
  let coreVersion ← Json.required? Json.text? "coreVersion" fields
  let metadataSchemaVersion ← Json.required? (Json.natural? u32Max) "metadataSchemaVersion" fields
  let metadataSha256 ← Json.required? Json.text? "metadataSha256" fields
  let runtimeSecretSha256 ← Json.required? Json.text? "runtimeSecretSha256" fields
  let objects ← Json.required? objects? "objects" fields
  some { formatVersion, coreVersion, metadataSchemaVersion, metadataSha256, runtimeSecretSha256,
         objects }

variable [ManifestEncoder]

/-- The bytes that `write` puts into the manifest file. -/
def encode (manifest : BackupManifest) : Bytes :=
  ManifestEncoder.encode manifest.toJson ++ [10]

/-- The manifest that `read` finds in the bytes of the manifest file. -/
def decode (bytes : Bytes) : Except RecoveryError BackupManifest := do
  let manifest ← ofOption .invalidBackup ((fromSlice bytes).bind ofJson)
  validate manifest
  pure manifest

end BackupManifest

/-! ### Checked manifests -/

/-- The key and the checksum of an object are well formed. -/
def BackupObject.Valid (object : BackupObject) : Prop :=
  ValidRelativePath object.storageKey 512 ∧ ValidChecksum object.checksum

namespace BackupManifest

theorem storageKey_eq_ok {value : String} {key : StorageKey} :
    ((StorageKey.new value).mapError fun _ => RecoveryError.invalidBackup) = .ok key ↔
      key.asStr = value := mapError_eq_ok.trans StorageKey.new_eq_ok

theorem checksum_ext {a b : ObjectChecksum} (h : a.asStr = b.asStr) : a = b := by
  cases a
  cases b
  cases h
  rfl

theorem checksum_new_eq_ok {value : String} {checksum : ObjectChecksum} :
    ObjectChecksum.new value = .ok checksum ↔ checksum.asStr = value := by
  rw [ObjectChecksum.new]
  split
  · constructor
    · intro h
      exact congrArg ObjectChecksum.asStr (Except.ok.inj h).symm
    · rintro rfl
      rfl
  · rename_i hinvalid
    constructor
    · nofun
    · rintro rfl
      exact absurd checksum.valid hinvalid

theorem checksum_eq_ok {value : String} {checksum : ObjectChecksum} :
    ((ObjectChecksum.new value).mapError fun _ => RecoveryError.invalidBackup) = .ok checksum ↔
      checksum.asStr = value := mapError_eq_ok.trans checksum_new_eq_ok

/-- Objects are in order when their keys are, and equal keys are ruled out by the keys seen. -/
theorem rank_lt_iff {value object : BackupObject} (hne : object.storageKey ≠ value.storageKey) :
    ¬object.rank ≤ value.rank ↔ value.storageKey < object.storageKey := by
  rw [not_le, BackupObject.rank, BackupObject.rank, Prod.Lex.toLex_lt_toLex]
  constructor
  · rintro (hlt | ⟨heq, -⟩)
    · exact hlt
    · exact absurd heq.symm hne
  · exact Or.inl

/-- What the loop asks of an object, where the keys seen so far come before that of the object
before. -/
theorem fresh_iff {keys : List String} {previous : Option BackupObject} {object : BackupObject}
    (hkeys : ∀ key ∈ keys, ∃ value ∈ previous, key ≤ value.storageKey)
    (hprevious : ∀ value ∈ previous, value.storageKey ∈ keys) :
    (object.storageKey ∉ keys ∧ ∀ value ∈ previous, ¬object.rank ≤ value.rank) ↔
      ∀ value ∈ previous, value.storageKey < object.storageKey := by
  constructor
  · rintro ⟨hfresh, hrank⟩ value hvalue
    have hne : object.storageKey ≠ value.storageKey := fun heq =>
      hfresh (heq ▸ hprevious value hvalue)
    exact (rank_lt_iff hne).mp (hrank value hvalue)
  · intro hlt
    constructor
    · intro hmem
      obtain ⟨value, hvalue, hle⟩ := hkeys _ hmem
      exact absurd (hlt value hvalue) (not_lt.mpr hle)
    · intro value hvalue
      exact (rank_lt_iff (hlt value hvalue).ne').mpr (hlt value hvalue)

/-- The key and the checksum of one object are checked. -/
theorem valid_eq_ok {object : BackupObject} {next : Except RecoveryError Unit} :
    (do
      let _ ← (StorageKey.new object.storageKey).mapError fun _ => RecoveryError.invalidBackup
      let _ ← (ObjectChecksum.new object.checksum).mapError fun _ => RecoveryError.invalidBackup
      next) = .ok () ↔ object.Valid ∧ next = .ok () := by
  simp only [bind_eq_ok, storageKey_eq_ok, checksum_eq_ok]
  constructor
  · rintro ⟨key, hkey, checksum, hchecksum, hnext⟩
    exact ⟨⟨hkey ▸ key.valid, hchecksum ▸ checksum.valid⟩, hnext⟩
  · rintro ⟨⟨hkey, hchecksum⟩, hnext⟩
    exact ⟨⟨_, hkey⟩, rfl, ⟨_, hchecksum⟩, rfl, hnext⟩

/-- The loop accepts objects that are well formed and strictly ascend by their keys. -/
theorem validateObjects_eq_ok {keys : List String} {previous : Option BackupObject}
    {objects : List BackupObject} (hkeys : ∀ key ∈ keys, ∃ value ∈ previous, key ≤ value.storageKey)
    (hprevious : ∀ value ∈ previous, value.storageKey ∈ keys) :
    validateObjects keys previous objects = .ok () ↔
      (∀ object ∈ objects,
        object.Valid ∧ ∀ value ∈ previous, value.storageKey < object.storageKey) ∧
        (objects.map BackupObject.storageKey).Pairwise (· < ·) := by
  -- induction on the objects: the keys seen are bounded by the one before
  induction objects generalizing keys previous with
  | nil => simp [validateObjects]
  | cons object rest ih =>
    have hbound (hlt : ∀ value ∈ previous, value.storageKey < object.storageKey) :
        ∀ key ∈ object.storageKey :: keys, ∃ value ∈ some object, key ≤ value.storageKey := by
      intro key hkey
      refine ⟨object, rfl, ?_⟩
      rcases List.mem_cons.mp hkey with rfl | hkey
      · exact le_rfl
      · obtain ⟨value, hvalue, hle⟩ := hkeys key hkey
        exact hle.trans (hlt value hvalue).le
    rw [validateObjects, valid_eq_ok, bind_eq_ok]
    simp only [ensure_eq_ok, fresh_iff hkeys hprevious, List.forall_mem_cons, List.map_cons,
      List.pairwise_cons, List.forall_mem_map]
    constructor
    · rintro ⟨hvalid, _, hlt, hrest⟩
      obtain ⟨hall, hpairwise⟩ := (ih (hbound hlt) (by simp)).mp hrest
      refine ⟨⟨⟨hvalid, hlt⟩, fun o ho => ⟨(hall o ho).1, fun value hvalue => ?_⟩⟩,
        fun o ho => (hall o ho).2 object rfl, hpairwise⟩
      exact (hlt value hvalue).trans ((hall o ho).2 object rfl)
    · rintro ⟨⟨⟨hvalid, hlt⟩, hall⟩, hfirst, hpairwise⟩
      refine ⟨hvalid, (), hlt, (ih (hbound hlt) (by simp)).mpr ⟨fun o ho => ⟨(hall o ho).1, ?_⟩,
        hpairwise⟩⟩
      rintro value hvalue
      cases hvalue
      exact hfirst o ho

/-- What the check of a manifest asks. -/
structure Valid (manifest : BackupManifest) : Prop where
  format : manifest.formatVersion = BlobYard.formatVersion
  core : manifest.coreVersion ≠ ""
  metadata : ValidChecksum manifest.metadataSha256
  secret : ValidChecksum manifest.runtimeSecretSha256
  objects : ∀ object ∈ manifest.objects, object.Valid
  ascending : (manifest.objects.map BackupObject.storageKey).Pairwise (· < ·)

theorem validate_eq_ok {manifest : BackupManifest} :
    manifest.validate = .ok () ↔ manifest.Valid := by
  have hobjects := @validateObjects_eq_ok [] none manifest.objects (by simp) (by simp)
  simp only [validate, bind_eq_ok, ensure_eq_ok, checksum_eq_ok, hobjects, Option.mem_def,
    reduceCtorEq, false_implies, implies_true, and_true]
  constructor
  · rintro ⟨_, ⟨hformat, hcore⟩, metadata, hmetadata, secret, hsecret, hall, hpairwise⟩
    exact ⟨hformat, hcore, hmetadata ▸ metadata.valid, hsecret ▸ secret.valid, hall, hpairwise⟩
  · intro h
    exact ⟨(), ⟨h.format, h.core⟩, ⟨_, h.metadata⟩, rfl, ⟨_, h.secret⟩, rfl, h.objects, h.ascending⟩

/-! ### Manifests that are written -/

theorem coreVersion_ne : BlobYard.coreVersion ≠ "" := by decide

/-- Objects with distinct keys are sorted by them. -/
theorem new_valid {schema : ℕ} {metadata secret : String} {objects : List BackupObject}
    (hmetadata : ValidChecksum metadata) (hsecret : ValidChecksum secret)
    (hobjects : ∀ object ∈ objects, object.Valid)
    (hdistinct : (objects.map BackupObject.storageKey).Nodup) :
    (new schema metadata secret objects).Valid where
  format := rfl
  core := coreVersion_ne
  metadata := hmetadata
  secret := hsecret
  objects := fun object hobject => hobjects object (mem_orderBy.mp hobject)
  ascending := by
    have hperm := (orderBy_perm BackupObject.rank objects).map BackupObject.storageKey
    have hne : ((orderBy BackupObject.rank objects).map BackupObject.storageKey).Pairwise
        (· ≠ ·) := hperm.nodup_iff.mpr hdistinct
    show ((orderBy BackupObject.rank objects).map BackupObject.storageKey).Pairwise (· < ·)
    rw [List.pairwise_map] at hne ⊢
    refine ((orderBy_pairwise BackupObject.rank objects).and hne).imp ?_
    rintro a b ⟨hle, hkey⟩
    exact (rank_lt_iff hkey.symm).mp (not_le.mpr (lt_of_le_of_ne hle fun heq =>
      hkey (congrArg (fun r => (ofLex r).1) heq)))

/-- An object that is written is read back. -/
theorem ofJson_object {object : BackupObject} (hsize : object.size ≤ u64Max) :
    BackupObject.ofJson object.toJson = some object := by
  have hfields : Json.record? ["storageKey", "size", "checksum"] object.toJson =
      some [("storageKey", .string object.storageKey), ("size", .number object.size),
        ("checksum", .string object.checksum)] := by
    rw [BackupObject.toJson, Json.record?, if_pos]
    simp
  have hnumber : Json.required? (Json.natural? u64Max) "size"
      [("storageKey", .string object.storageKey), ("size", .number object.size),
        ("checksum", .string object.checksum)] = some object.size := natural?_number hsize
  rw [BackupObject.ofJson, hfields]
  simp only [Option.bind_eq_bind, Option.bind_some, hnumber]
  rfl

theorem objects?_toJson {objects : List BackupObject} (hsizes : ∀ o ∈ objects, o.size ≤ u64Max) :
    objects? (.array (objects.map BackupObject.toJson)) = some objects :=
  Outcome.mapM_map_pure fun object hobject => ofJson_object (hsizes object hobject)

/-- The fields of a manifest, as they are written. -/
def fields (manifest : BackupManifest) : List (String × Json) :=
  [("formatVersion", .number manifest.formatVersion), ("coreVersion", .string manifest.coreVersion),
    ("metadataSchemaVersion", .number manifest.metadataSchemaVersion),
    ("metadataSha256", .string manifest.metadataSha256),
    ("runtimeSecretSha256", .string manifest.runtimeSecretSha256),
    ("objects", .array (manifest.objects.map BackupObject.toJson))]

theorem ofJson_toJson {manifest : BackupManifest} (hformat : manifest.formatVersion ≤ u32Max)
    (hschema : manifest.metadataSchemaVersion ≤ u32Max)
    (hsizes : ∀ object ∈ manifest.objects, object.size ≤ u64Max) :
    ofJson manifest.toJson = some manifest := by
  have hfields : Json.record? ["formatVersion", "coreVersion", "metadataSchemaVersion",
      "metadataSha256", "runtimeSecretSha256", "objects"] manifest.toJson =
        some manifest.fields := by
    rw [toJson, Json.record?, if_pos]
    · rfl
    · simp
  have hnumber : Json.required? (Json.natural? u32Max) "formatVersion" manifest.fields =
      some manifest.formatVersion := if_pos hformat
  have hversion : Json.required? (Json.natural? u32Max) "metadataSchemaVersion" manifest.fields =
      some manifest.metadataSchemaVersion := if_pos hschema
  have hobjects : Json.required? objects? "objects" manifest.fields = some manifest.objects :=
    objects?_toJson hsizes
  rw [ofJson, hfields]
  simp only [Option.bind_eq_bind, Option.bind_some, hnumber, hversion, hobjects]
  rfl

theorem depth_toJson (manifest : BackupManifest) : manifest.toJson.depth < 128 := by
  have hvalues : Json.depthValues (manifest.objects.map BackupObject.toJson) ≤ 1 := by
    refine Json.depthValues_le fun value hvalue => ?_
    obtain ⟨object, -, rfl⟩ := List.mem_map.mp hvalue
    simp [BackupObject.toJson, Json.depth, Json.depthFields]
  simp only [toJson, Json.depth, Json.depthFields]
  omega

/-- A manifest that is written is read back, if it passes the check. -/
theorem decode_encode [ManifestEncoder] {manifest : BackupManifest} (hvalid : manifest.Valid)
    (hschema : manifest.metadataSchemaVersion ≤ u32Max)
    (hsizes : ∀ object ∈ manifest.objects, object.size ≤ u64Max) :
    decode manifest.encode = .ok manifest := by
  have hformat : manifest.formatVersion ≤ u32Max := by
    rw [hvalid.format]
    decide
  rw [decode, encode, ManifestEncoder.read_encode _ manifest.depth_toJson, Option.bind_some,
    ofJson_toJson hformat hschema hsizes]
  simp only [bind_eq_ok, ofOption_eq_ok, pure_eq_ok]
  exact ⟨manifest, rfl, (), validate_eq_ok.mpr hvalid, rfl⟩

end BackupManifest
end BlobYard
