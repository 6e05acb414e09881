/-
The manifest of a site and the paths of its requests.

A manifest is made of the objects below a root, with an index document among them.  A request
names a file by the path of its URL, which is decoded segment by segment.

* `Sites.snapshotManifest` — the files of a manifest;
* `Sites.publicPath` — the path that a request names;
* `Yards.publicRequestPath`, `Previews.publicPreviewPath` — the same with the rules for
  directories of hosted yards and of previews.
-/
import BlobYard.Lib.Order
import BlobYard.Lib.PercentEncoding
import BlobYard.Lib.Splitting
import BlobYard.Repository.YardFiles
import BlobYard.Server.Objects
import Mathlib.Data.List.DropRight

namespace BlobYard

open Outcome

namespace Server

/-! ### Manifests -/

/-- `MAXIMUM_SITE_FILES`. -/
def maximumSiteFiles : ℕ := 10000

structure SiteManifestObject where
  normalizedPath : String
  versionId : String
  byteSize : Option ℕ
  deriving DecidableEq

inductive SiteManifestError where
  | invalid
  | duplicate
  deriving DecidableEq

inductive PublicPathError where
  | invalidPath
  | notFound
  deriving DecidableEq

namespace Sites

section Manifest

variable (root : String) (validPath : String → Prop) [DecidablePred validPath]

/-- One turn of the loop; the paths that were seen are those of the files. -/
def addObject (files : List SiteManifestObject) (object : StoredObjectRecord) :
    Except SiteManifestError (List SiteManifestObject) := do
  let characters ← ofOption .invalid (stripPrefix? root.toList object.version.objectPath.toList)
  let path := String.ofList characters
  ensure (validPath path) .invalid
  ensure (path ∉ files.map SiteManifestObject.normalizedPath) .duplicate
  return files ++
    [{ normalizedPath := path, versionId := object.version.id, byteSize := object.version.size }]

def snapshotManifest (objects : List StoredObjectRecord) :
    Except SiteManifestError (List SiteManifestObject) := do
  ensure (objects ≠ [] ∧ objects.length ≤ maximumSiteFiles) .invalid
  let files ← objects.foldlM (addObject root validPath) []
  ensure ("index.html" ∈ files.map SiteManifestObject.normalizedPath) .invalid
  return orderBy SiteManifestObject.normalizedPath files

end Manifest

/-! ### Request paths -/

/-- `path.contains("//")`. -/
def doubleSlash : List Char → Bool
  | a :: b :: rest => (a == '/' && b == '/') || doubleSlash (b :: rest)
  | _ => false

/-- `trim_start_matches('/')`. -/
def trimStartMatches (path : List Char) : List Char := path.dropWhile (· == '/')

/-- `trim_matches('/')`. -/
def trimMatches (path : List Char) : List Char := (trimStartMatches path).rdropWhile (· == '/')

/-- A segment that a request may name. -/
def PublicSegment (segment : List Char) : Prop :=
  segment ≠ [] ∧ segment ≠ ['.'] ∧ segment ≠ ['.', '.'] ∧ '/' ∉ segment ∧ '\\' ∉ segment ∧
    ∀ c ∈ segment, isControl c = false

instance (segment : List Char) : Decidable (PublicSegment segment) :=
  inferInstanceAs (Decidable (_ ∧ _ ∧ _ ∧ _ ∧ _ ∧ _))

def decodeSegment [PercentEncoding] (value : List Char) : Except PublicPathError (List Char) := do
  let decoded ← ofOption .notFound (utf8Text? (percentDecodeStr value))
  ensure (PublicSegment decoded) .notFound
  return decoded

def publicPath [PercentEncoding] (path rootPath directorySuffix : String)
    (validPath : String → Prop) [DecidablePred validPath] : Except PublicPathError String := do
  let characters := path.toList
  ensure (characters.head? = some '/' ∧ doubleSlash characters = false ∧ '\\' ∉ characters ∧
    '?' ∉ characters ∧ '#' ∉ characters) .notFound
  let directory := characters.getLast? = some '/'
  let raw := if directory then trimMatches characters else trimStartMatches characters
  if raw = [] then return rootPath
  let segments ← (raw.splitOn '/').mapM decodeSegment
  let decoded := String.ofList (['/'].intercalate segments)
  let normalized := if directory then decoded ++ directorySuffix else decoded
  ensure (validPath normalized) .invalidPath
  return normalized

end Sites

/-! ### Hosted yards -/

namespace Yards

structure YardManifestSnapshot where
  files : List NewYardFile
  totalBytes : ℕ

/-- One turn of the loop; the sizes are added in 64 bits. -/
def addFile (snapshot : YardManifestSnapshot) (object : SiteManifestObject) :
    Except ApiError YardManifestSnapshot := do
  let byteSize ← ofOption .invalidRequest object.byteSize
  ensure (snapshot.totalBytes + byteSize ≤ u64Max) .invalidRequest
  return { files := snapshot.files ++
             [{ normalizedPath := object.normalizedPath, versionId := object.versionId, byteSize }]
           totalBytes := snapshot.totalBytes + byteSize }

def snapshotManifest (root : String) (objects : List StoredObjectRecord) :
    Except ApiError YardManifestSnapshot := do
  let objects ← (Sites.snapshotManifest root ValidYardPath objects).mapError
    fun _ => .invalidRequest
  objects.foldlM addFile { files := [], totalBytes := 0 }

def publicRequestPath [PercentEncoding] (path : String) : Except ApiError String :=
  (Sites.publicPath path "" "/" ValidYardRequestPath).mapError fun _ => .notFound

end Yards

/-! ### Previews -/

namespace Previews

/-- `is_valid_preview_path`. -/
def ValidPreviewPath (value : String) : Prop := ValidRelativePath value 1024

instance (value : String) : Decidable (ValidPreviewPath value) :=
  inferInstanceAs (Decidable (ValidRelativePath value 1024))

structure NewPreviewFile where
  normalizedPath : String
  versionId : String
  deriving DecidableEq

/-- The answer to a manifest that is refused. -/
def manifestError : SiteManifestError → ApiError
  | .invalid => .invalidRequest
  | .duplicate => .conflict

/-- The answer to a path that is refused. -/
def pathError : PublicPathError → ApiError
  | .invalidPath => .invalidRequest
  | .notFound => .notFound

def snapshotManifest (root : String) (objects : List StoredObjectRecord) :
    Except ApiError (List NewPreviewFile) := do
  let objects ← (Sites.snapshotManifest root ValidPreviewPath objects).mapError manifestError
  return objects.map fun object =>
    { normalizedPath := object.normalizedPath, versionId := object.versionId }

def publicPreviewPath [PercentEncoding] (path : String) : Except ApiError String :=
  (Sites.publicPath path "index.html" "/index.html" ValidPreviewPath).mapError pathError

end Previews

/-! ### What a manifest holds -/

namespace Sites

variable {root : String} {validPath : String → Prop} [DecidablePred validPath]
  {objects : List StoredObjectRecord} {files : List SiteManifestObject}

/-- A file of the manifest is one of the objects, under its path below the root. -/
def FileOf (root : String) (objects : List StoredObjectRecord) (file : SiteManifestObject) : Prop :=
  ∃ object ∈ objects, object.version.objectPath = root ++ file.normalizedPath ∧
    object.version.id = file.versionId ∧ object.version.size = file.byteSize

theorem addObject_spec {files' : List SiteManifestObject} {object : StoredObjectRecord}
    (h : addObject root validPath files object = .ok files') :
    ∃ file, files' = files ++ [file] ∧ validPath file.normalizedPath ∧
      file.normalizedPath ∉ files.map SiteManifestObject.normalizedPath ∧
      FileOf root [object] file := by
  simp only [addObject, bind_eq_ok, ofOption_eq_ok, ensure_eq_ok, pure_eq_ok, exists_const] at h
  obtain ⟨characters, hstrip, hvalid, hnew, rfl⟩ := h
  refine ⟨_, rfl, hvalid, hnew, object, List.mem_singleton_self object, ?_, rfl, rfl⟩
  rw [← String.toList_inj, String.toList_append, String.toList_ofList]
  exact stripPrefix?_eq_some.mp hstrip

/-- The files of a manifest have valid paths, no two the same, and an index document is among
them. -/
theorem snapshotManifest_spec (h : snapshotManifest root validPath objects = .ok files) :
    (∀ file ∈ files, validPath file.normalizedPath ∧ FileOf root objects file) ∧
      (files.map SiteManifestObject.normalizedPath).Nodup ∧
      "index.html" ∈ files.map SiteManifestObject.normalizedPath := by
  simp only [snapshotManifest, bind_eq_ok, ensure_eq_ok, pure_eq_ok, exists_const] at h
  obtain ⟨-, unordered, hfold, hindex, rfl⟩ := h
  have hunordered : (∀ file ∈ unordered, validPath file.normalizedPath ∧ FileOf root objects file) ∧
      (unordered.map SiteManifestObject.normalizedPath).Nodup := by
    refine foldlM_inv (P := fun files : List SiteManifestObject =>
      (∀ file ∈ files, validPath file.normalizedPath ∧ FileOf root objects file) ∧
        (files.map SiteManifestObject.normalizedPath).Nodup) ?_ ?_ hfold
    · rintro files object hobject files' ⟨hfiles, hnodup⟩ hadd
      obtain ⟨file, rfl, hvalid, hnew, other, hother, hfile⟩ := addObject_spec hadd
      obtain rfl := List.mem_singleton.mp hother
      constructor
      · intro other hmem
        rcases List.mem_append.mp hmem with hmem | hmem
        · exact hfiles other hmem
        · obtain rfl := List.mem_singleton.mp hmem
          exact ⟨hvalid, _, hobject, hfile⟩
      · rw [List.map_append, List.nodup_append]
        refine ⟨hnodup, List.nodup_singleton _, fun path hpath other hmem heq => ?_⟩
        obtain rfl := List.mem_singleton.mp hmem
        exact hnew (heq ▸ hpath)
    · exact ⟨fun file hfile => absurd hfile List.not_mem_nil, List.nodup_nil⟩
  have hperm := orderBy_perm SiteManifestObject.normalizedPath unordered
  refine ⟨fun file hfile => hunordered.1 file (hperm.mem_iff.mp hfile), ?_, ?_⟩
  · exact (hperm.map _).nodup_iff.mpr hunordered.2
  · exact (hperm.map _).mem_iff.mpr hindex

end Sites

/-- The files of a yard's manifest have valid paths, and their sizes add up to its own. -/
theorem Yards.snapshotManifest_spec {root : String} {objects : List StoredObjectRecord}
    {snapshot : Yards.YardManifestSnapshot}
    (h : Yards.snapshotManifest root objects = .ok snapshot) :
    (∀ file ∈ snapshot.files, ValidYardPath file.normalizedPath) ∧
      (snapshot.files.map NewYardFile.byteSize).sum = snapshot.totalBytes := by
  simp only [Yards.snapshotManifest, bind_eq_ok, mapError_eq_ok] at h
  obtain ⟨files, hfiles, hfold⟩ := h
  have hvalid := (Sites.snapshotManifest_spec hfiles).1
  refine foldlM_inv (P := fun snapshot : Yards.YardManifestSnapshot =>
    (∀ file ∈ snapshot.files, ValidYardPath file.normalizedPath) ∧
      (snapshot.files.map NewYardFile.byteSize).sum = snapshot.totalBytes) ?_ ?_ hfold
  · rintro snapshot object hobject snapshot' ⟨hfiles, htotal⟩ hadd
    simp only [Yards.addFile, bind_eq_ok, ofOption_eq_ok, ensure_eq_ok, pure_eq_ok,
      exists_const] at hadd
    obtain ⟨byteSize, -, -, rfl⟩ := hadd
    constructor
    · intro file hfile
      rcases List.mem_append.mp hfile with hold | hnew
      · exact hfiles file hold
      · obtain rfl := List.mem_singleton.mp hnew
        exact (hvalid object hobject).1
    · simp only [List.map_append, List.sum_append, htotal, List.map_cons, List.map_nil,
        List.sum_singleton]
  · exact ⟨fun file hfile => absurd hfile List.not_mem_nil, rfl⟩

/-- The files of a preview's manifest have valid paths. -/
theorem Previews.snapshotManifest_spec {root : String} {objects : List StoredObjectRecord}
    {files : List Previews.NewPreviewFile}
    (h : Previews.snapshotManifest root objects = .ok files) :
    ∀ file ∈ files, Previews.ValidPreviewPath file.normalizedPath := by
  simp only [Previews.snapshotManifest, bind_eq_ok, mapError_eq_ok, pure_eq_ok] at h
  obtain ⟨objects', hobjects, rfl⟩ := h
  intro file hfile
  obtain ⟨object, hobject, rfl⟩ := List.mem_map.mp hfile
  exact ((Sites.snapshotManifest_spec hobjects).1 object hobject).1

end Server

end BlobYard
