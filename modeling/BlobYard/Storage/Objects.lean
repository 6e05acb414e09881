/-
What the provider does with whole objects.

Each operation of `Storage/Filesystem` has one rule that says when it succeeds and what
it leaves behind; later proofs use the rules and never unfold the programs.

* `put_eq_ok` with `writeStream_eq_ok` and `writeMetadata_eq_ok` — a successful `put`;
* `put_spec` — its effect on the files, as `Stored`;
* `exists_put` — `put` succeeds where the paths of the key are free;
* `head_eq_ok`, `get_eq_ok`, `getRange_eq_ok` — what a successful read says about the stored files.
-/
import BlobYard.Storage.Filesystem

namespace BlobYard.FilesystemStorage

open Outcome FileTree Filesystem

/-- What an object changes in a file system: its file and its metadata. -/
structure Stored (fs fs' : Filesystem) (key : StorageKey) (source : Bytes)
    (metadata : StorageMetadata) : Prop where
  object : ∀ path, fs'.objects.fileAt path =
    if path = key.path then some source else fs.objects.fileAt path
  description : ∀ path, fs'.metadata.fileAt path =
    if path = key.metadataPath then some metadata else fs.metadata.fileAt path
  fresh : fs.objects.fileAt key.path = none
  multipart : fs'.multipart = fs.multipart

theorem withObjects_eq_ok {fs fs' : Filesystem} {rename : Failure → StorageError}
    {r : Except Failure (Tree (List Char) Bytes)} {keyed : ∀ t, r = .ok t → Keyed t} {u : Unit} :
    fs.withObjects rename r keyed = (.ok u, fs') ↔
      ∃ objects, ∃ h : r = .ok objects, fs' = { fs with objects, keyed := keyed objects h } := by
  unfold withObjects
  cases r with
  | error e => simp
  | ok objects =>
    constructor
    · intro h
      cases h
      exact ⟨objects, rfl, rfl⟩
    · rintro ⟨_, h, rfl⟩
      cases h
      rfl

theorem withObjects_error {fs : Filesystem} {rename : Failure → StorageError}
    {r : Except Failure (Tree (List Char) Bytes)} {keyed : ∀ t, r = .ok t → Keyed t} {e : Failure}
    (h : r = .error e) : fs.withObjects rename r keyed = (.error (rename e), fs) := by
  subst h
  rfl

theorem withMetadata_eq_ok {fs fs' : Filesystem} {rename : Failure → StorageError}
    {r : Except Failure (Tree (List Char) StorageMetadata)} {u : Unit} :
    fs.withMetadata rename r = (.ok u, fs') ↔
      ∃ metadata, r = .ok metadata ∧ fs' = { fs with metadata } := by
  unfold withMetadata
  cases r with
  | error e => simp
  | ok metadata =>
    constructor
    · intro h
      cases h
      exact ⟨metadata, rfl, rfl⟩
    · rintro ⟨_, h, rfl⟩
      cases h
      rfl

theorem writeMetadata_eq_ok {fs fs' : Filesystem} {key : StorageKey} {metadata : StorageMetadata}
    {u : Unit} :
    (writeMetadata key metadata).exec machine fs = (.ok u, fs') ↔
      ∃ parents descriptions, fs.metadata.makeDirs key.metadataPath.dropLast = .ok parents ∧
        parents.create key.metadataPath metadata = .ok descriptions ∧
          fs' = { fs with metadata := descriptions } := by
  simp only [writeMetadata, sys, machine_perform, perform, Procedure.exec_bind_eq_ok, Procedure.exec_mk,
    Program.exec_call, withMetadata_eq_ok]
  constructor
  · rintro ⟨-, _, ⟨parents, hparents, rfl⟩, descriptions, hdescriptions, rfl⟩
    exact ⟨parents, descriptions, hparents, hdescriptions, rfl⟩
  · rintro ⟨parents, descriptions, hparents, hdescriptions, rfl⟩
    exact ⟨(), _, ⟨parents, hparents, rfl⟩, descriptions, hdescriptions, rfl⟩

theorem describe_eq_ok {fs fs' : Filesystem} {key : StorageKey} {metadata result : StorageMetadata} :
    (describe key metadata).exec machine fs = (.ok result, fs') ↔
      result = metadata ∧ (writeMetadata key metadata).exec machine fs = (.ok (), fs') := by
  have hfail : ∀ (error : StorageError) (s : Filesystem) (u : Unit) (s' : Filesystem),
      (do .ignore (.call (.removeObject key)); .fail error : FileAction Unit).exec machine s ≠
        (.ok u, s') := by
    intro error s u s'
    simp
  rw [describe, Procedure.exec_bind_eq_ok]
  simp only [Procedure.exec_recover_eq_ok hfail, Procedure.exec_pure, Prod.mk.injEq, Except.ok.injEq]
  constructor
  · rintro ⟨_, _, hmetadata, rfl, rfl⟩
    exact ⟨rfl, hmetadata⟩
  · rintro ⟨rfl, hmetadata⟩
    exact ⟨(), fs', hmetadata, rfl, rfl⟩

theorem openFile_eq_ok {γ : Type} {t : Tree (List Char) γ} {path : StoragePath} {content : γ} :
    openFile t path = .ok content ↔ t.fileAt path = some content := by
  unfold openFile Tree.fileAt Forest.fileAt
  cases t.root.lookup path <;> simp

theorem fileLength_eq_ok {t : Tree (List Char) Bytes} {path : StoragePath} {size : ℕ} :
    fileLength t path = .ok (some size) ↔
      ∃ content, t.fileAt path = some content ∧ content.length = size := by
  unfold fileLength Tree.fileAt Forest.fileAt
  cases t.root.lookup path <;> simp

/-- `head` succeeds when a description stands for an object of its size. -/
theorem head_eq_ok {fs fs' : Filesystem} {key : StorageKey} {metadata : StorageMetadata} :
    (head key).exec machine fs = (.ok metadata, fs') ↔
      fs.metadata.fileAt key.metadataPath = some metadata ∧
        (∃ content, fs.objects.fileAt key.path = some content ∧ content.length = metadata.size) ∧
          fs' = fs := by
  simp only [head, sys, machine_perform, perform, Procedure.exec_bind_eq_ok, Procedure.exec_mk,
    Program.exec_call, Procedure.exec_lift, Procedure.exec_pure, ensure_eq_ok, Prod.mk.injEq,
    Except.ok.injEq]
  constructor
  · rintro ⟨_, _, ⟨hread, rfl⟩, _, _, ⟨hlength, rfl⟩, _, _, ⟨rfl, rfl⟩, rfl, rfl⟩
    exact ⟨openFile_eq_ok.mp hread, fileLength_eq_ok.mp hlength, rfl⟩
  · rintro ⟨hmetadata, hobject, rfl⟩
    exact ⟨metadata, fs', ⟨openFile_eq_ok.mpr hmetadata, rfl⟩, some metadata.size, fs',
      ⟨fileLength_eq_ok.mpr hobject, rfl⟩, (), fs', ⟨rfl, rfl⟩, rfl, rfl⟩

/-- `get` returns the object that `head` describes. -/
theorem get_eq_ok {fs fs' : Filesystem} {key : StorageKey} {metadata : StorageMetadata}
    {content : Bytes} :
    (get key).exec machine fs = (.ok (metadata, content), fs') ↔
      fs.metadata.fileAt key.metadataPath = some metadata ∧
        fs.objects.fileAt key.path = some content ∧ content.length = metadata.size ∧ fs' = fs := by
  simp only [get, sys, Procedure.exec_bind_eq_ok, head_eq_ok, Procedure.exec_mk, Program.exec_call,
    Procedure.exec_pure, machine_perform, perform, Prod.mk.injEq, Except.ok.injEq]
  constructor
  · rintro ⟨stored, _, ⟨hmetadata, ⟨content', hobject, hlength⟩, rfl⟩, _, _, ⟨hopen, rfl⟩,
      ⟨rfl, rfl⟩, rfl⟩
    have hopened := openFile_eq_ok.mp hopen
    obtain rfl : content' = _ := Option.some.inj (hobject.symm.trans hopened)
    have htake : content'.take stored.size = content' := List.take_of_length_le hlength.le
    rw [htake]
    exact ⟨hmetadata, hobject, hlength, rfl⟩
  · rintro ⟨hmetadata, hobject, hlength, rfl⟩
    refine ⟨metadata, fs', ⟨hmetadata, ⟨content, hobject, hlength⟩, rfl⟩, content, fs',
      ⟨openFile_eq_ok.mpr hobject, rfl⟩, ⟨rfl, ?_⟩, rfl⟩
    exact List.take_of_length_le hlength.le

/-- `get` with a range returns that part of the object that `head` describes. -/
theorem getRange_eq_ok {fs fs' : Filesystem} {key : StorageKey} {requested : Option ByteRange}
    {metadata : StorageMetadata} {range : ByteRange} {bytes : Bytes} :
    (getRange key requested).exec machine fs = (.ok (metadata, range, bytes), fs') ↔
      fs.metadata.fileAt key.metadataPath = some metadata ∧
        range = requested.getD ⟨0, metadata.size⟩ ∧ range.start ≤ range.stop ∧
        range.stop ≤ metadata.size ∧
        (∃ content, fs.objects.fileAt key.path = some content ∧
          content.length = metadata.size ∧ bytes = range.slice content) ∧ fs' = fs := by
  simp only [getRange, sys, Procedure.exec_bind_eq_ok, head_eq_ok, Procedure.exec_mk,
    Program.exec_call, Procedure.exec_pure, Procedure.exec_lift, machine_perform, perform,
    ensure_eq_ok, Prod.mk.injEq, Except.ok.injEq]
  constructor
  · rintro ⟨stored, _, ⟨hmetadata, ⟨content, hobject, hlength⟩, rfl⟩, _, _, ⟨hstart, rfl⟩, _, _,
      ⟨hstop, rfl⟩, opened, _, ⟨hopen, rfl⟩, ⟨rfl, rfl, rfl⟩, rfl⟩
    obtain rfl := Option.some.inj (hobject.symm.trans (openFile_eq_ok.mp hopen))
    exact ⟨hmetadata, rfl, hstart, hstop, ⟨content, hobject, hlength, rfl⟩, rfl⟩
  · rintro ⟨hmetadata, rfl, hstart, hstop, ⟨content, hobject, hlength, rfl⟩, rfl⟩
    exact ⟨metadata, fs', ⟨hmetadata, ⟨content, hobject, hlength⟩, rfl⟩, (), fs', ⟨hstart, rfl⟩,
      (), fs', ⟨hstop, rfl⟩, content, fs', ⟨openFile_eq_ok.mpr hobject, rfl⟩, ⟨rfl, rfl, rfl⟩, rfl⟩

/-- No directory of the provider is empty. -/
def Populated (fs : Filesystem) : Prop := fs.objects.Populated ∧ fs.metadata.Populated

theorem populated_fresh : Populated Filesystem.fresh :=
  ⟨Tree.populated_empty, Tree.populated_empty⟩

variable [Digest]

theorem writeStream_eq_ok {fs fs' : Filesystem} {key : StorageKey} {source : Bytes}
    {expected : Option ObjectChecksum} {metadata : StorageMetadata} :
    (writeStream key source expected).exec machine fs = (.ok metadata, fs') ↔
      hashed source = .ok metadata ∧ (∀ checksum ∈ expected, checksum = metadata.checksum) ∧
        ∃ parents objects, fs.objects.makeDirs key.path.dropLast = .ok parents ∧
          parents.create key.path source = .ok objects ∧
            ∃ keyed, fs' = { fs with objects, keyed } := by
  simp only [writeStream, sys, machine_perform, perform, Procedure.exec_bind_eq_ok, Procedure.exec_mk,
    Program.exec_call, Procedure.exec_lift, Procedure.exec_pure, withObjects_eq_ok, ensure_eq_ok,
    Prod.mk.injEq, Except.ok.injEq]
  constructor
  · rintro ⟨-, _, ⟨parents, hparents, rfl⟩, _, _, ⟨hhash, rfl⟩, -, _, ⟨hexpected, rfl⟩, -, _,
      ⟨objects, hobjects, rfl⟩, rfl, rfl⟩
    exact ⟨hhash, hexpected, parents, objects, hparents, hobjects, _, rfl⟩
  · rintro ⟨hhash, hexpected, parents, objects, hparents, hobjects, keyed, rfl⟩
    exact ⟨(), _, ⟨parents, hparents, rfl⟩, metadata, _, ⟨hhash, rfl⟩, (), _, ⟨hexpected, rfl⟩, (),
      _, ⟨objects, hobjects, rfl⟩, rfl, rfl⟩

theorem put_eq_ok {fs fs' : Filesystem} {key : StorageKey} {source : Bytes}
    {expected : Option ObjectChecksum} {metadata : StorageMetadata} :
    (put key source expected).exec machine fs = (.ok metadata, fs') ↔ ∃ fs₁,
      (writeStream key source expected).exec machine fs = (.ok metadata, fs₁) ∧
        (writeMetadata key metadata).exec machine fs₁ = (.ok (), fs') := by
  rw [put, Procedure.exec_bind_eq_ok]
  constructor
  · rintro ⟨_, fs₁, hstream, hdescribe⟩
    obtain ⟨rfl, hmetadata⟩ := describe_eq_ok.mp hdescribe
    exact ⟨fs₁, hstream, hmetadata⟩
  · rintro ⟨fs₁, hstream, hmetadata⟩
    exact ⟨metadata, fs₁, hstream, describe_eq_ok.mpr ⟨rfl, hmetadata⟩⟩

/-- What a successful `put` does. -/
theorem put_spec {fs fs' : Filesystem} {key : StorageKey} {source : Bytes}
    {expected : Option ObjectChecksum} {metadata : StorageMetadata}
    (h : (put key source expected).exec machine fs = (.ok metadata, fs')) :
    hashed source = .ok metadata ∧ (∀ checksum ∈ expected, checksum = metadata.checksum) ∧
      Stored fs fs' key source metadata := by
  obtain ⟨fs₁, hstream, hmetadata⟩ := put_eq_ok.mp h
  obtain ⟨hhash, hexpected, parents, objects, hparents, hobjects, keyed, rfl⟩ :=
    writeStream_eq_ok.mp hstream
  obtain ⟨parents', descriptions, hparents', hdescriptions, rfl⟩ := writeMetadata_eq_ok.mp hmetadata
  refine ⟨hhash, hexpected, ?_, ?_, ?_, rfl⟩
  · intro path
    show objects.fileAt path = _
    rw [Tree.fileAt_create hobjects, Tree.fileAt_makeDirs hparents]
  · intro path
    show descriptions.fileAt path = _
    rw [Tree.fileAt_create hdescriptions, Tree.fileAt_makeDirs hparents']
  · rw [← Tree.fileAt_makeDirs hparents]
    exact (Forest.missing_iff.mp (Tree.create_ok hobjects).1).1 _ (List.prefix_refl _)

theorem Populated.put {fs fs' : Filesystem} (hfs : Populated fs) {key : StorageKey}
    {source : Bytes} {expected : Option ObjectChecksum} {metadata : StorageMetadata}
    (h : (put key source expected).exec machine fs = (.ok metadata, fs')) : Populated fs' := by
  obtain ⟨fs₁, hstream, hmetadata⟩ := put_eq_ok.mp h
  obtain ⟨-, -, parents, objects, hparents, hobjects, keyed, rfl⟩ := writeStream_eq_ok.mp hstream
  obtain ⟨parents', descriptions, hparents', hdescriptions, rfl⟩ := writeMetadata_eq_ok.mp hmetadata
  exact ⟨hfs.1.create hparents hobjects, hfs.2.create hparents' hdescriptions⟩

/-- A verified object is stored wherever the paths of its key are free. -/
theorem exists_put {fs : Filesystem} (hfs : Populated fs) {key : StorageKey} {source : Bytes}
    {expected : Option ObjectChecksum} {metadata : StorageMetadata}
    (hhash : hashed source = .ok metadata)
    (hexpected : ∀ checksum ∈ expected, checksum = metadata.checksum)
    (hobject : fs.objects.Free key.path) (hdescription : fs.metadata.Free key.metadataPath) :
    ∃ fs', (put key source expected).exec machine fs = (.ok metadata, fs') := by
  obtain ⟨parents, objects, hparents, hobjects⟩ :=
    hfs.1.exists_create key.path_ne_nil hobject source
  obtain ⟨parents', descriptions, hparents', hdescriptions⟩ :=
    hfs.2.exists_create key.metadataPath_ne_nil hdescription metadata
  refine ⟨_, put_eq_ok.mpr ⟨_, writeStream_eq_ok.mpr ⟨hhash, hexpected, parents, objects, hparents,
    hobjects, (fs.keyed.makeDirs hparents).create hobjects, rfl⟩, writeMetadata_eq_ok.mpr
      ⟨parents', descriptions, hparents', hdescriptions, rfl⟩⟩⟩

end BlobYard.FilesystemStorage
