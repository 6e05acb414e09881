/-
What the provider keeps when system calls fail.

A call that fails has no effect here, and an operation may stop after any of its calls.  However
an operation goes, the objects that were whole before are whole afterwards, unless it is the
deletion of their key; and where there was no stray description before, there is none afterwards.

* `Holds` — an object and the description that describes it;
* `Described` — a description at the key is one of the object there;
* `Keeps` — both are kept from one state to another, but for some keys;
* `stagedKey`, `Vanishing` — the key of a staged upload, which never turns into another;
* `put_throughout`, `finishMultipart_throughout` and their likes — the operations, call by call.
-/
import BlobYard.Lib.Faults
import BlobYard.Storage.Objects

namespace BlobYard.FilesystemStorage

open Outcome FileTree Filesystem

/-! ### Calls -/

/-- The rule for one system call; one that fails answers with an error. -/
theorem throughout_sys {I : Filesystem → Prop} {c : FileCommand} {P : c.Value → Filesystem → Prop}
    {fs : Filesystem} (hs : I fs)
    (h : I (perform c fs).2 ∧ ∀ a, (perform c fs).1 = .ok a → P a (perform c fs).2) :
    (sys c).Throughout machine I P fs := by
  refine Program.throughout_call hs h fun a ha => ?_
  cases ha

/-- A call that reads. -/
theorem throughout_read {I : Filesystem → Prop} {c : FileCommand} {P : c.Value → Filesystem → Prop}
    {fs : Filesystem} (hs : I fs) (hread : (perform c fs).2 = fs)
    (h : ∀ a, (perform c fs).1 = .ok a → P a fs) : (sys c).Throughout machine I P fs := by
  refine throughout_sys hs ⟨hread.symm ▸ hs, fun a ha => ?_⟩
  rw [hread]
  exact h a ha

/-- A program of calls that read, among states of another kind. -/
theorem throughout_of_read {α : Type} {I : Filesystem → Prop} {x : FileAction α}
    {P : α → Filesystem → Prop} {fs : Filesystem} (hs : I fs)
    (h : x.Throughout machine (fun t => t = fs) P fs) :
    x.Throughout machine I (fun a t => P a fs ∧ t = fs) fs := by
  refine (h.mono fun a t ht ha => ?_).weaken fun t ht => ht ▸ hs
  subst ht
  exact ⟨ha, rfl⟩

/-- What can become of a tree of files in a call. -/
theorem withObjects_cases (fs : Filesystem) (rename : Failure → StorageError)
    (r : Except Failure (Tree (List Char) Bytes)) (keyed : ∀ t, r = .ok t → Keyed t) :
    (∃ e, fs.withObjects rename r keyed = (.error e, fs)) ∨
      ∃ objects, ∃ h : r = .ok objects,
        fs.withObjects rename r keyed = (.ok (), { fs with objects, keyed := keyed objects h }) := by
  cases r with
  | error e => exact Or.inl ⟨_, rfl⟩
  | ok objects => exact Or.inr ⟨objects, rfl, rfl⟩

theorem withMetadata_cases (fs : Filesystem) (rename : Failure → StorageError)
    (r : Except Failure (Tree (List Char) StorageMetadata)) :
    (∃ e, fs.withMetadata rename r = (.error e, fs)) ∨
      ∃ metadata, r = .ok metadata ∧
        fs.withMetadata rename r = (.ok (), { fs with metadata }) := by
  cases r with
  | error e => exact Or.inl ⟨_, rfl⟩
  | ok metadata => exact Or.inr ⟨metadata, rfl, rfl⟩

/-! ### Staged uploads -/

/-- The key in a key file. -/
def keyOf : Option StagedFile → Option StorageKey
  | some (.key key) => some key
  | _ => none

/-- The key that a staged upload is for. -/
def stagedKey (fs : Filesystem) (id : String) : Option StorageKey := keyOf (fs.stagedFile id .key)

/-- Staged uploads keep their keys, or lose them. -/
def Vanishing (fs t : Filesystem) : Prop :=
  ∀ id, stagedKey t id = stagedKey fs id ∨ stagedKey t id = none

theorem stagedKey_congr {fs t : Filesystem} (h : t.multipart = fs.multipart) (id : String) :
    stagedKey t id = stagedKey fs id := by
  unfold stagedKey stagedFile
  rw [h]

theorem Vanishing.refl (fs : Filesystem) : Vanishing fs fs := fun _ => Or.inl rfl

theorem Vanishing.trans {fs t u : Filesystem} (h : Vanishing fs t) (h' : Vanishing t u) :
    Vanishing fs u := by
  intro id
  rcases h' id with hu | hu
  · rw [hu]
    exact h id
  · exact Or.inr hu

theorem vanishing_of_multipart {fs t : Filesystem} (h : t.multipart = fs.multipart) :
    Vanishing fs t := fun id => Or.inl (stagedKey_congr h id)

/-- A staged file is read back under its name, and the others are as they were. -/
theorem find?_write (upload : StagedUpload) (file : StagedFile) (name : StagedName) :
    (upload.write file).files.find? name =
      if name = file.name then some file else upload.files.find? name := by
  obtain ⟨files, hfiles⟩ := Table.insert?_isSome (t := upload.files.erase fun f =>
    f.name = file.name) (r := file) fun x hx => (Table.mem_erase.mp hx).2
  show (((upload.files.erase fun f => f.name = file.name).insert? file).getD
    upload.files).find? name = _
  rw [hfiles, Option.getD_some, Table.find?_insert hfiles]
  by_cases hname : name = file.name
  · rw [if_pos hname, if_pos hname]
  -- the erased file has the name of the new one
  · rw [if_neg hname, if_neg hname]
    exact (Table.find?_erase_key name).trans (if_neg hname)

/-- The staged files of the uploads after a change of one of them. -/
theorem stagedFile_withUpload (fs : Filesystem) (id other : String) (f : StagedUpload → StagedUpload)
    (hf : ∀ upload, (f upload).id = upload.id) (name : StagedName) :
    (fs.withUpload id f hf).stagedFile other name =
      if other = id then (fs.multipart.find? id).bind fun upload => (f upload).files.find? name
      else fs.stagedFile other name := by
  unfold stagedFile withUpload
  rw [Table.find?_update]
  cases hfind : fs.multipart.find? other with
  | none =>
    split
    · rename_i hid
      subst hid
      rw [hfind]
      rfl
    · rfl
  | some upload =>
    obtain ⟨-, hupload⟩ := Table.find?_eq_some.mp hfind
    by_cases hid : other = id
    · subst hid
      rw [hfind]
      simp [hupload]
    · have hne : ¬upload.id = id := fun h => hid (hupload.symm.trans h)
      simp [hid, hne]

/-- A new staging directory is empty. -/
theorem stagedFile_insert {fs : Filesystem} {id : String} {multipart : Table StagedUpload.id}
    (h : fs.multipart.insert? { id, files := .empty } = some multipart) (other : String)
    (name : StagedName) :
    ({ fs with multipart } : Filesystem).stagedFile other name = fs.stagedFile other name := by
  show (multipart.find? other).bind _ = (fs.multipart.find? other).bind _
  rw [Table.find?_insert h]
  split
  · rename_i hid
    have hnone : fs.multipart.find? other = none := by
      rw [Table.find?_eq_none]
      intro x hx hkey
      exact Table.fresh_of_insert h hx (hkey.trans hid)
    rw [hnone]
    rfl
  · rfl

theorem stagedKey_eq_some {fs : Filesystem} {id : String} {key : StorageKey} :
    stagedKey fs id = some key ↔ fs.stagedFile id .key = some (.key key) := by
  unfold stagedKey
  rcases fs.stagedFile id .key with _ | (_ | _) <;> simp [keyOf]

/-! ### Objects -/

section Holds

variable [Digest]

/-- The object is there, and so is the description that describes it. -/
structure Holds (fs : Filesystem) (key : StorageKey) (metadata : StorageMetadata) : Prop where
  description : fs.metadata.fileAt key.metadataPath = some metadata
  object : ∃ content, fs.objects.fileAt key.path = some content ∧ hashed content = .ok metadata

/-- A description at the key is one of the object there. -/
def Described (fs : Filesystem) (key : StorageKey) : Prop :=
  ∀ metadata, fs.metadata.fileAt key.metadataPath = some metadata → Holds fs key metadata

/-- What is whole stays whole and no stray description appears, but for the keys of `gone`. -/
structure Keeps (fs t : Filesystem) (gone : StorageKey → Prop) : Prop where
  holds : ∀ key metadata, ¬gone key → Holds fs key metadata → Holds t key metadata
  described : ∀ key, ¬gone key → Described fs key → Described t key

variable {fs t u : Filesystem} {key : StorageKey} {source : Bytes} {metadata : StorageMetadata}
  {gone : StorageKey → Prop}

theorem holds_congr (hobject : t.objects.fileAt key.path = fs.objects.fileAt key.path)
    (hdescription : t.metadata.fileAt key.metadataPath = fs.metadata.fileAt key.metadataPath) :
    Holds t key metadata ↔ Holds fs key metadata := by
  constructor
  · rintro ⟨hdescribed, content, hcontent, hhash⟩
    exact ⟨hdescription ▸ hdescribed, content, hobject ▸ hcontent, hhash⟩
  · rintro ⟨hdescribed, content, hcontent, hhash⟩
    exact ⟨hdescription.trans hdescribed, content, hobject.trans hcontent, hhash⟩

/-- Where the files of the keys are the same, everything is kept. -/
theorem keeps_of_same
    (h : ∀ key : StorageKey, ¬gone key → t.objects.fileAt key.path = fs.objects.fileAt key.path ∧
      t.metadata.fileAt key.metadataPath = fs.metadata.fileAt key.metadataPath) :
    Keeps fs t gone where
  holds key _ hkey hholds := (holds_congr (h key hkey).1 (h key hkey).2).mpr hholds
  described key hkey hdescribed metadata hdescription :=
    (holds_congr (h key hkey).1 (h key hkey).2).mpr
      (hdescribed metadata ((h key hkey).2 ▸ hdescription))

theorem Keeps.trans (h : Keeps fs t gone) (h' : Keeps t u gone) : Keeps fs u gone where
  holds key metadata hkey hholds := h'.holds key metadata hkey (h.holds key metadata hkey hholds)
  described key hkey hdescribed := h'.described key hkey (h.described key hkey hdescribed)

theorem Keeps.mono {gone' : StorageKey → Prop} (h : Keeps fs t gone)
    (himp : ∀ key, gone key → gone' key) : Keeps fs t gone' where
  holds key metadata hkey := h.holds key metadata fun hgone => hkey (himp key hgone)
  described key hkey := h.described key fun hgone => hkey (himp key hgone)

/-- How far the storing of an object has come. -/
inductive Storing (fs t : Filesystem) (key : StorageKey) (source : Bytes) : Prop
  | before : t.objects.fileAt = fs.objects.fileAt → t.metadata.fileAt = fs.metadata.fileAt →
    Storing fs t key source
  | persisted : fs.objects.fileAt key.path = none →
    (∀ path, t.objects.fileAt path =
      if path = key.path then some source else fs.objects.fileAt path) →
    t.metadata.fileAt = fs.metadata.fileAt → Storing fs t key source
  /-- The object is whole. -/
  | described {metadata : StorageMetadata} : fs.objects.fileAt key.path = none →
    fs.metadata.fileAt key.metadataPath = none → hashed source = .ok metadata →
    (∀ path, t.objects.fileAt path =
      if path = key.path then some source else fs.objects.fileAt path) →
    (∀ path, t.metadata.fileAt path =
      if path = key.metadataPath then some metadata else fs.metadata.fileAt path) →
    Storing fs t key source

/-- Storing an object keeps the others, and this one where it was there before. -/
theorem Storing.keeps (h : Storing fs t key source) : Keeps fs t fun _ => False := by
  cases h with
  -- nothing has been stored yet
  | before hobjects hmetadata =>
    refine keeps_of_same fun key _ => ?_
    rw [hobjects, hmetadata]
    exact ⟨rfl, rfl⟩
  | persisted hfree hobjects hmetadata =>
    refine ⟨fun other metadata _ hholds => ?_, fun other _ hdescribed metadata hdescription => ?_⟩
    · obtain ⟨hdescription, content, hcontent, hhash⟩ := hholds
      -- the new object is at a path where there was none
      have hne : other.path ≠ key.path := by
        intro heq
        rw [heq, hfree] at hcontent
        cases hcontent
      exact ⟨by rw [hmetadata, hdescription], content, by rw [hobjects, if_neg hne, hcontent],
        hhash⟩
    -- a description was there before, and so was its object
    · rw [hmetadata] at hdescription
      obtain ⟨-, content, hcontent, hhash⟩ := hdescribed metadata hdescription
      have hne : other.path ≠ key.path := by
        intro heq
        rw [heq, hfree] at hcontent
        cases hcontent
      exact ⟨by rw [hmetadata, hdescription], content, by rw [hobjects, if_neg hne, hcontent],
        hhash⟩
  -- with its description, the object is whole
  | @described metadata hfree hundescribed hhash hobjects hmetadata =>
    have hother : ∀ other : StorageKey, other ≠ key →
        t.objects.fileAt other.path = fs.objects.fileAt other.path ∧
          t.metadata.fileAt other.metadataPath = fs.metadata.fileAt other.metadataPath := by
      intro other hne
      rw [hobjects, hmetadata, if_neg fun h => hne (StorageKey.path_injective h),
        if_neg fun h => hne (StorageKey.metadataPath_injective h)]
      exact ⟨rfl, rfl⟩
    -- and it is whole because the checksum was taken of what was stored
    have hkey : Holds t key metadata :=
      ⟨by rw [hmetadata, if_pos rfl], source, by rw [hobjects, if_pos rfl], hhash⟩
    refine ⟨fun other metadata' _ hholds => ?_, fun other _ hdescribed metadata' hdescription => ?_⟩
    · by_cases heq : other = key
      · subst heq
        obtain ⟨-, content, hcontent, -⟩ := hholds
        rw [hfree] at hcontent
        cases hcontent
      · exact (holds_congr (hother other heq).1 (hother other heq).2).mpr hholds
    · by_cases heq : other = key
      · subst heq
        have hsame : metadata' = metadata :=
          Option.some.inj (hdescription.symm.trans hkey.description)
        exact hsame ▸ hkey
      · rw [(hother other heq).2] at hdescription
        exact (holds_congr (hother other heq).1 (hother other heq).2).mpr
          (hdescribed metadata' hdescription)

/-! ### Storing, call by call -/

/-- The files are those of `fs`. -/
structure Unchanged (fs t : Filesystem) : Prop where
  objects : t.objects.fileAt = fs.objects.fileAt
  metadata : t.metadata.fileAt = fs.metadata.fileAt
  multipart : t.multipart = fs.multipart

omit [Digest] in
theorem Unchanged.refl (fs : Filesystem) : Unchanged fs fs := ⟨rfl, rfl, rfl⟩

/-- The object is new, and has no description yet. -/
structure Persisted (fs t : Filesystem) (key : StorageKey) (source : Bytes) : Prop where
  fresh : fs.objects.fileAt key.path = none
  objects : ∀ path, t.objects.fileAt path =
    if path = key.path then some source else fs.objects.fileAt path
  metadata : t.metadata.fileAt = fs.metadata.fileAt
  multipart : t.multipart = fs.multipart

/-- The states of an operation that stores an object. -/
def Stores (fs : Filesystem) (key : StorageKey) (source : Bytes) (t : Filesystem) : Prop :=
  Storing fs t key source ∧ t.multipart = fs.multipart

theorem Unchanged.stores (h : Unchanged fs t) : Stores fs key source t :=
  ⟨.before h.objects h.metadata, h.multipart⟩

theorem Persisted.stores (h : Persisted fs t key source) : Stores fs key source t :=
  ⟨.persisted h.fresh h.objects h.metadata, h.multipart⟩

theorem makeObjectParents_throughout (h : Unchanged fs t) :
    (sys (.makeObjectParents key)).Throughout machine (Stores fs key source)
      (fun _ u => Unchanged fs u) t := by
  rcases withObjects_cases t (fun _ => .unavailable) (t.objects.makeDirs key.path.dropLast)
    (fun _ => t.keyed.makeDirs) with ⟨e, hcall⟩ | ⟨objects, hdirs, hcall⟩
  · refine throughout_sys h.stores ?_
    rw [perform, hcall]
    exact ⟨h.stores, fun _ _ => h⟩
  · refine throughout_sys h.stores ?_
    rw [perform, hcall]
    have hsame : Unchanged fs { t with objects, keyed := t.keyed.makeDirs hdirs } :=
      ⟨(funext (Tree.fileAt_makeDirs hdirs)).trans h.objects, h.metadata, h.multipart⟩
    exact ⟨hsame.stores, fun _ _ => hsame⟩

theorem persistObject_throughout (h : Unchanged fs t) :
    (sys (.persistObject key source)).Throughout machine (Stores fs key source)
      (fun _ u => Persisted fs u key source) t := by
  rcases withObjects_cases t mapPersistError (t.objects.create key.path source)
    (fun _ => t.keyed.create) with ⟨e, hcall⟩ | ⟨objects, hcreate, hcall⟩
  · refine throughout_sys h.stores ?_
    rw [perform, hcall]
    refine ⟨h.stores, fun a ha => ?_⟩
    cases ha
  · refine throughout_sys h.stores ?_
    rw [perform, hcall]
    have hfresh : t.objects.fileAt key.path = none :=
      (Forest.missing_iff.mp (Tree.create_ok hcreate).1).1 _ (List.prefix_refl _)
    have hpersisted : Persisted fs { t with objects, keyed := t.keyed.create hcreate } key
        source := by
      refine ⟨h.objects ▸ hfresh, fun path => ?_, h.metadata, h.multipart⟩
      rw [Tree.fileAt_create hcreate, h.objects]
    exact ⟨hpersisted.stores, fun _ _ => hpersisted⟩

theorem makeMetadataParents_throughout (h : Persisted fs t key source) :
    (sys (.makeMetadataParents key)).program.Throughout machine (Stores fs key source)
      (fun _ u => Persisted fs u key source) t := by
  rcases withMetadata_cases t (fun _ => .unavailable)
    (t.metadata.makeDirs key.metadataPath.dropLast) with ⟨e, hcall⟩ | ⟨metadata, hdirs, hcall⟩
  · refine Program.throughout_call h.stores ?_ h
    rw [machine_perform, perform, hcall]
    exact ⟨h.stores, h⟩
  · refine Program.throughout_call h.stores ?_ h
    rw [machine_perform, perform, hcall]
    have hsame : Persisted fs { t with metadata } key source :=
      ⟨h.fresh, h.objects, (funext (Tree.fileAt_makeDirs hdirs)).trans h.metadata, h.multipart⟩
    exact ⟨hsame.stores, hsame⟩

/-- The object is whole, or it still has no description. -/
def Written (fs : Filesystem) (key : StorageKey) (source : Bytes) (metadata : StorageMetadata) :
    Except StorageError Unit → Filesystem → Prop
  | .ok _, t => Holds t key metadata
  | .error _, t => Persisted fs t key source

theorem persistMetadata_throughout (h : Persisted fs t key source)
    (hhash : hashed source = .ok metadata) :
    (sys (.persistMetadata key metadata)).program.Throughout machine (Stores fs key source)
      (Written fs key source metadata) t := by
  rcases withMetadata_cases t (fun _ => .conflict) (t.metadata.create key.metadataPath metadata)
    with ⟨e, hcall⟩ | ⟨descriptions, hcreate, hcall⟩
  · refine Program.throughout_call h.stores ?_ h
    rw [machine_perform, perform, hcall]
    exact ⟨h.stores, h⟩
  · refine Program.throughout_call h.stores ?_ h
    rw [machine_perform, perform, hcall]
    have hfresh : t.metadata.fileAt key.metadataPath = none :=
      (Forest.missing_iff.mp (Tree.create_ok hcreate).1).1 _ (List.prefix_refl _)
    have hdescriptions : ∀ path, descriptions.fileAt path =
        if path = key.metadataPath then some metadata else fs.metadata.fileAt path := by
      intro path
      rw [Tree.fileAt_create hcreate, h.metadata]
    refine ⟨⟨.described h.fresh (h.metadata ▸ hfresh) hhash h.objects hdescriptions, h.multipart⟩,
      ?_⟩
    exact ⟨(hdescriptions _).trans (if_pos rfl), source, (h.objects _).trans (if_pos rfl), hhash⟩

/-- Taking the object back. -/
theorem removeObject_throughout (h : Persisted fs t key source) :
    (Program.call (.removeObject key)).Throughout machine (Stores fs key source)
      (fun _ u => Stores fs key source u) t := by
  rcases withObjects_cases t mapIo (t.objects.remove key.path) (fun _ => t.keyed.remove) with
    ⟨e, hcall⟩ | ⟨objects, hremove, hcall⟩
  · refine Program.throughout_call h.stores ?_ h.stores
    rw [machine_perform, perform, hcall]
    exact ⟨h.stores, h.stores⟩
  · refine Program.throughout_call h.stores ?_ h.stores
    rw [machine_perform, perform, hcall]
    have hback : objects.fileAt = fs.objects.fileAt := by
      funext path
      rw [Tree.fileAt_remove hremove, h.objects]
      split
      -- no object stood there before this one
      · rename_i hpath
        rw [hpath, h.fresh]
      · rfl
    have hstores : Stores fs key source { t with objects, keyed := t.keyed.remove hremove } :=
      ⟨.before hback h.metadata, h.multipart⟩
    exact ⟨hstores, hstores⟩

theorem describe_throughout (h : Persisted fs t key source)
    (hhash : hashed source = .ok metadata) :
    (describe key metadata).Throughout machine (Stores fs key source)
      (fun r u => r = metadata ∧ Holds u key r) t := by
  have hwrite : (writeMetadata key metadata).program.Throughout machine (Stores fs key source)
      (Written fs key source metadata) t := by
    refine Program.Throughout.bind (makeMetadataParents_throughout h) fun r u hI hu => ?_
    cases r with
    | error e => exact ⟨hI, hu⟩
    | ok a => exact persistMetadata_throughout hu hhash
  refine Procedure.Throughout.bind (P := fun _ u => Holds u key metadata) ?_ fun _ u hI hu =>
    Procedure.throughout_pure hI ⟨rfl, hu⟩
  refine Procedure.throughout_recover (hwrite.mono fun r u hI hr => ?_)
  cases r with
  | ok a => exact hr
  | error e =>
    refine Procedure.Throughout.bind (P := fun _ _ => True) ?_ fun _ u hI _ =>
      Procedure.throughout_fail hI
    exact Procedure.throughout_ignore ((removeObject_throughout hr).mono fun _ _ _ _ => trivial)

/-- Storing an object that was not promised to be there. -/
theorem put_throughout (fs : Filesystem) (key : StorageKey) (source : Bytes)
    (expected : Option ObjectChecksum) :
    (put key source expected).Throughout machine (Stores fs key source)
      (fun r u => hashed source = .ok r ∧ (∀ checksum ∈ expected, checksum = r.checksum) ∧
        Holds u key r) fs := by
  have hstream : (writeStream key source expected).Throughout machine (Stores fs key source)
      (fun r u => hashed source = .ok r ∧ (∀ checksum ∈ expected, checksum = r.checksum) ∧
        Persisted fs u key source) fs := by
    refine (makeObjectParents_throughout (Unchanged.refl fs)).bind fun _ t _ ht => ?_
    refine Procedure.throughout_lift_bind ht.stores fun metadata hhash => ?_
    refine Procedure.throughout_lift_bind ht.stores fun _ hexpected => ?_
    refine (persistObject_throughout ht).bind fun _ u _ hu => ?_
    exact Procedure.throughout_pure hu.stores ⟨hhash, ensure_eq_ok.mp hexpected, hu⟩
  refine hstream.bind fun metadata t _ ht => ?_
  obtain ⟨hhash, hexpected, hpersisted⟩ := ht
  refine (describe_throughout hpersisted hhash).mono fun r u _ hr => ?_
  obtain ⟨rfl, hholds⟩ := hr
  exact ⟨hhash, hexpected, hholds⟩

/-- Storing the parts of an upload as one object. -/
theorem putReaders_throughout (h : Unchanged fs t) (readers : List Bytes) :
    (putReaders key readers).Throughout machine (Stores fs key readers.flatten)
      (fun r u => hashed readers.flatten = .ok r ∧ Holds u key r) t := by
  refine (makeObjectParents_throughout h).bind fun _ t _ ht => ?_
  refine Procedure.throughout_lift_bind ht.stores fun metadata hhash => ?_
  refine (persistObject_throughout ht).bind fun _ w _ hw => ?_
  refine (describe_throughout hw hhash).mono fun r u _ hr => ?_
  obtain ⟨rfl, hholds⟩ := hr
  exact ⟨hhash, hholds⟩

/-! ### Reading and deleting -/

omit [Digest] in
/-- A program of calls that read leaves everything as it is. -/
theorem head_throughout (fs : Filesystem) (key : StorageKey) :
    (head key).Throughout machine (fun t => t = fs)
      (fun r _ => fs.metadata.fileAt key.metadataPath = some r ∧
        ∃ content, fs.objects.fileAt key.path = some content) fs := by
  have hread : (sys (.readMetadata key)).Throughout machine (fun t => t = fs)
      (fun r _ => fs.metadata.fileAt key.metadataPath = some r) fs :=
    throughout_read rfl rfl fun r hr => openFile_eq_ok.mp hr
  have hlength : (sys (.objectLength key)).Throughout machine (fun t => t = fs)
      (fun r _ => ∀ size, r = some size → ∃ content, fs.objects.fileAt key.path = some content)
      fs := by
    refine throughout_read rfl rfl fun r hr size hsize => ?_
    subst hsize
    obtain ⟨content, hcontent, -⟩ := fileLength_eq_ok.mp hr
    exact ⟨content, hcontent⟩
  refine hread.bind fun metadata t ht hmetadata => ?_
  subst ht
  refine hlength.bind fun actual u hu hactual => ?_
  subst hu
  refine Procedure.throughout_lift_bind rfl fun _ hsize => ?_
  exact Procedure.throughout_pure rfl ⟨hmetadata, hactual _ (ensure_eq_ok.mp hsize)⟩

/-- The files of the other keys are those of `fs`. -/
structure Beside (fs t : Filesystem) (key : StorageKey) : Prop where
  objects : ∀ path, path ≠ key.path → t.objects.fileAt path = fs.objects.fileAt path
  metadata : ∀ path, path ≠ key.metadataPath → t.metadata.fileAt path = fs.metadata.fileAt path
  multipart : t.multipart = fs.multipart

theorem Beside.keeps (h : Beside fs t key) : Keeps fs t fun other => other = key :=
  keeps_of_same fun _ hne => ⟨h.objects _ fun heq => hne (StorageKey.path_injective heq),
    h.metadata _ fun heq => hne (StorageKey.metadataPath_injective heq)⟩

omit [Digest] in
theorem delete_throughout (fs : Filesystem) (key : StorageKey) :
    (delete key).Throughout machine (fun t => Beside fs t key) (fun _ _ => True) fs := by
  have hstart : Beside fs fs key := ⟨fun _ _ => rfl, fun _ _ => rfl, rfl⟩
  have hobject : (sys (.removeObject key)).Throughout machine (fun t => Beside fs t key)
      (fun _ _ => True) fs := by
    rcases withObjects_cases fs mapIo (fs.objects.remove key.path) (fun _ => fs.keyed.remove) with
      ⟨e, hcall⟩ | ⟨objects, hremove, hcall⟩
    · refine throughout_sys hstart ?_
      rw [perform, hcall]
      exact ⟨hstart, fun _ _ => trivial⟩
    · refine throughout_sys hstart ?_
      rw [perform, hcall]
      refine ⟨⟨fun path hne => ?_, fun _ _ => rfl, rfl⟩, fun _ _ => trivial⟩
      exact (Tree.fileAt_remove hremove path).trans (if_neg hne)
  -- the description is only removed once the object is
  refine hobject.bind fun _ t ht _ => ?_
  rcases withMetadata_cases t mapIo (t.metadata.remove key.metadataPath) with
    ⟨e, hcall⟩ | ⟨metadata, hremove, hcall⟩
  · refine throughout_sys ht ?_
    rw [perform, hcall]
    exact ⟨ht, fun _ _ => trivial⟩
  · refine throughout_sys ht ?_
    rw [perform, hcall]
    refine ⟨⟨ht.objects, fun path hne => ?_, ht.multipart⟩, fun _ _ => trivial⟩
    exact ((Tree.fileAt_remove hremove path).trans (if_neg hne)).trans (ht.metadata path hne)

/-! ### Staging, call by call -/

/-- The objects and the descriptions are those of `fs`, and staged uploads keep their keys or lose
them. -/
structure Staging (fs t : Filesystem) : Prop where
  objects : t.objects = fs.objects
  metadata : t.metadata = fs.metadata
  vanishing : Vanishing fs t

omit [Digest] in
theorem Staging.refl (fs : Filesystem) : Staging fs fs := ⟨rfl, rfl, Vanishing.refl fs⟩

omit [Digest] in
theorem Staging.trans (h : Staging fs t) (h' : Staging t u) : Staging fs u :=
  ⟨h'.objects.trans h.objects, h'.metadata.trans h.metadata, h.vanishing.trans h'.vanishing⟩

theorem Staging.holds_iff (h : Staging fs t) : Holds t key metadata ↔ Holds fs key metadata :=
  holds_congr (by rw [h.objects]) (by rw [h.metadata])

theorem Staging.keeps (h : Staging fs t) : Keeps fs t gone :=
  keeps_of_same fun _ _ => ⟨by rw [h.objects], by rw [h.metadata]⟩

omit [Digest] in
/-- A change of a staged upload that leaves its key file, or takes it away. -/
theorem staging_withUpload {id : String} {f : StagedUpload → StagedUpload}
    {hf : ∀ upload, (f upload).id = upload.id}
    (h : ∀ upload, (f upload).files.find? .key = upload.files.find? .key ∨
      (f upload).files.find? .key = none) : Staging fs (fs.withUpload id f hf) := by
  refine ⟨rfl, rfl, fun other => ?_⟩
  unfold stagedKey
  rw [stagedFile_withUpload]
  by_cases hid : other = id
  · subst hid
    rw [if_pos rfl]
    unfold stagedFile
    cases fs.multipart.find? other with
    | none => exact Or.inl rfl
    | some upload =>
      simp only [Option.bind_some]
      rcases h upload with hsame | hnone
      · rw [hsame]
        exact Or.inl rfl
      · rw [hnone]
        exact Or.inr rfl
  · rw [if_neg hid]
    exact Or.inl rfl

omit [Digest] in
theorem existingUpload_throughout (fs : Filesystem) (id : String) :
    (existingUpload id).Throughout machine (fun t => t = fs) (fun _ _ => True) fs := by
  refine Procedure.throughout_lift_bind rfl fun _ _ => ?_
  exact throughout_read rfl rfl fun _ _ => trivial

omit [Digest] in
theorem persistPart_throughout (h : Staging fs t) (id : String) (number : ℕ) (content : Bytes) :
    (sys (.persistPart id number content)).Throughout machine (Staging fs) (fun _ _ => True) t := by
  refine throughout_sys h ⟨h.trans ?_, fun _ _ => trivial⟩
  -- the directory may have to be made again, without a key
  have hwrite : ∀ s : Filesystem, Staging s
      (s.withUpload id fun upload => upload.write (.part number content)) := by
    intro s
    refine staging_withUpload fun upload => Or.inl ?_
    rw [find?_write]
    exact if_neg fun hname => by cases hname
  simp only [perform]
  split
  · rename_i multipart hinsert
    refine Staging.trans (t := { t with multipart }) ⟨rfl, rfl, fun other => Or.inl ?_⟩ (hwrite _)
    unfold stagedKey
    rw [stagedFile_insert hinsert]
  · exact hwrite t

omit [Digest] in
theorem removeFiles_throughout (h : Staging fs t) (id : String) (names : List StagedName) :
    (removeFiles id names).Throughout machine (Staging fs) (fun _ _ => True) t := by
  induction names generalizing t with
  | nil => exact Procedure.throughout_pure h trivial
  | cons name names ih =>
    have hremove : Staging t (perform (.removeFile id name) t).2 := by
      refine staging_withUpload fun upload => ?_
      have hfind := Table.find?_erase_key (t := upload.files) (k := name) .key
      -- only the removal of the key file loses the key
      by_cases hname : StagedName.key = name
      · exact Or.inr (hfind.trans (if_pos hname))
      · exact Or.inl (hfind.trans (if_neg hname))
    refine (throughout_sys (P := fun _ _ => True) h
      ⟨h.trans hremove, fun _ _ => trivial⟩).bind fun _ u hu _ => ?_
    exact ih hu

omit [Digest] in
theorem removeDirectory_throughout (h : Staging fs t) (id : String) :
    (removeDirectory id).Throughout machine (Staging fs) (fun _ _ => True) t := by
  refine (throughout_read (P := fun _ _ => True) h rfl fun _ _ => trivial).bind
    fun names u hu _ => ?_
  refine (removeFiles_throughout hu id names).bind fun _ v hv _ => ?_
  have hremove : Staging v (perform (.removeUpload id) v).2 := by
    simp only [perform]
    split
    · rename_i upload hupload
      split
      · refine ⟨rfl, rfl, fun other => ?_⟩
        unfold stagedKey stagedFile
        rw [Table.find?_erase_key]
        by_cases hid : other = id
        · rw [if_pos hid]
          exact Or.inr rfl
        · rw [if_neg hid]
          exact Or.inl rfl
      · exact Staging.refl v
    · exact Staging.refl v
  exact throughout_sys hv ⟨hv.trans hremove, fun _ _ => trivial⟩

/-! ### Staged uploads from their start to their end -/

/-- A new staged upload; the others keep their keys. -/
structure Starting (fs t : Filesystem) (id : String) : Prop where
  objects : t.objects = fs.objects
  metadata : t.metadata = fs.metadata
  staged : ∀ other, other ≠ id → stagedKey t other = stagedKey fs other

omit [Digest] in
theorem startMultipart_throughout (fs : Filesystem) (id : String) (key : StorageKey) :
    (startMultipart id key).Throughout machine (fun t => Starting fs t id)
      (fun r t => r = id ∧ stagedKey t id = some key) fs := by
  -- the directory of the upload comes first, and may fail
  have hstart : Starting fs fs id := ⟨rfl, rfl, fun _ _ => rfl⟩
  have hcreate : (sys (.createUpload id)).Throughout machine (fun t => Starting fs t id)
      (fun _ _ => True) fs := by
    refine throughout_sys hstart ⟨?_, fun _ _ => trivial⟩
    simp only [perform]
    split
    · rename_i multipart hinsert
      refine ⟨rfl, rfl, fun other _ => ?_⟩
      unfold stagedKey
      rw [stagedFile_insert hinsert]
    · exact hstart
  refine hcreate.bind fun _ t ht _ => ?_
  -- its key is written into it
  have hwrite : (sys (.writeKey id key)).Throughout machine (fun t => Starting fs t id)
      (fun _ u => stagedKey u id = some key) t := by
    refine throughout_sys ht ?_
    simp only [perform]
    split
    · rename_i hexists
      obtain ⟨upload, hupload⟩ := Option.isSome_iff_exists.mp hexists
      -- which is the only file of an upload that changes
      have hfile := fun other => stagedFile_withUpload t id other (fun u => u.write (.key key))
        (fun _ => rfl) .key
      refine ⟨⟨ht.objects, ht.metadata, fun other hne => ?_⟩, fun _ _ => ?_⟩
      · rw [← ht.staged other hne]
        exact congrArg keyOf ((hfile other).trans (if_neg hne))
      · refine stagedKey_eq_some.mpr ((hfile id).trans ?_)
        rw [if_pos rfl, hupload, Option.bind_some, find?_write]
        exact if_pos rfl
    · refine ⟨ht, fun a ha => ?_⟩
      cases ha
  exact hwrite.bind fun _ u hu hkey => Procedure.throughout_pure hu ⟨rfl, hkey⟩

theorem storePart_throughout (fs : Filesystem) (upload : String) (number : ℕ) (source : Bytes) :
    (storePart upload number source).Throughout machine (Staging fs) (fun _ _ => True) fs := by
  refine Procedure.throughout_lift_bind (Staging.refl fs) fun _ _ => ?_
  refine (throughout_of_read (Staging.refl fs) (existingUpload_throughout fs upload)).bind
    fun _ t ht _ => ?_
  refine Procedure.throughout_lift_bind ht fun metadata _ => ?_
  refine (persistPart_throughout ht upload number source).bind fun _ u hu _ => ?_
  exact Procedure.throughout_pure hu trivial

omit [Digest] in
theorem cancelMultipart_throughout (fs : Filesystem) (upload : String) :
    (cancelMultipart upload).Throughout machine (Staging fs) (fun _ _ => True) fs := by
  refine (throughout_of_read (Staging.refl fs) (existingUpload_throughout fs upload)).bind
    fun _ t ht _ => ?_
  exact removeDirectory_throughout ht upload

theorem validatedReaders_throughout (fs : Filesystem) (upload : String)
    (parts : List MultipartPart) :
    (validatedReaders upload parts).Throughout machine (fun t => t = fs) (fun _ _ => True) fs := by
  induction parts with
  | nil => exact Procedure.throughout_pure rfl trivial
  | cons part parts ih =>
    have hopen : (sys (.openPart upload part.number)).Throughout machine (fun t => t = fs)
        (fun _ _ => True) fs := throughout_read rfl rfl fun _ _ => trivial
    have hreader : (validatedReader upload part).Throughout machine (fun t => t = fs)
        (fun _ _ => True) fs := by
      refine hopen.bind fun content t ht _ => ?_
      subst ht
      refine Procedure.throughout_lift_bind rfl fun _ _ => ?_
      exact Procedure.throughout_lift_bind rfl fun _ _ => hopen
    refine hreader.bind fun reader t ht _ => ?_
    subst ht
    refine ih.bind fun readers u hu _ => ?_
    exact Procedure.throughout_pure hu trivial

/-- The states of a completion: an object is being stored, then the staging directory goes. -/
def Finishing (fs t : Filesystem) : Prop :=
  Keeps fs t (fun _ => False) ∧ Vanishing fs t

theorem Stores.finishing (h : Stores fs key source t) : Finishing fs t :=
  ⟨h.1.keeps, vanishing_of_multipart h.2⟩

theorem Finishing.staging (h : Finishing fs t) (h' : Staging t u) : Finishing fs u :=
  ⟨h.1.trans h'.keeps, h.2.trans h'.vanishing⟩

/-- A completed upload is whole at the key it was begun for. -/
theorem finishMultipart_throughout (fs : Filesystem) (upload : String)
    (parts : List MultipartPart) :
    (finishMultipart upload parts).Throughout machine (Finishing fs)
      (fun r t => ∃ key, stagedKey fs upload = some key ∧ Holds t key r) fs := by
  have hstart : Finishing fs fs :=
    ⟨keeps_of_same fun _ _ => ⟨rfl, rfl⟩, Vanishing.refl fs⟩
  refine Procedure.throughout_lift_bind hstart fun _ _ => ?_
  refine (throughout_of_read hstart (existingUpload_throughout fs upload)).bind fun _ t _ ht => ?_
  obtain ⟨-, rfl⟩ := ht
  have hkey : (sys (.readKey upload)).Throughout machine (fun u => u = t)
      (fun key _ => stagedKey t upload = some key) t := by
    refine throughout_read rfl rfl fun key hread => ?_
    rw [stagedKey_eq_some]
    simp only [perform] at hread
    split at hread
    · rename_i key' hfile
      rw [hfile, Except.ok.inj hread]
    · cases hread
  refine (throughout_of_read hstart hkey).bind fun key u _ hu => ?_
  obtain ⟨hstaged, rfl⟩ := hu
  refine (throughout_of_read hstart (validatedReaders_throughout u upload parts)).bind
    fun readers v _ hv => ?_
  obtain ⟨-, rfl⟩ := hv
  refine ((putReaders_throughout (Unchanged.refl v) readers).weaken fun w hw => hw.finishing).bind
    fun metadata w hw hholds => ?_
  -- the object is whole; what follows concerns the staging directory only
  have hremove := (removeDirectory_throughout (Staging.refl w) upload).mono
    fun _ x hx _ => (hx.holds_iff.mpr hholds.2 : Holds x key metadata)
  refine (hremove.weaken fun x hx => hw.staging hx).bind fun _ x hx hheld => ?_
  exact Procedure.throughout_pure hx ⟨key, hstaged, hheld⟩

end Holds

end BlobYard.FilesystemStorage
