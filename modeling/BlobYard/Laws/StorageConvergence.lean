/-
What a disturbed `put` or `delete` leaves behind.

An object is two files, written one after the other and removed one after the other.  Where both
are there and agree, or neither is, later operations do what they should.  Where one is there
without the other, they do not come back to either.

* `put_program`, `delete_program` — the system calls of the two operations;
* `converges_iff_settled` — from which states later operations converge;
* `settled_put_iff`, `settled_delete_iff` — which disturbances leave such a state;
* `convergence_law` — the two together.
-/
import BlobYard.Storage.Objects

namespace BlobYard

open Outcome FileTree Filesystem FilesystemStorage

namespace StorageConvergence

section Law

variable [Digest]

/-! ### The system calls -/

/-- The removal of an object whose metadata could not be written. -/
def takeBack (key : StorageKey) (error : StorageError) :
    Program FileCommand FileCommand.Response (Except StorageError StorageMetadata) :=
  .step (.removeObject key) fun _ => .done (.error error)

omit [Digest] in
theorem describe_program (key : StorageKey) (metadata : StorageMetadata) :
    (describe key metadata).program =
      .step (.makeMetadataParents key) fun
        | .error error => takeBack key error
        | .ok _ =>
          .step (.persistMetadata key metadata) fun
            | .error error => takeBack key error
            | .ok _ => .done (.ok metadata) := by
  refine Program.step_congr fun parents => ?_
  cases parents with
  | error error => rfl
  | ok u =>
    refine Program.step_congr fun persisted => ?_
    cases persisted <;> rfl

theorem put_program (key : StorageKey) (source : Bytes) (expected : Option ObjectChecksum) :
    (put key source expected).program =
      .step (.makeObjectParents key) fun
        | .error error => .done (.error error)
        | .ok _ =>
          match hashed source with
          | .error error => .done (.error error)
          | .ok metadata =>
            if ∀ checksum ∈ expected, checksum = metadata.checksum then
              .step (.persistObject key source) fun
                | .error error => .done (.error error)
                | .ok _ => (describe key metadata).program
            else .done (.error .integrityMismatch) := by
  -- the first call is the directory; on its error nothing follows
  refine Program.step_congr fun parents => ?_
  cases parents with
  | error error => rfl
  | ok u =>
    show (do
        let metadata ← .lift (hashed source)
        .lift (ensure (∀ checksum ∈ expected, checksum = metadata.checksum) .integrityMismatch)
        sys (.persistObject key source)
        pure metadata : FileAction StorageMetadata).program.bind
      (Procedure.andThen (describe key)) = _
    -- the rest is decided by the hash of the source and the expected checksum
    cases hhash : hashed source with
    | error error => rfl
    | ok metadata =>
      show (do
          .lift (ensure (∀ checksum ∈ expected, checksum = metadata.checksum) .integrityMismatch)
          sys (.persistObject key source)
          pure metadata : FileAction StorageMetadata).program.bind
        (Procedure.andThen (describe key)) = _
      by_cases hexpected : ∀ checksum ∈ expected, checksum = metadata.checksum
      · rw [ensure, if_pos hexpected]
        simp only [if_pos hexpected]
        refine Program.step_congr fun persisted => ?_
        cases persisted <;> rfl
      · rw [ensure, if_neg hexpected]
        simp only [if_neg hexpected]
        rfl

omit [Digest] in
theorem delete_program (key : StorageKey) :
    (delete key).program =
      .step (.removeObject key) fun
        | .error error => .done (.error error)
        | .ok _ =>
          .step (.removeMetadata key) fun
            | .error error => .done (.error error)
            | .ok _ => .done (.ok ()) := by
  refine Program.step_congr fun removed => ?_
  cases removed with
  | error error => rfl
  | ok u =>
    refine Program.step_congr fun removed' => ?_
    cases removed' <;> rfl

/-! ### The two files of a key -/

/-- What stands at the object path of the key, and what at its metadata path. -/
structure Slot (fs : Filesystem) (key : StorageKey) (object : Lookup Bytes)
    (description : Lookup StorageMetadata) : Prop where
  object : fs.objects.root.lookup key.path = object
  description : fs.metadata.root.lookup key.metadataPath = description

/-- Both files are there, and the one describes the other. -/
def Whole (fs : Filesystem) (key : StorageKey) : Prop :=
  ∃ content metadata, Slot fs key (.file content) (.file metadata) ∧ hashed content = .ok metadata

/-- Neither file is there, and nothing else stands at its path or in its way. -/
def Absent (fs : Filesystem) (key : StorageKey) : Prop := Slot fs key .missing .missing

def Settled (fs : Filesystem) (key : StorageKey) : Prop := Whole fs key ∨ Absent fs key

section Calls

omit [Digest]

variable {fs : Filesystem} {key : StorageKey} {content : Bytes} {metadata : StorageMetadata}
  {object : Lookup Bytes} {description : Lookup StorageMetadata}

theorem makeObjectParents_of_missing (h : Slot fs key .missing description) :
    ∃ fs', perform (.makeObjectParents key) fs = (.ok (), fs') ∧
      Slot fs' key .missing description := by
  obtain ⟨t₁, hparents, hmissing⟩ := Tree.exists_parents h.object
  refine ⟨{ fs with objects := t₁, keyed := fs.keyed.makeDirs hparents },
    withObjects_eq_ok.mpr ⟨t₁, hparents, rfl⟩, hmissing, h.description⟩

theorem makeObjectParents_of_file (h : Slot fs key (.file content) description) :
    perform (.makeObjectParents key) fs = (.ok (), fs) :=
  withObjects_eq_ok.mpr ⟨fs.objects, Tree.makeDirs_of_file h.object, rfl⟩

theorem persistObject_of_missing (h : Slot fs key .missing description) (content : Bytes) :
    ∃ fs', perform (.persistObject key content) fs = (.ok (), fs') ∧
      Slot fs' key (.file content) description := by
  obtain ⟨t, hcreate, hfile⟩ := Tree.exists_file h.object content
  exact ⟨{ fs with objects := t, keyed := fs.keyed.create hcreate },
    withObjects_eq_ok.mpr ⟨t, hcreate, rfl⟩, hfile, h.description⟩

theorem persistObject_of_file (h : Slot fs key (.file content) description) (content' : Bytes) :
    perform (.persistObject key content') fs = (.error .conflict, fs) :=
  withObjects_error (Tree.create_of_file h.object content')

theorem makeMetadataParents_of_missing (h : Slot fs key object .missing) :
    ∃ fs', perform (.makeMetadataParents key) fs = (.ok (), fs') ∧ Slot fs' key object .missing := by
  obtain ⟨t₁, hparents, hmissing⟩ := Tree.exists_parents h.description
  exact ⟨{ fs with metadata := t₁ }, withMetadata_eq_ok.mpr ⟨t₁, hparents, rfl⟩, h.object, hmissing⟩

theorem persistMetadata_of_missing (h : Slot fs key object .missing) (metadata : StorageMetadata) :
    ∃ fs', perform (.persistMetadata key metadata) fs = (.ok (), fs') ∧
      Slot fs' key object (.file metadata) := by
  obtain ⟨t, hcreate, hfile⟩ := Tree.exists_file h.description metadata
  exact ⟨{ fs with metadata := t }, withMetadata_eq_ok.mpr ⟨t, hcreate, rfl⟩, h.object, hfile⟩

theorem removeObject_of_file (h : Slot fs key (.file content) description) :
    ∃ fs', perform (.removeObject key) fs = (.ok (), fs') ∧ Slot fs' key .missing description := by
  obtain ⟨t, hremove, hmissing⟩ := Tree.exists_remove h.object
  exact ⟨{ fs with objects := t, keyed := fs.keyed.remove hremove },
    withObjects_eq_ok.mpr ⟨t, hremove, rfl⟩, hmissing, h.description⟩

theorem removeObject_of_missing (h : Slot fs key .missing description) :
    perform (.removeObject key) fs = (.error .notFound, fs) :=
  withObjects_error (Tree.remove_of_missing h.object)

theorem removeMetadata_of_file (h : Slot fs key object (.file metadata)) :
    ∃ fs', perform (.removeMetadata key) fs = (.ok (), fs') ∧ Slot fs' key object .missing := by
  obtain ⟨t, hremove, hmissing⟩ := Tree.exists_remove h.description
  exact ⟨{ fs with metadata := t }, withMetadata_eq_ok.mpr ⟨t, hremove, rfl⟩, h.object, hmissing⟩

end Calls

/-! ### Later operations -/

section Later

variable {fs fs' : Filesystem} {key : StorageKey} {source : Bytes}
  {expected : Option ObjectChecksum} {metadata : StorageMetadata}

/-- The source can be stored under the expectation. -/
structure Storable (source : Bytes) (expected : Option ObjectChecksum)
    (metadata : StorageMetadata) : Prop where
  hashed : hashed source = .ok metadata
  expected : ∀ checksum ∈ expected, checksum = metadata.checksum

theorem storable_nil : Storable [] none ⟨0, sha256 []⟩ :=
  ⟨hashed_eq_ok.mpr ⟨Nat.zero_le _, rfl⟩, fun _ h => absurd h (Option.not_mem_none _)⟩

/-- Neither file is there. -/
def Gone (fs : Filesystem) (key : StorageKey) : Prop :=
  fs.objects.fileAt key.path = none ∧ fs.metadata.fileAt key.metadataPath = none

/-- Both files are there, and `head` returns the size and checksum of the stored bytes. -/
def Consistent (fs : Filesystem) (key : StorageKey) : Prop :=
  ∃ content metadata, fs.objects.fileAt key.path = some content ∧
    fs.metadata.fileAt key.metadataPath = some metadata ∧ hashed content = .ok metadata ∧
      (head key).exec machine fs = (.ok metadata, fs)

omit [Digest] in
theorem Absent.gone (h : Absent fs key) : Gone fs key := by
  refine ⟨?_, ?_⟩
  · rw [Tree.fileAt, Forest.fileAt, h.object]
  · rw [Tree.fileAt, Forest.fileAt, h.description]

theorem consistent_iff : Consistent fs key ↔ Whole fs key := by
  constructor
  · rintro ⟨content, metadata, hobject, hdescription, hhash, -⟩
    exact ⟨content, metadata,
      ⟨Forest.fileAt_eq_some.mp hobject, Forest.fileAt_eq_some.mp hdescription⟩, hhash⟩
  · rintro ⟨content, metadata, ⟨hobject, hdescription⟩, hhash⟩
    have hobject := Forest.fileAt_eq_some.mpr hobject
    have hdescription := Forest.fileAt_eq_some.mpr hdescription
    have hsize : content.length = metadata.size := by
      obtain ⟨-, rfl⟩ := hashed_eq_ok.mp hhash
      rfl
    exact ⟨content, metadata, hobject, hdescription, hhash,
      head_eq_ok.mpr ⟨hdescription, ⟨content, hobject, hsize⟩, rfl⟩⟩

/-- A stored object is not stored again. -/
theorem put_of_whole (h : Whole fs key) (hstorable : Storable source expected metadata) :
    (put key source expected).exec machine fs = (.error .conflict, fs) := by
  obtain ⟨content, stored, hslot, -⟩ := h
  simp only [Procedure.exec, put_program, Program.exec, machine_perform,
    makeObjectParents_of_file hslot, hstorable.hashed, if_pos hstorable.expected,
    persistObject_of_file hslot]

theorem put_of_absent (h : Absent fs key) (hstorable : Storable source expected metadata) :
    ∃ fs', (put key source expected).exec machine fs = (.ok metadata, fs') ∧ Whole fs' key := by
  obtain ⟨fs₁, hparents, h₁⟩ := makeObjectParents_of_missing h
  obtain ⟨fs₂, hobject, h₂⟩ := persistObject_of_missing h₁ source
  obtain ⟨fs₃, hparents', h₃⟩ := makeMetadataParents_of_missing h₂
  obtain ⟨fs₄, hmetadata, h₄⟩ := persistMetadata_of_missing h₃ metadata
  refine ⟨fs₄, ?_, source, metadata, h₄, hstorable.hashed⟩
  simp only [Procedure.exec, put_program, describe_program, Program.exec, machine_perform, hparents,
    hstorable.hashed, if_pos hstorable.expected, hobject, hparents', hmetadata]

omit [Digest] in
theorem delete_of_absent (h : Absent fs key) :
    (delete key).exec machine fs = (.error .notFound, fs) := by
  simp only [Procedure.exec, delete_program, Program.exec, machine_perform,
    removeObject_of_missing h]

theorem delete_of_whole (h : Whole fs key) :
    ∃ fs', (delete key).exec machine fs = (.ok (), fs') ∧ Absent fs' key := by
  obtain ⟨content, metadata, hslot, -⟩ := h
  obtain ⟨fs₁, hobject, h₁⟩ := removeObject_of_file hslot
  obtain ⟨fs₂, hmetadata, h₂⟩ := removeMetadata_of_file h₁
  refine ⟨fs₂, ?_, h₂⟩
  simp only [Procedure.exec, delete_program, Program.exec, machine_perform, hobject, hmetadata]

omit [Digest] in
/-- An object whose metadata path is taken is taken back. -/
theorem describe_of_occupied {content : Bytes} {description : Lookup StorageMetadata}
    (metadata : StorageMetadata) (h : Slot fs key (.file content) description) (hoccupied : description ≠ .missing) :
    ∃ description', Slot ((describe key metadata).program.exec machine fs).2 key .missing
      description' := by
  have htaken : ∀ (fs' : Filesystem) (error : StorageError), fs'.objects = fs.objects →
      ∃ description', Slot ((takeBack key error).exec machine fs').2 key .missing description' := by
    intro fs' error hsame
    have hslot : Slot fs' key (.file content) (fs'.metadata.root.lookup key.metadataPath) :=
      ⟨hsame ▸ h.object, rfl⟩
    obtain ⟨fs'', hremove, hgone⟩ := removeObject_of_file hslot
    simp only [takeBack, Program.exec, machine_perform, hremove]
    exact ⟨_, hgone⟩
  rw [describe_program]
  simp only [Program.exec, machine_perform, perform]
  cases hparents : fs.metadata.makeDirs key.metadataPath.dropLast with
  | error e => exact htaken fs _ rfl
  | ok parents =>
    simp only [withMetadata, Program.exec, machine_perform, perform]
    cases hcreate : parents.create key.metadataPath metadata with
    | error e => exact htaken { fs with metadata := parents } _ rfl
    | ok descriptions =>
      -- a file was created, so nothing stood at the path
      have hmissing := Tree.missing_of_makeDirs hparents (Tree.create_ok hcreate).1
      exact absurd (h.description.symm.trans hmissing) hoccupied

/-- Only from a settled state does a `put` end with both files. -/
theorem settled_of_put (hstorable : Storable source expected metadata)
    (h : Whole ((put key source expected).exec machine fs).2 key) : Settled fs key := by
  have hnone : ∀ fs' : Filesystem, fs'.objects.fileAt key.path = none → ¬Whole fs' key := by
    rintro fs' hfile ⟨content, stored, hslot, -⟩
    have hsome := Forest.fileAt_eq_some.mpr hslot.object
    rw [show fs'.objects.root.fileAt key.path = none from hfile] at hsome
    cases hsome
  -- with no file at the path and something in the way, no call of the put makes one
  have hblocked : fs.objects.root.lookup key.path ≠ .missing →
      fs.objects.fileAt key.path = none →
      ¬Whole ((put key source expected).exec machine fs).2 key := by
    intro hmissing hfile
    cases hparents : fs.objects.makeDirs key.path.dropLast with
    | error e =>
      have hcall : perform (.makeObjectParents key) fs = (.error .unavailable, fs) :=
        withObjects_error hparents
      simp only [Procedure.exec, put_program, Program.exec, machine_perform, hcall]
      exact hnone fs hfile
    | ok parents =>
      obtain ⟨fs₁, rfl, hcall⟩ : ∃ fs₁ : Filesystem, fs₁.objects = parents ∧
          perform (.makeObjectParents key) fs = (.ok (), fs₁) :=
        ⟨{ fs with objects := parents, keyed := fs.keyed.makeDirs hparents }, rfl,
          withObjects_eq_ok.mpr ⟨parents, hparents, rfl⟩⟩
      cases hcreate : fs₁.objects.create key.path source with
      | error e =>
        have hcall' : perform (.persistObject key source) fs₁ = (.error (mapPersistError e), fs₁) :=
          withObjects_error hcreate
        simp only [Procedure.exec, put_program, Program.exec, machine_perform, hcall,
          hstorable.hashed, if_pos hstorable.expected, hcall']
        exact hnone fs₁ ((Tree.fileAt_makeDirs hparents _).trans hfile)
      | ok objects =>
        exact absurd (Tree.missing_of_makeDirs hparents (Tree.create_ok hcreate).1) hmissing
  -- what is at the path of the object: a file, nothing, or something in the way
  cases hobject : fs.objects.root.lookup key.path with
  | file content =>
    have hslot : Slot fs key (.file content) (fs.metadata.root.lookup key.metadataPath) :=
      ⟨hobject, rfl⟩
    simp only [Procedure.exec, put_program, Program.exec, machine_perform,
      makeObjectParents_of_file hslot, hstorable.hashed, if_pos hstorable.expected,
      persistObject_of_file hslot] at h
    exact Or.inl h
  | missing =>
    by_cases hdescription : fs.metadata.root.lookup key.metadataPath = .missing
    · exact Or.inr ⟨hobject, hdescription⟩
    -- a description in the way is not overwritten, and the object is taken back
    · obtain ⟨fs₁, hparents, h₁⟩ := makeObjectParents_of_missing ⟨hobject, rfl⟩
      obtain ⟨fs₂, hpersist, h₂⟩ := persistObject_of_missing h₁ source
      obtain ⟨description', hgone⟩ := describe_of_occupied metadata h₂ hdescription
      simp only [Procedure.exec, put_program, Program.exec, machine_perform, hparents,
        hstorable.hashed, if_pos hstorable.expected, hpersist] at h
      refine absurd h (hnone _ ?_)
      rw [Tree.fileAt, Forest.fileAt, hgone.object]
  | directory =>
    refine absurd h (hblocked (by simp [hobject]) ?_)
    rw [Tree.fileAt, Forest.fileAt, hobject]
  | blocked =>
    refine absurd h (hblocked (by simp [hobject]) ?_)
    rw [Tree.fileAt, Forest.fileAt, hobject]

/-- Later operations on the key do what they should. -/
structure Converges (fs : Filesystem) (key : StorageKey) : Prop where
  /-- A delete succeeds or finds nothing, and leaves neither file. -/
  deleted : (((delete key).exec machine fs).1 = .ok () ∨
    ((delete key).exec machine fs).1 = .error .notFound) ∧ Gone ((delete key).exec machine fs).2 key
  /-- A put ends with both files. -/
  put : ∀ source expected metadata, Storable source expected metadata →
    Consistent ((put key source expected).exec machine fs).2 key
  putAfterDelete : ∀ source expected metadata, Storable source expected metadata →
    Consistent ((FilesystemStorage.put key source expected).exec machine
      ((delete key).exec machine fs).2).2 key
  /-- It is not so that every put meets a conflict and the head sees no object. -/
  unstuck : ¬((∀ source expected metadata, Storable source expected metadata →
      ((FilesystemStorage.put key source expected).exec machine fs).1 = .error .conflict) ∧
    (((head key).exec machine fs).1 = .error .notFound ∨
      ((head key).exec machine fs).1 = .error .integrityMismatch))

theorem converges_iff_settled : Converges fs key ↔ Settled fs key := by
  constructor
  -- the empty source can be stored, so one put is enough to see it
  · intro h
    exact settled_of_put storable_nil (consistent_iff.mp (h.put _ _ _ storable_nil))
  · rintro (h | h)
    -- a whole key is deleted as a whole, and put again
    · obtain ⟨fs', hdelete, habsent⟩ := delete_of_whole h
      refine ⟨?_, fun source expected metadata hstorable => ?_,
        fun source expected metadata hstorable => ?_, ?_⟩
      · rw [hdelete]
        exact ⟨Or.inl rfl, habsent.gone⟩
      · rw [put_of_whole h hstorable]
        exact consistent_iff.mpr h
      · obtain ⟨fs'', hput, hwhole⟩ := put_of_absent habsent hstorable
        rw [hdelete, hput]
        exact consistent_iff.mpr hwhole
      · rintro ⟨-, hhead⟩
        obtain ⟨_, _, -, -, -, hok⟩ := consistent_iff.mpr h
        rw [hok] at hhead
        rcases hhead with hhead | hhead <;> cases hhead
    -- an absent key is put, and to delete it changes nothing
    · have hdelete := delete_of_absent h
      refine ⟨?_, fun source expected metadata hstorable => ?_,
        fun source expected metadata hstorable => ?_, ?_⟩
      · rw [hdelete]
        exact ⟨Or.inr rfl, h.gone⟩
      · obtain ⟨fs', hput, hwhole⟩ := put_of_absent h hstorable
        rw [hput]
        exact consistent_iff.mpr hwhole
      · obtain ⟨fs', hput, hwhole⟩ := put_of_absent h hstorable
        rw [hdelete, hput]
        exact consistent_iff.mpr hwhole
      · rintro ⟨hconflict, -⟩
        have hnil := hconflict _ _ _ storable_nil
        obtain ⟨fs', hput, -⟩ := put_of_absent h storable_nil
        rw [hput] at hnil
        cases hnil

end Later

/-! ### Disturbances -/

/-- The object is taken back, whatever is reported of it. -/
def tookBack : List Program.Fate → Bool
  | .performed :: _ | .lost :: _ => true
  | _ => false

/-- The metadata is written, or the object is taken back, but not both. -/
def describeEven : List Program.Fate → Bool
  | .performed :: .performed :: _ => true
  | .performed :: .refused :: fates => tookBack fates
  | .performed :: .lost :: fates => !tookBack fates
  | .refused :: fates | .lost :: fates => tookBack fates
  | _ => false

/-- Both file steps of a put have their effect, or neither, or the object is taken back. -/
def putEven : List Program.Fate → Bool
  | .performed :: .performed :: fates => describeEven fates
  | .performed :: .lost :: _ => false
  | _ => true

/-- Both file steps of a delete have their effect, or neither. -/
def deleteEven : List Program.Fate → Bool
  | .performed :: .performed :: _ | .performed :: .lost :: _ => true
  | .performed :: _ | .lost :: _ => false
  | _ => true

section Disturbed

variable {fs fs' : Filesystem} {key : StorageKey} {source : Bytes}
  {expected : Option ObjectChecksum} {metadata : StorageMetadata}

theorem not_settled_of_object {content : Bytes} (h : Slot fs key (.file content) .missing) :
    ¬Settled fs key := by
  rintro (⟨_, _, hslot, -⟩ | habsent)
  · have hboth := h.description.symm.trans hslot.description
    cases hboth
  · have hboth := h.object.symm.trans habsent.object
    cases hboth

theorem not_settled_of_description (h : Slot fs key .missing (.file metadata)) :
    ¬Settled fs key := by
  rintro (⟨_, _, hslot, -⟩ | habsent)
  · have hboth := h.object.symm.trans hslot.object
    cases hboth
  · have hboth := h.description.symm.trans habsent.description
    cases hboth

omit [Digest] in
theorem cut_takeBack {content : Bytes} {description : Lookup StorageMetadata}
    (h : Slot fs key (.file content) description) (error : StorageError)
    (fates : List Program.Fate) :
    Slot ((takeBack key error).cut machine fates fs) key
      (if tookBack fates then .missing else .file content) description := by
  obtain ⟨fs', hremove, hgone⟩ := removeObject_of_file h
  cases fates with
  | nil => exact h
  | cons fate fates =>
    cases fate with
    | performed =>
      simp only [takeBack, Program.cut, machine_perform, hremove]
      exact hgone
    | refused => exact h
    | lost =>
      simp only [takeBack, Program.cut, machine_perform, hremove]
      exact hgone

/-- An object without its metadata is settled when it is taken back. -/
theorem settled_takeBack_iff {content : Bytes} (h : Slot fs key (.file content) .missing)
    (error : StorageError) (fates : List Program.Fate) :
    Settled ((takeBack key error).cut machine fates fs) key ↔ tookBack fates = true := by
  have hcut := cut_takeBack h error fates
  cases htook : tookBack fates with
  | true =>
    rw [htook] at hcut
    exact iff_of_true (Or.inr hcut) rfl
  | false =>
    rw [htook] at hcut
    exact iff_of_false (not_settled_of_object hcut) Bool.false_ne_true

/-- An object with its metadata is settled when it is not. -/
theorem settled_takeBack_iff_not {content : Bytes}
    (h : Slot fs key (.file content) (.file metadata)) (hhash : hashed content = .ok metadata)
    (error : StorageError) (fates : List Program.Fate) :
    Settled ((takeBack key error).cut machine fates fs) key ↔ (!tookBack fates) = true := by
  have hcut := cut_takeBack h error fates
  cases htook : tookBack fates with
  | true =>
    rw [htook] at hcut
    exact iff_of_false (not_settled_of_description hcut) Bool.false_ne_true
  | false =>
    rw [htook] at hcut
    exact iff_of_true (Or.inl ⟨content, metadata, hcut, hhash⟩) rfl

/-- An object without its metadata, when the metadata is being written. -/
theorem settled_describe_iff {content : Bytes} (h : Slot fs key (.file content) .missing)
    (hhash : hashed content = .ok metadata) (fates : List Program.Fate) :
    Settled ((describe key metadata).program.cut machine fates fs) key ↔
      describeEven fates = true := by
  obtain ⟨fs₁, hparents, h₁⟩ := makeMetadataParents_of_missing h
  obtain ⟨fs₂, hmetadata, h₂⟩ := persistMetadata_of_missing h₁ metadata
  -- the object alone is not settled
  have halone : ∀ {t : Filesystem}, Slot t key (.file content) .missing →
      (Settled t key ↔ false = true) :=
    fun ht => iff_of_false (not_settled_of_object ht) Bool.false_ne_true
  rw [describe_program]
  match fates with
  -- stopped before, or at, the directory of the description
  | [] => exact halone h
  | .refused :: fates => exact settled_takeBack_iff h _ fates
  | .lost :: fates =>
    simp only [Program.cut, machine_perform, hparents]
    exact settled_takeBack_iff h₁ _ fates
  | [.performed] =>
    simp only [Program.cut, machine_perform, hparents]
    exact halone h₁
  | .performed :: .refused :: fates =>
    simp only [Program.cut, machine_perform, hparents]
    exact settled_takeBack_iff h₁ _ fates
  -- the description is written but the answer is lost: it is the object that is taken back
  | .performed :: .lost :: fates =>
    simp only [Program.cut, machine_perform, hparents, hmetadata]
    exact settled_takeBack_iff_not h₂ hhash _ fates
  -- nothing is disturbed
  | .performed :: .performed :: fates =>
    simp only [Program.cut, machine_perform, hparents, hmetadata]
    exact iff_of_true (Or.inl ⟨content, metadata, h₂, hhash⟩) rfl

/-- What a disturbed put leaves of a key that was absent. -/
theorem settled_put_iff (h : Absent fs key) (hstorable : Storable source expected metadata)
    (fates : List Program.Fate) :
    Settled ((put key source expected).program.cut machine fates fs) key ↔
      putEven fates = true := by
  obtain ⟨fs₁, hparents, h₁⟩ := makeObjectParents_of_missing h
  obtain ⟨fs₂, hobject, h₂⟩ := persistObject_of_missing h₁ source
  have habsent : ∀ {t : Filesystem}, Absent t key → (Settled t key ↔ true = true) :=
    fun ht => iff_of_true (Or.inr ht) rfl
  rw [put_program]
  match fates with
  -- until the object is there the key is still absent
  | [] => exact habsent h
  | .refused :: _ => exact habsent h
  | .lost :: _ =>
    simp only [Program.cut, machine_perform, hparents]
    exact habsent h₁
  | [.performed] =>
    simp only [Program.cut, machine_perform, hparents, hstorable.hashed,
      if_pos hstorable.expected]
    exact habsent h₁
  | .performed :: .refused :: _ =>
    simp only [Program.cut, machine_perform, hparents, hstorable.hashed,
      if_pos hstorable.expected]
    exact habsent h₁
  -- the answer about the object is lost: it stays alone
  | .performed :: .lost :: _ =>
    simp only [Program.cut, machine_perform, hparents, hstorable.hashed,
      if_pos hstorable.expected, hobject]
    exact iff_of_false (not_settled_of_object h₂) Bool.false_ne_true
  -- the rest is the writing of the description
  | .performed :: .performed :: fates =>
    simp only [Program.cut, machine_perform, hparents, hstorable.hashed,
      if_pos hstorable.expected, hobject]
    exact settled_describe_iff h₂ hstorable.hashed fates

/-- A source that cannot be stored leaves an absent key absent. -/
theorem absent_of_unstorable (h : Absent fs key)
    (hstorable : ∀ metadata, ¬Storable source expected metadata) (fates : List Program.Fate) :
    Absent ((put key source expected).program.cut machine fates fs) key := by
  obtain ⟨fs₁, hparents, h₁⟩ := makeObjectParents_of_missing h
  rw [put_program]
  match fates with
  | [] => exact h
  | .refused :: _ => exact h
  | .lost :: _ =>
    simp only [Program.cut, machine_perform, hparents]
    exact h₁
  | .performed :: fates =>
    simp only [Program.cut, machine_perform, hparents]
    cases hhash : hashed source with
    | error error => exact h₁
    | ok metadata =>
      have hexpected : ¬∀ checksum ∈ expected, checksum = metadata.checksum :=
        fun hexpected => hstorable metadata ⟨hhash, hexpected⟩
      simp only [if_neg hexpected]
      exact h₁

/-- A put does nothing to a key that is whole. -/
theorem cut_put_of_whole (h : Whole fs key) (fates : List Program.Fate) :
    (put key source expected).program.cut machine fates fs = fs := by
  obtain ⟨content, stored, hslot, -⟩ := h
  have hparents := makeObjectParents_of_file hslot
  have hpersist := persistObject_of_file hslot source
  rw [put_program]
  match fates with
  | [] => rfl
  | .refused :: _ => rfl
  | .lost :: _ => simp only [Program.cut, machine_perform, hparents, machine_failed]
  | .performed :: fates =>
    simp only [Program.cut, machine_perform, hparents]
    split
    · rfl
    · split
      · match fates with
        | [] => rfl
        | .performed :: _ => simp only [Program.cut, machine_perform, hpersist]
        | .refused :: _ => rfl
        | .lost :: _ => simp only [Program.cut, machine_perform, hpersist, machine_failed]
      · rfl

/-- What a disturbed delete leaves of a key that was whole. -/
theorem settled_delete_iff (h : Whole fs key) (fates : List Program.Fate) :
    Settled ((delete key).program.cut machine fates fs) key ↔ deleteEven fates = true := by
  obtain ⟨content, metadata, hslot, hhash⟩ := h
  obtain ⟨fs₁, hobject, h₁⟩ := removeObject_of_file hslot
  obtain ⟨fs₂, hmetadata, h₂⟩ := removeMetadata_of_file h₁
  have hwhole : Settled fs key := Or.inl ⟨content, metadata, hslot, hhash⟩
  -- the description alone is not settled
  have halone : Settled fs₁ key ↔ false = true :=
    iff_of_false (not_settled_of_description h₁) Bool.false_ne_true
  have habsent : Settled fs₂ key ↔ true = true := iff_of_true (Or.inr h₂) rfl
  rw [delete_program]
  match fates with
  -- the object is there until it is removed, and the description until that too is removed
  | [] => exact iff_of_true hwhole rfl
  | .refused :: _ => exact iff_of_true hwhole rfl
  | .lost :: _ =>
    simp only [Program.cut, machine_perform, hobject]
    exact halone
  | [.performed] =>
    simp only [Program.cut, machine_perform, hobject]
    exact halone
  | .performed :: .refused :: _ =>
    simp only [Program.cut, machine_perform, hobject]
    exact halone
  | .performed :: .lost :: _ =>
    simp only [Program.cut, machine_perform, hobject, hmetadata]
    exact habsent
  | .performed :: .performed :: _ =>
    simp only [Program.cut, machine_perform, hobject, hmetadata]
    exact habsent

omit [Digest] in
/-- A delete does nothing to a key that is absent. -/
theorem cut_delete_of_absent (h : Absent fs key) (fates : List Program.Fate) :
    (delete key).program.cut machine fates fs = fs := by
  have hremove := removeObject_of_missing h
  rw [delete_program]
  match fates with
  | [] => rfl
  | .refused :: _ => rfl
  | .lost :: _ => simp only [Program.cut, machine_perform, hremove, machine_failed]
  | .performed :: _ => simp only [Program.cut, machine_perform, hremove]

end Disturbed

/-! ### The law -/

/-- The operations that write or remove the files of a key. -/
inductive Operation where
  | put (source : Bytes) (expected : Option ObjectChecksum)
  | delete

/-- The files that the operation leaves behind when its system calls meet these fates, and it then
stops. -/
def Operation.leaves (fs : Filesystem) (key : StorageKey) (fates : List Program.Fate) :
    Operation → Filesystem
  | .put source expected => (FilesystemStorage.put key source expected).program.cut machine fates fs
  | .delete => (FilesystemStorage.delete key).program.cut machine fates fs

/-- The operation has no file step to take, or takes both, or neither, or takes the first one
back. -/
def Operation.Even (fs : Filesystem) (key : StorageKey) (fates : List Program.Fate) :
    Operation → Prop
  | .put source expected =>
    fs.objects.fileAt key.path ≠ none ∨ (∀ metadata, ¬Storable source expected metadata) ∨
      putEven fates = true
  | .delete => fs.objects.fileAt key.path = none ∨ deleteEven fates = true

variable {fs : Filesystem} {key : StorageKey}

/-- From a settled key, the even disturbances lead to settled keys. -/
theorem settled_leaves_iff (hsettled : Settled fs key) (operation : Operation)
    (fates : List Program.Fate) :
    Settled (operation.leaves fs key fates) key ↔ operation.Even fs key fates := by
  have hpresent : Whole fs key → fs.objects.fileAt key.path ≠ none := by
    rintro ⟨content, metadata, hslot, -⟩ hnone
    have hsome := Forest.fileAt_eq_some.mpr hslot.object
    rw [show fs.objects.root.fileAt key.path = none from hnone] at hsome
    cases hsome
  -- disturbed or not, an operation that has nothing to do leaves the key as it is
  cases operation with
  | put source expected =>
    rcases hsettled with hwhole | habsent
    · refine iff_of_true ?_ (Or.inl (hpresent hwhole))
      rw [Operation.leaves, cut_put_of_whole hwhole]
      exact Or.inl hwhole
    · by_cases hstorable : ∃ metadata, Storable source expected metadata
      -- only a put to an absent key can stop halfway
      · obtain ⟨metadata, hstorable⟩ := hstorable
        refine (settled_put_iff habsent hstorable fates).trans ?_
        constructor
        · exact fun heven => Or.inr (Or.inr heven)
        · rintro (hthere | hnever | heven)
          · exact absurd habsent.gone.1 hthere
          · exact absurd hstorable (hnever metadata)
          · exact heven
      · have hnever := not_exists.mp hstorable
        exact iff_of_true (Or.inr (absent_of_unstorable habsent hnever fates))
          (Or.inr (Or.inl hnever))
  | delete =>
    -- only a delete of a whole key can
    rcases hsettled with hwhole | habsent
    · refine (settled_delete_iff hwhole fates).trans ?_
      exact (or_iff_right (hpresent hwhole)).symm
    · refine iff_of_true ?_ (Or.inl habsent.gone.1)
      rw [Operation.leaves, cut_delete_of_absent habsent]
      exact Or.inr habsent

/-- Whatever a disturbed operation leaves behind, later operations converge from it exactly when
the key is settled; where it was settled before, exactly when the disturbance is even. -/
theorem convergence_law (operation : Operation) (fates : List Program.Fate) :
    (Converges (operation.leaves fs key fates) key ↔
        Settled (operation.leaves fs key fates) key) ∧
      (Settled fs key →
        (Converges (operation.leaves fs key fates) key ↔ operation.Even fs key fates)) :=
  ⟨converges_iff_settled, fun hsettled =>
    converges_iff_settled.trans (settled_leaves_iff hsettled operation fates)⟩

end Law

/-! ### A put that comes back and a delete that does not -/

attribute [local instance] abcDigest

/-- The key of a version. -/
def versionKey : StorageKey := ⟨"versions/p/u", by decide⟩

/-- A provider on which `abc` was put under the key. -/
def stored : Filesystem :=
  (Operation.put abc none).leaves Filesystem.fresh versionKey
    [.performed, .performed, .performed, .performed]

theorem absent_fresh : Absent Filesystem.fresh versionKey := ⟨by decide, by decide⟩

/-- A put whose metadata cannot be written, and whose object is taken back. -/
theorem recovered_put_converges :
    Converges ((Operation.put abc none).leaves Filesystem.fresh versionKey
      [.performed, .performed, .performed, .refused, .performed]) versionKey :=
  ((convergence_law (.put abc none) _).2 (Or.inr absent_fresh)).mpr (Or.inr (Or.inr rfl))

/-- A delete that stops between its two steps: the metadata stays, a later delete finds nothing, a
later put meets a conflict, and the head sees no object. -/
theorem stopped_delete_sticks :
    Settled stored versionKey ∧ ∃ fs, fs = Operation.delete.leaves stored versionKey [.performed] ∧
      ¬Converges fs versionKey ∧
      ((delete versionKey).exec machine fs).1 = .error .notFound ∧
      ((delete versionKey).exec machine fs).2.metadata.fileAt versionKey.metadataPath ≠ none ∧
      ((put versionKey abc none).exec machine fs).1 = .error .conflict ∧
      ((head versionKey).exec machine fs).1 = .error .notFound := by
  have hsettled : Settled stored versionKey :=
    Or.inl ⟨abc, ⟨3, sha256 abc⟩, ⟨by decide, by decide⟩, by decide⟩
  have hslot : Slot (Operation.delete.leaves stored versionKey [.performed]) versionKey .missing
      (.file ⟨3, sha256 abc⟩) := ⟨by decide, by decide⟩
  refine ⟨hsettled, _, rfl, ?_, by decide, by decide, by decide, by decide⟩
  exact fun hconverges =>
    not_settled_of_description hslot (converges_iff_settled.mp hconverges)

end StorageConvergence

end BlobYard
