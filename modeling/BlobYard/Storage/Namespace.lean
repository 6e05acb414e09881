/-
What a storage provider promises about whole objects.

The recovery commands work with any provider.  What they rely on is a contract over a `Namespace`,
which holds the bytes stored under each key: an object is stored as a whole or not at all, and the
inventory lists the keys of exactly the stored objects.

* `ObjectCommand` — storing, reading, deleting and listing whole objects;
* `Namespace.allows` — the contract; `Namespace.sparing` — the same with deletions that succeed;
* `FilesystemStorage.objects` — the filesystem provider as a machine of these commands;
* `objects_refines` — what it does is what the contract allows.
-/
import BlobYard.Lib.Contracts
import BlobYard.Storage.Holdings
import BlobYard.Storage.Inventory
import Mathlib.Logic.Function.Basic

namespace BlobYard

open Outcome FileTree Filesystem

/-- The operations on whole objects that the recovery commands use. -/
inductive ObjectCommand where
  | put (key : StorageKey) (source : Bytes) (expected : Option ObjectChecksum)
  | get (key : StorageKey)
  | delete (key : StorageKey)
  | listObjectKeys

/-- What each operation answers when it succeeds. -/
@[reducible] def ObjectCommand.Value : ObjectCommand → Type
  | put _ _ _ => StorageMetadata
  | get _ => StorageMetadata × Bytes
  | delete _ => Unit
  | listObjectKeys => List StorageKey

@[reducible] def ObjectCommand.Response (c : ObjectCommand) : Type := Except StorageError c.Value

/-- The bytes stored under each key. -/
abbrev Namespace := StorageKey → Option Bytes

namespace Namespace

/-- Nothing is stored. -/
def empty : Namespace := fun _ => none

/-- What is stored changes at one key. -/
def set (s : Namespace) (key : StorageKey) (content : Option Bytes) : Namespace :=
  Function.update s key content

@[simp] theorem set_self (s : Namespace) (key : StorageKey) (content : Option Bytes) :
    s.set key content key = content := by
  simp [set]

theorem set_of_ne (s : Namespace) {key other : StorageKey} (content : Option Bytes)
    (h : other ≠ key) : s.set key content other = s other := by
  unfold set
  exact Function.update_of_ne h content s

/-- The contract.  A `put` that fails leaves nothing behind; a deletion that fails may have deleted
the object. -/
def allows [Digest] : Contract ObjectCommand ObjectCommand.Response Namespace
  | .put key source expected, s, r, t =>
    (∃ metadata, r = .ok metadata ∧ hashed source = .ok metadata ∧
      (∀ checksum ∈ expected, checksum = metadata.checksum) ∧ s key = none ∧
        t = s.set key (some source)) ∨ (∃ e, r = .error e) ∧ t = s
  | .get key, s, r, t => (∀ metadata content, r = .ok (metadata, content) → s key = some content) ∧
    t = s
  | .delete key, s, r, t => t = s.set key none ∨ (∃ e, r = .error e) ∧ t = s
  | .listObjectKeys, s, r, t => (∀ keys, r = .ok keys → ∀ key, key ∈ keys ↔ ∃ content,
    s key = some content) ∧ t = s

/-- The deletion of a stored object succeeds. -/
def sparing [Digest] : Contract ObjectCommand ObjectCommand.Response Namespace
  | .delete key, s, r, t => allows (.delete key) s r t ∧ (s key ≠ none → r = .ok ())
  | c, s, r, t => allows c s r t

variable [Digest] {s t : Namespace} {key : StorageKey} {c : ObjectCommand} {r : c.Response}

/-- What is allowed with deletions that succeed is allowed. -/
theorem allows_of_sparing (h : sparing c s r t) : allows c s r t := by
  cases c with
  | delete key => exact h.1
  | put key source expected => exact h
  | get key => exact h
  | listObjectKeys => exact h

/-- After a deletion that succeeds the key is free. -/
theorem deleted {r : Except StorageError Unit} (h : sparing (.delete key) s r t)
    (hstored : s key ≠ none) : t = s.set key none ∧ r = .ok () := by
  obtain ⟨hallows, hok⟩ := h
  have hr := hok hstored
  refine ⟨?_, hr⟩
  rcases hallows with ht | ⟨⟨e, he⟩, -⟩
  · exact ht
  · rw [hr] at he
    cases he

end Namespace

namespace FilesystemStorage

variable [Digest]

/-- The filesystem provider as a machine of operations on whole objects. -/
def objects : Machine ObjectCommand ObjectCommand.Response Filesystem where
  perform
    | .put key source expected, fs => (put key source expected).exec machine fs
    | .get key, fs => (get key).exec machine fs
    | .delete key, fs => (delete key).exec machine fs
    | .listObjectKeys, fs => (listObjectKeys fs, fs)
  failed
    | .put _ _ _ => .error .unavailable
    | .get _ => .error .unavailable
    | .delete _ => .error .unavailable
    | .listObjectKeys => .error .unavailable

end FilesystemStorage

/-- What the filesystem provider stores. -/
def Filesystem.contents (fs : Filesystem) : Namespace := fun key => fs.objects.fileAt key.path

theorem Filesystem.contents_fresh : Filesystem.fresh.contents = Namespace.empty := by
  funext key
  show Forest.fileAt Forest.nil key.path = none
  unfold Forest.fileAt
  cases key.path <;> rfl

namespace FilesystemStorage

variable {fs t : Filesystem} {key : StorageKey} {source : Bytes} {metadata : StorageMetadata}

/-- The rule for one system call that is performed. -/
theorem meets_sys {c : FileCommand} {P : c.Value → Filesystem → Prop}
    {E : StorageError → Filesystem → Prop}
    (hok : ∀ a u, perform c t = (.ok a, u) → P a u)
    (herror : ∀ e u, perform c t = (.error e, u) → E e u) :
    (sys c).Meets machine.contract (fun _ => True) P E t := by
  refine Program.meets_call trivial fun r u hcall => ⟨trivial, ?_⟩
  cases r with
  | ok a => exact hok a u hcall
  | error e => exact herror e u hcall

theorem withObjects_eq_error {fs fs' : Filesystem} {rename : Failure → StorageError}
    {r : Except Failure (Tree (List Char) Bytes)} {keyed : ∀ t, r = .ok t → Keyed t}
    {e : StorageError} (h : fs.withObjects rename r keyed = (.error e, fs')) : fs' = fs := by
  rcases withObjects_cases fs rename r keyed with ⟨e', hcall⟩ | ⟨objects, hr, hcall⟩
  · exact (Prod.mk.inj (hcall.symm.trans h)).2.symm
  · cases hcall.symm.trans h

theorem withMetadata_eq_error {fs fs' : Filesystem} {rename : Failure → StorageError}
    {r : Except Failure (Tree (List Char) StorageMetadata)} {e : StorageError}
    (h : fs.withMetadata rename r = (.error e, fs')) : fs' = fs := by
  rcases withMetadata_cases fs rename r with ⟨e', hcall⟩ | ⟨metadata, hr, hcall⟩
  · exact (Prod.mk.inj (hcall.symm.trans h)).2.symm
  · cases hcall.symm.trans h

/-- The objects are those of `fs`. -/
def SameObjects (fs t : Filesystem) : Prop := t.objects.fileAt = fs.objects.fileAt

/-- Storing the stream: a failure leaves the objects as they were. -/
theorem writeStream_meets [Digest] (fs : Filesystem) (key : StorageKey) (source : Bytes)
    (expected : Option ObjectChecksum) :
    (writeStream key source expected).Meets machine.contract (fun _ => True)
      (fun _ t => Persisted fs t key source) (fun _ t => SameObjects fs t) fs := by
  -- the directories above the object hold no object
  have hparents : (sys (.makeObjectParents key)).Meets machine.contract (fun _ => True)
      (fun _ t => Unchanged fs t) (fun _ t => SameObjects fs t) fs := by
    refine meets_sys (fun a t ht => ?_) fun e t ht => ?_
    · obtain ⟨objects, hdirs, rfl⟩ := withObjects_eq_ok.mp ht
      exact ⟨funext (Tree.fileAt_makeDirs hdirs), rfl, rfl⟩
    · rw [withObjects_eq_error ht]
      rfl
  -- the stream is renamed into place, where nothing may be
  have hpersist (t : Filesystem) (ht : Unchanged fs t) :
      (sys (.persistObject key source)).Meets machine.contract (fun _ => True)
        (fun _ u => Persisted fs u key source) (fun _ u => SameObjects fs u) t := by
    refine meets_sys (fun a u hu => ?_) fun e u hu => ?_
    · obtain ⟨objects, hcreate, rfl⟩ := withObjects_eq_ok.mp hu
      have hfresh : t.objects.fileAt key.path = none :=
        (Forest.missing_iff.mp (Tree.create_ok hcreate).1).1 _ (List.prefix_refl _)
      refine ⟨ht.objects ▸ hfresh, fun path => ?_, ht.metadata, ht.multipart⟩
      rw [Tree.fileAt_create hcreate, ht.objects]
    · rw [withObjects_eq_error hu]
      exact ht.objects
  refine hparents.bind fun _ t _ ht => ?_
  refine Procedure.Meets.bind (P := fun _ u => u = t) ?_ fun metadata u _ hu => ?_
  -- the checksum is taken and compared in between
  · exact Procedure.meets_lift trivial (fun _ _ => rfl) fun _ _ => ht.objects
  subst hu
  refine Procedure.Meets.bind (P := fun _ w => w = u) ?_ fun _ w _ hw => ?_
  · exact Procedure.meets_lift trivial (fun _ _ => rfl) fun _ _ => ht.objects
  subst hw
  exact (hpersist w ht).bind fun _ v _ hv => Procedure.meets_pure trivial hv

/-- The description of a new object: on a failure the object is taken back. -/
theorem describe_meets {fs t : Filesystem} {key : StorageKey} {source : Bytes}
    (h : Persisted fs t key source) (metadata : StorageMetadata) :
    (describe key metadata).Meets machine.contract (fun _ => True) (fun _ _ => True)
      (fun _ u => SameObjects fs u) t := by
  have hwrite : (writeMetadata key metadata).Meets machine.contract (fun _ => True)
      (fun _ _ => True) (fun _ u => u.objects = t.objects) t := by
    refine Procedure.Meets.bind (P := fun _ u => u.objects = t.objects) ?_ fun _ u _ hu => ?_
    · refine meets_sys (fun a u hu => ?_) fun e u hu => ?_
      · obtain ⟨descriptions, -, rfl⟩ := withMetadata_eq_ok.mp hu
        rfl
      · rw [withMetadata_eq_error hu]
    · refine meets_sys (fun a w hw => trivial) fun e w hw => ?_
      rw [withMetadata_eq_error hw]
      exact hu
  refine Procedure.Meets.bind (P := fun _ _ => True) ?_ fun _ u _ _ =>
    Procedure.meets_pure trivial trivial
  refine Procedure.meets_recover (hwrite.mono (fun _ _ _ _ => trivial) fun e u _ hu => ?_)
  -- the object stands there, so it can be removed
  have hstands : u.objects.fileAt key.path = some source := by
    rw [hu, h.objects, if_pos rfl]
  obtain ⟨objects, hremove, -⟩ := Tree.exists_remove (Forest.fileAt_eq_some.mp hstands)
  have hback : objects.fileAt = fs.objects.fileAt := by
    funext path
    rw [Tree.fileAt_remove hremove, hu, h.objects]
    split
    · rename_i hpath
      rw [hpath, h.fresh]
    · rfl
  refine Procedure.Meets.bind (P := fun _ w => SameObjects fs w) ?_ fun _ w _ hw =>
    Procedure.meets_fail trivial hw
  refine Procedure.meets_ignore (Program.meets_call trivial fun r w hw => ⟨trivial, ?_⟩)
  have hcall : perform (.removeObject key) u = (.ok (), { u with
      objects, keyed := u.keyed.remove hremove }) := withObjects_eq_ok.mpr ⟨objects, hremove, rfl⟩
  obtain ⟨-, rfl⟩ := Prod.mk.inj (hcall.symm.trans hw)
  exact hback

/-- An object that could not be stored has left the objects as they were. -/
theorem put_error [Digest] {fs t : Filesystem} {key : StorageKey} {source : Bytes}
    {expected : Option ObjectChecksum} {e : StorageError}
    (h : (put key source expected).exec machine fs = (.error e, t)) : SameObjects fs t := by
  have hmeets : (put key source expected).Meets machine.contract (fun _ => True)
      (fun _ _ => True) (fun _ t => SameObjects fs t) fs :=
    (writeStream_meets fs key source expected).bind fun metadata u _ hu =>
      describe_meets hu metadata
  exact (hmeets.error (Program.runs_contract_iff.mpr h)).2

/-- An object that was stored is there, and the other objects are as they were. -/
theorem contents_put [Digest] {fs t : Filesystem} {key : StorageKey} {source : Bytes}
    {expected : Option ObjectChecksum} {metadata : StorageMetadata}
    (h : (put key source expected).exec machine fs = (.ok metadata, t)) :
    t.contents = fs.contents.set key (some source) := by
  have hstored := (put_spec h).2.2
  funext other
  by_cases heq : other = key
  · subst heq
    rw [Namespace.set_self]
    exact (hstored.object _).trans (if_pos rfl)
  · rw [Namespace.set_of_ne _ _ heq]
    exact (hstored.object _).trans (if_neg fun hpath => heq (StorageKey.path_injective hpath))

/-- A deletion takes the object away or leaves it, and then it fails. -/
theorem contents_delete {fs t : Filesystem} {key : StorageKey} {r : Except StorageError Unit}
    (h : (delete key).exec machine fs = (r, t)) :
    t.contents = fs.contents.set key none ∨ (∃ e, r = .error e) ∧ t.contents = fs.contents := by
  have hremoved (u : Filesystem) (objects : Tree (List Char) Bytes)
      (hremove : fs.objects.remove key.path = .ok objects) (hu : u.objects = objects) :
      u.contents = fs.contents.set key none := by
    funext other
    show u.objects.fileAt other.path = _
    rw [hu, Tree.fileAt_remove hremove]
    by_cases heq : other = key
    · subst heq
      rw [if_pos rfl, Namespace.set_self]
    · rw [if_neg fun hpath => heq (StorageKey.path_injective hpath), Namespace.set_of_ne _ _ heq]
      rfl
  -- the removal of the object decides; the description is removed after it
  have hmeets : (delete key).Meets machine.contract (fun _ => True)
      (fun _ u => u.contents = fs.contents.set key none)
      (fun _ u => u.contents = fs.contents.set key none ∨ u.contents = fs.contents) fs := by
    refine Procedure.Meets.bind (P := fun _ u => ∃ objects,
      fs.objects.remove key.path = .ok objects ∧ u.objects = objects) ?_ fun _ u _ hu => ?_
    · refine meets_sys (fun a u hu => ?_) fun e u hu => ?_
      · obtain ⟨objects, hremove, rfl⟩ := withObjects_eq_ok.mp hu
        exact ⟨objects, hremove, rfl⟩
      · rw [withObjects_eq_error hu]
        exact Or.inr rfl
    · obtain ⟨objects, hremove, hu⟩ := hu
      refine meets_sys (fun a w hw => ?_) fun e w hw => ?_
      · obtain ⟨descriptions, -, rfl⟩ := withMetadata_eq_ok.mp hw
        exact hremoved _ objects hremove hu
      · rw [withMetadata_eq_error hw]
        exact Or.inl (hremoved u objects hremove hu)
  have hruns := Program.runs_contract_iff.mpr h
  cases r with
  | ok a => exact Or.inl (hmeets.ok hruns).2
  | error e =>
    rcases (hmeets.error hruns).2 with ht | ht
    · exact Or.inl ht
    · exact Or.inr ⟨⟨e, rfl⟩, ht⟩

/-- Reading an object leaves everything as it is. -/
theorem get_leaves {fs t : Filesystem} {key : StorageKey}
    {r : Except StorageError (StorageMetadata × Bytes)}
    (h : (get key).exec machine fs = (r, t)) : t = fs := by
  have hopen (u : Filesystem) (hu : u = fs) : (sys (.openObject key)).Throughout machine
      (fun v => v = fs) (fun _ _ => True) u := by
    subst hu
    exact throughout_read rfl rfl fun _ _ => trivial
  have hget : (get key).Throughout machine (fun u => u = fs) (fun _ _ => True) fs :=
    (head_throughout fs key).bind fun _ u hu _ => (hopen u hu).bind fun _ v hv _ =>
      Procedure.throughout_pure hv trivial
  have hend := (Program.Throughout.execWith hget []).1
  rw [Program.execWith_nil] at hend
  exact (congrArg Prod.snd h).symm.trans hend

/-- What the filesystem provider does with whole objects is what the contract allows. -/
theorem objects_refines [Digest] :
    objects.faulty.Refines Filesystem.contents Namespace.allows := by
  intro c fs r t h
  rcases h with h | ⟨rfl, rfl⟩
  -- the operation is carried out
  · cases c with
    -- stored whole, or not at all
    | put key source expected =>
      cases r with
      | error e => exact Or.inr ⟨⟨e, rfl⟩, funext fun other => congrFun (put_error h) other.path⟩
      | ok metadata =>
        obtain ⟨hhash, hexpected, hstored⟩ := put_spec h
        exact Or.inl ⟨metadata, rfl, hhash, hexpected, hstored.fresh, contents_put h⟩
    | get key =>
      refine ⟨fun metadata content hr => ?_, ?_⟩
      · subst hr
        exact (get_eq_ok.mp h).2.1
      · exact congrArg Filesystem.contents (get_leaves h)
    | delete key => exact contents_delete h
    -- the listing has every key that has an object
    | listObjectKeys =>
      obtain ⟨hlist, rfl⟩ := Prod.mk.inj h
      refine ⟨fun keys hkeys key => ?_, rfl⟩
      obtain ⟨keys', hkeys', hmem, -⟩ := listObjectKeys_spec fs
      obtain rfl : keys' = keys := Except.ok.inj (hkeys'.symm.trans (hlist.trans hkeys))
      exact hmem key
  -- it fails without an effect
  · cases c with
    | put key source expected => exact Or.inr ⟨⟨_, rfl⟩, rfl⟩
    | get key => exact ⟨nofun, rfl⟩
    | delete key => exact Or.inr ⟨⟨_, rfl⟩, rfl⟩
    | listObjectKeys => exact ⟨nofun, rfl⟩

end FilesystemStorage
end BlobYard
