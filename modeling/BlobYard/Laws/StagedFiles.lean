/-
The directory that a recovery command builds.

The commands read one directory, which they never change, and add files to another one.  Each part
they share has one rule here, which says what it leaves behind when any of its calls may fail.

* `directory_reads`, `openSecureFile_reads`, `hashReader_reads` — reading;
* `Untouched` — only the directory that is built may have changed; `dropOnError_untouched`;
* `Filed`, `Added`, `Extends` — one file changed, one file added, and no file lost;
* `createStage_untouched`, `copyVerified_untouched`, `writePrivateFile_untouched` — writing.
-/
import BlobYard.Server.Recovery

namespace BlobYard

open Outcome FileTree Recovery

variable {σ : Type} {k : Contract ObjectCommand ObjectCommand.Response σ}

/-! ### Reading -/

/-- The regular file of the source directory. -/
def Workbench.file (s : Workbench σ) (path : StoragePath) : Option Bytes :=
  s.source.bind fun d => regularAt d path

theorem regularAt_eq_some {d : Directory} {path : StoragePath} {content : Bytes} :
    regularAt d path = some content ↔ d.fileAt path = some (.regular content) := by
  unfold regularAt Tree.fileAt Forest.fileAt
  cases d.root.lookup path with
  | file c => cases c <;> simp [contentOf]
  | missing => simp [contentOf]
  | blocked => simp [contentOf]
  | directory => simp [contentOf]

namespace Recovery

variable {s : Workbench σ} {α : Type}

/-- A program that reads, among states of another kind. -/
theorem meets_reading {x : Recovery α} {I : Workbench σ → Prop} {P : α → Prop}
    {E : RecoveryError → Workbench σ → Prop}
    (h : x.Meets (Workbench.allows k) (fun t => t = s) (fun a _ => P a) (fun _ _ => True) s)
    (hs : I s) (hE : ∀ e, E e s) :
    x.Meets (Workbench.allows k) I (fun a t => P a ∧ t = s) E s := by
  refine (h.mono (Q := fun a t => P a ∧ t = s) (F := E) (fun a t ht ha => ⟨ha, ht⟩)
    fun e t ht _ => ?_).weaken fun t ht => ?_
  · subst ht
    exact hE e
  · subst ht
    exact hs

/-- A call that reads. -/
theorem directory_reads {c : DirectoryCommand} {error : RecoveryError}
    (hread : (c.perform s).2 = s) :
    (directory c error).Meets (Workbench.allows k) (fun t => t = s)
      (fun a _ => (c.perform s).1 = .ok a) (fun _ _ => True) s := by
  refine Procedure.meets_attempt (Workbench.meets_directory rfl ⟨hread, ?_⟩ trivial)
  cases hanswer : (c.perform s).1 with
  | ok a => rfl
  | error e => trivial

theorem openSecureFile_reads (path : StoragePath) :
    (openSecureFile path).Meets (Workbench.allows k) (fun t => t = s)
      (fun content _ => s.file path = some content) (fun _ _ => True) s := by
  refine (directory_reads rfl).mono (fun content t _ h => ?_) fun _ _ _ _ => trivial
  exact ofOption_eq_ok.mp h

theorem readSecureFile_reads (path : StoragePath) :
    (readSecureFile path).Meets (Workbench.allows k) (fun t => t = s)
      (fun content _ => s.file path = some content) (fun _ _ => True) s := by
  refine (openSecureFile_reads path).bind fun file t ht hfile => ?_
  subst ht
  refine (directory_reads rfl).mono (fun content t _ h => ?_) fun _ _ _ _ => trivial
  obtain rfl : file = content := Except.ok.inj h
  exact hfile

variable [Digest]

/-- The size and the checksum are those of the content. -/
def Hashes (content : Bytes) (hash : ℕ × String) : Prop :=
  content.length ≤ u64Max ∧ hash = (content.length, (sha256 content).asStr)

theorem streamHash_eq_ok {content : Bytes} {hash : ℕ × String} :
    streamHash content = .ok hash ↔ Hashes content hash := by
  simp only [streamHash, bind_eq_ok, ensure_eq_ok, pure_eq_ok, exists_and_left, exists_const]
  exact and_congr_right fun _ => eq_comm

theorem hashReader_reads (file : Bytes) :
    (hashReader file).Meets (Workbench.allows k) (fun t => t = s)
      (fun hash _ => Hashes file hash) (fun _ _ => True) s := by
  refine (directory_reads rfl).bind fun content t ht h => ?_
  obtain rfl : file = content := Except.ok.inj h
  exact Procedure.meets_lift ht (fun hash hhash => streamHash_eq_ok.mp hhash) fun _ _ => trivial

end Recovery

/-! ### Directories that are built -/

/-- Only the directory that is built may have changed. -/
structure Untouched (h t : Workbench σ) : Prop where
  source : t.source = h.source
  destination : t.destination = h.destination
  storage : t.storage = h.storage
  within : t.within = h.within

/-- An object storage inside the directory that is built is a new one. -/
def Workbench.Prepared (h : Workbench σ) : Prop := ∀ fresh ∈ h.within, h.storage = fresh

variable {h t : Workbench σ}

theorem Untouched.refl (h : Workbench σ) : Untouched h h := ⟨rfl, rfl, rfl, rfl⟩

theorem Workbench.Prepared.getD (hprepared : h.Prepared) : h.within.getD h.storage = h.storage := by
  cases hwithin : h.within with
  | none => rfl
  | some fresh => exact (hprepared fresh hwithin).symm

/-- A change of the directory that is built. -/
theorem restage_cases (t : Workbench σ) (change : Directory → Except Failure Directory) :
    (∃ e, DirectoryCommand.restage t change = (.error e, t)) ∨ ∃ d d', t.stage = some d ∧
      change d = .ok d' ∧
        DirectoryCommand.restage t change = (.ok (), { t with stage := some d' }) := by
  unfold DirectoryCommand.restage
  cases hstage : t.stage with
  | none => exact Or.inl ⟨(), rfl⟩
  | some d =>
    cases hchange : change d with
    | error e =>
      refine Or.inl ⟨(), ?_⟩
      simp only [hchange]
    | ok d' =>
      refine Or.inr ⟨d, d', rfl, hchange, ?_⟩
      simp only [hchange]

/-- Every call but the renaming leaves everything else as it is. -/
theorem Untouched.perform (ht : Untouched h t) (hprepared : h.Prepared) {c : DirectoryCommand}
    (hc : c ≠ .renameStage) : Untouched h (c.perform t).2 := by
  have hrestage (change : Directory → Except Failure Directory) :
      Untouched h (DirectoryCommand.restage t change).2 := by
    rcases restage_cases t change with ⟨e, hcall⟩ | ⟨d, d', -, -, hcall⟩
    · rw [hcall]
      exact ht
    · rw [hcall]
      exact ⟨ht.source, ht.destination, ht.storage, ht.within⟩
  have hfresh : t.within.getD t.storage = h.storage := by
    rw [ht.within, ht.storage, hprepared.getD]
  cases c with
  | renameStage => exact absurd rfl hc
  | createFile path => exact hrestage _
  | writeFile path content => exact hrestage _
  | createStage => exact ⟨ht.source, ht.destination, hfresh, ht.within⟩
  | removeStage => exact ⟨ht.source, ht.destination, hfresh, ht.within⟩
  | _ => exact ht

theorem directory_untouched (ht : Untouched h t) (hprepared : h.Prepared) {c : DirectoryCommand}
    (hc : c ≠ .renameStage) (error : RecoveryError) :
    (directory c error).Meets (Workbench.allows k) (Untouched h)
      (fun a u => c.perform t = (.ok a, u)) (fun _ _ => True) t := by
  refine Procedure.meets_attempt
    (Workbench.meets_directory ht ⟨ht.perform hprepared hc, ?_⟩ trivial)
  cases hanswer : (c.perform t).1 with
  | ok a => exact Prod.ext hanswer rfl
  | error e => trivial

theorem dropOnError_untouched {α : Type} {x : Recovery α} {P : α → Workbench σ → Prop}
    (hprepared : h.Prepared)
    (hx : x.Meets (Workbench.allows k) (Untouched h) P (fun _ _ => True) t) :
    (dropOnError x).Meets (Workbench.allows k) (Untouched h) P (fun _ _ => True) t := by
  refine Procedure.meets_recover (hx.mono (fun _ _ _ ha => ha) fun e u hu _ => ?_)
  refine Procedure.Meets.bind (P := fun _ _ => True) (Procedure.meets_ignore ?_) fun _ _ hu _ =>
    Procedure.meets_fail hu trivial
  exact Workbench.meets_directory hu ⟨hu.perform hprepared (by simp), trivial⟩ trivial

/-- A new stage is empty. -/
theorem createStage_untouched (ht : Untouched h t) (hprepared : h.Prepared) :
    createStage.Meets (Workbench.allows k) (Untouched h) (fun _ u => u.stage = some .empty)
      (fun _ _ => True) t := by
  have hfound : ((directory .destinationExists .persistence).recover fun _ => pure false).Meets
      (Workbench.allows k) (Untouched h) (fun _ _ => True) (fun _ _ => True) t := by
    refine Procedure.meets_recover ((directory_untouched ht hprepared (by simp) _).mono
      (fun _ _ _ _ => trivial) fun _ u hu _ => ?_)
    exact Procedure.meets_pure hu trivial
  refine hfound.bind fun found u hu _ => ?_
  refine Procedure.meets_lift_bind hu (fun _ _ => ?_) fun _ _ => trivial
  refine (directory_untouched hu hprepared (by simp) _).bind fun _ v hv _ => ?_
  refine (directory_untouched hv hprepared (by simp) _).bind fun _ w hw hstage => ?_
  obtain ⟨-, rfl⟩ := Prod.mk.inj hstage
  refine dropOnError_untouched hprepared ?_
  refine (directory_untouched hw hprepared (by simp) _).mono (fun _ x _ hx => ?_)
    fun _ _ _ _ => trivial
  obtain ⟨-, rfl⟩ := Prod.mk.inj hx
  rfl

/-- The end of a command: the directory is put in place, or the cleanup is made and the directory
is removed. -/
theorem persistStageWithCleanup_meets {cleanup : Recovery Unit} {I R E : Workbench σ → Prop}
    {P : Workbench σ → Prop} {d : Directory} (hstage : t.stage = some d) (ht : I t)
    (hdone : I { t with stage := none, destination := .activated d } ∧
      P { t with stage := none, destination := .activated d })
    (hcleanup : cleanup.Meets (Workbench.allows k) I (fun _ u => R u) (fun _ u => R u) t)
    (hremove : ∀ u, I u → R u →
      (Workbench.onDirectory .removeStage).Meets (Workbench.allows k) I (fun _ v => E v) u) :
    (persistStageWithCleanup cleanup).Meets (Workbench.allows k) I (fun _ u => P u)
      (fun _ u => E u) t := by
  have hfailed : (⟨cleanup.program.bind fun cleaned =>
      (Workbench.onDirectory .removeStage).bind fun _ =>
        .done (cleaned.bind fun _ => .error RecoveryError.persistence)⟩ : Recovery Unit).Meets
      (Workbench.allows k) I (fun _ u => P u) (fun _ u => E u) t := by
    refine Program.Meets.bind hcleanup fun cleaned u hu hr => ?_
    have hr' : R u := by
      cases cleaned with
      | ok _ => exact hr
      | error _ => exact hr
    refine Program.Meets.bind (hremove u hu hr') fun _ v hv hend => ?_
    cases cleaned with
    | ok _ => exact ⟨hv, hend⟩
    | error _ => exact ⟨hv, hend⟩
  refine Procedure.meets_recover (Procedure.meets_attempt (Workbench.meets_directory ht ?_ ?_))
  -- the renaming is refused where something stands at the destination
  · rw [DirectoryCommand.perform_renameStage hstage]
    split
    · exact hdone
    · exact ⟨ht, hfailed⟩
  · exact hfailed

theorem fileAt_createStaged {path : StoragePath} {content : Bytes} {d d' : Directory}
    (hcreate : DirectoryCommand.createStaged path content d = .ok d') (q : StoragePath) :
    d'.fileAt q = if q = path then some (.regular content) else d.fileAt q := by
  obtain ⟨parents, hparents, hfile⟩ := bind_eq_ok.mp hcreate
  rw [Tree.fileAt_create hfile, Tree.fileAt_makeDirs hparents]

theorem fileAt_replaceStaged {path : StoragePath} {content : Bytes} {d d' : Directory}
    (hreplace : DirectoryCommand.replaceStaged path content d = .ok d') (q : StoragePath) :
    d'.fileAt q = if q = path then some (.regular content) else d.fileAt q := by
  obtain ⟨removed, hremove, hfile⟩ := bind_eq_ok.mp hreplace
  rw [Tree.fileAt_create hfile, Tree.fileAt_remove hremove]
  split <;> rfl

/-- A directory with one file changed or added. -/
def Filed (t u : Workbench σ) (path : StoragePath) (content : Bytes) : Prop :=
  ∃ d d', t.stage = some d ∧ u.stage = some d' ∧
    ∀ q, d'.fileAt q = if q = path then some (.regular content) else d.fileAt q

theorem createFile_filed {path : StoragePath} {u : Workbench σ} {a : Unit}
    (hcall : DirectoryCommand.perform (.createFile path) t = (.ok a, u)) : Filed t u path [] := by
  rcases restage_cases t (DirectoryCommand.createStaged path []) with
    ⟨e, hfail⟩ | ⟨d, d', hd, hcreate, hok⟩
  · cases hfail.symm.trans hcall
  · obtain ⟨-, rfl⟩ := Prod.mk.inj (hok.symm.trans hcall)
    exact ⟨d, d', hd, rfl, fileAt_createStaged hcreate⟩

theorem writeFile_filed {path : StoragePath} {content : Bytes} {u : Workbench σ} {a : Unit}
    (hcall : DirectoryCommand.perform (.writeFile path content) t = (.ok a, u)) :
    Filed t u path content := by
  rcases restage_cases t (DirectoryCommand.replaceStaged path content) with
    ⟨e, hfail⟩ | ⟨d, d', hd, hreplace, hok⟩
  · cases hfail.symm.trans hcall
  · obtain ⟨-, rfl⟩ := Prod.mk.inj (hok.symm.trans hcall)
    exact ⟨d, d', hd, rfl, fileAt_replaceStaged hreplace⟩

/-- A file that is created was not there before. -/
theorem createFile_fresh {path : StoragePath} {u : Workbench σ} {a : Unit} {d : Directory}
    (hcall : DirectoryCommand.perform (.createFile path) t = (.ok a, u)) (hd : t.stage = some d) :
    d.fileAt path = none := by
  rcases restage_cases t (DirectoryCommand.createStaged path []) with
    ⟨e, hfail⟩ | ⟨d', d₁, hd', hcreate, hok⟩
  · cases hfail.symm.trans hcall
  · obtain rfl : d = d' := Option.some.inj (hd.symm.trans hd')
    obtain ⟨parents, hparents, hfile⟩ := bind_eq_ok.mp hcreate
    rw [← Tree.fileAt_makeDirs hparents]
    exact (Forest.missing_iff.mp (Tree.create_ok hfile).1).1 _ (List.prefix_refl _)

/-- A file that is created and then written. -/
theorem Filed.trans {u v : Workbench σ} {path : StoragePath} {before content : Bytes}
    (hcreate : Filed t u path before) (hwrite : Filed u v path content) :
    Filed t v path content := by
  obtain ⟨d, d₁, hd, hd₁, hfile⟩ := hcreate
  obtain ⟨d₂, d', hd₂, hd', hfile'⟩ := hwrite
  obtain rfl : d₁ = d₂ := Option.some.inj (hd₁.symm.trans hd₂)
  refine ⟨d, d', hd, hd', fun q => ?_⟩
  rw [hfile', hfile]
  split <;> rfl

/-! ### Its files -/

/-- The regular file of the directory that is built. -/
def Workbench.stageFile (s : Workbench σ) (path : StoragePath) : Option Bytes :=
  s.stage.bind fun d => regularAt d path

theorem stageFile_eq_some {path : StoragePath} {content : Bytes} :
    t.stageFile path = some content ↔
      ∃ d, t.stage = some d ∧ d.fileAt path = some (.regular content) := by
  unfold Workbench.stageFile
  cases hstage : t.stage with
  | none => simp
  | some d =>
    rw [Option.bind_some, regularAt_eq_some]
    constructor
    · intro hfile
      exact ⟨d, rfl, hfile⟩
    · rintro ⟨d', hd', hfile⟩
      obtain rfl : d = d' := Option.some.inj hd'
      exact hfile

theorem Filed.self {path : StoragePath} {content : Bytes} (hfiled : Filed t u path content) :
    u.stageFile path = some content := by
  obtain ⟨d, d', -, hd', hfiles⟩ := hfiled
  exact stageFile_eq_some.mpr ⟨d', hd', (hfiles path).trans (if_pos rfl)⟩

theorem Filed.other {path q : StoragePath} {content content' : Bytes}
    (hfiled : Filed t u path content) (hne : q ≠ path) (hfile : t.stageFile q = some content') :
    u.stageFile q = some content' := by
  obtain ⟨d, d', hd, hd', hfiles⟩ := hfiled
  obtain ⟨d₀, hd₀, hfile⟩ := stageFile_eq_some.mp hfile
  obtain rfl : d₀ = d := Option.some.inj (hd₀.symm.trans hd)
  exact stageFile_eq_some.mpr ⟨d', hd', ((hfiles q).trans (if_neg hne)).trans hfile⟩

/-- A file that was not there is added. -/
structure Added (t u : Workbench σ) (path : StoragePath) (content : Bytes) : Prop where
  filed : Filed t u path content
  fresh : ∀ content', t.stageFile path ≠ some content'

/-- No file of the directory that is built is lost or changed. -/
def Extends (t u : Workbench σ) : Prop :=
  ∀ path content, t.stageFile path = some content → u.stageFile path = some content

theorem Extends.trans (htu : Extends t u) (huv : Extends u v) : Extends t v :=
  fun path content hfile => huv path content (htu path content hfile)

theorem Added.extends {path : StoragePath} {content : Bytes} (hadded : Added t u path content) :
    Extends t u := by
  intro q content' hfile
  by_cases heq : q = path
  · subst heq
    exact absurd hfile (hadded.fresh content')
  · exact hadded.filed.other heq hfile

/-- A file that is created and written is added. -/
theorem added_of_calls {path : StoragePath} {content : Bytes} {a b : Unit}
    (hcreate : DirectoryCommand.perform (.createFile path) t = (.ok a, u))
    (hwrite : DirectoryCommand.perform (.writeFile path content) u = (.ok b, v)) :
    Added t v path content := by
  refine ⟨(createFile_filed hcreate).trans (writeFile_filed hwrite), fun content' hfile => ?_⟩
  obtain ⟨d, hd, hfile⟩ := stageFile_eq_some.mp hfile
  rw [createFile_fresh hcreate hd] at hfile
  cases hfile

theorem writePrivateFile_untouched (ht : Untouched h t) (hprepared : h.Prepared)
    (path : StoragePath) (content : Bytes) :
    (writePrivateFile path content).Meets (Workbench.allows k) (Untouched h)
      (fun _ u => Added t u path content) (fun _ _ => True) t := by
  refine (directory_untouched ht hprepared (by simp) _).bind fun _ u hu hcreate => ?_
  refine (directory_untouched hu hprepared (by simp) _).bind fun _ v hv hsame => ?_
  obtain ⟨-, rfl⟩ := Prod.mk.inj hsame
  refine (directory_untouched hv hprepared (by simp) _).mono (fun _ w _ hwrite => ?_)
    fun _ _ _ _ => trivial
  exact added_of_calls hcreate hwrite

/-- A copy has the bytes of the file, and its hash. -/
theorem copyVerified_untouched [Digest] (ht : Untouched h t) (hprepared : h.Prepared) (file : Bytes)
    (target : StoragePath) :
    (copyVerified file target).Meets (Workbench.allows k) (Untouched h)
      (fun hash u => Hashes file hash ∧ Added t u target file) (fun _ _ => True) t := by
  refine (directory_untouched ht hprepared (by simp) _).bind fun _ u hu hcreate => ?_
  refine (directory_untouched hu hprepared (by simp) _).bind fun _ v hv hsame => ?_
  obtain ⟨-, rfl⟩ := Prod.mk.inj hsame
  refine (directory_untouched hv hprepared (by simp) _).bind fun content w hw hread => ?_
  obtain ⟨hcontent, rfl⟩ := Prod.mk.inj hread
  obtain rfl : file = content := Except.ok.inj hcontent
  refine (directory_untouched hw hprepared (by simp) _).bind fun _ x hx hwrite => ?_
  refine Procedure.meets_lift hx (fun hash hhash => ⟨streamHash_eq_ok.mp hhash, ?_⟩)
    fun _ _ => trivial
  exact added_of_calls hcreate hwrite

end BlobYard
