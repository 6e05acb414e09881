/-
A deletion that reports success has deleted what it was asked to.

Deletions run in two halves, with any other requests in between, and may stop after the first.
A ghost of each deletion keeps the versions that were complete when it started and have been
complete ever since; a version is gone once it drops out.  A deletion that finds the pending
plan of an earlier one works from that plan, and does not look at what has been completed since.

* `Covers` — a pending plan of the target, if there is one, names every complete version of it;
* `Tracked` — the invariant of a deletion in flight;
* `PlansKept`, `Tracked.step` — what every request does to plans, and so to deletions;
* `deletion_law` — deletions that start with `Covers` end with nothing left, and one that is not
  disturbed does so exactly then;
* `resumed_delete_leaves_version` — a deletion is stopped, a second version completes, and the
  same deletion succeeds and leaves it.
-/
import BlobYard.Lib.Run
import BlobYard.Repository.Requests
import BlobYard.Server.Objects

namespace BlobYard

open Outcome Repository Server

namespace ObjectDeletion

/-! ### Requests and runs -/

/-- A complete version with this id is stored. -/
def Available (s : Repository) (versionId : String) : Prop :=
  ∃ v ∈ s.objectVersions, v.id = versionId ∧ v.state = .complete

instance (s : Repository) : DecidablePred (Available s) :=
  fun versionId => inferInstanceAs (Decidable (∃ v ∈ s.objectVersions, v.id = versionId ∧ _))

/-- A pending plan of the target names every complete version that matches it. -/
def Covers (s : Repository) (target : ObjectDeletionTarget) : Prop :=
  ∀ o ∈ s.pendingOperation target, ∀ v ∈ s.selectedVersions target, v.state = .complete →
    v.id ∈ s.plannedIds o.id

instance (s : Repository) (target : ObjectDeletionTarget) : Decidable (Covers s target) :=
  inferInstanceAs (Decidable (∀ o ∈ s.pendingOperation target, _))

/-- The complete versions that match a target. -/
def startingVersions (s : Repository) (target : ObjectDeletionTarget) : List String :=
  ((s.selectedVersions target).filter fun v => v.state = .complete).map ObjectVersionRecord.id

/-- A deletion that has started, whether it was covered then, and the versions that were complete
then and have been ever since. -/
structure Deletion where
  planned : PlannedDeletion
  covered : Bool
  remaining : List String

/-- The deletion after a step that leaves the repository `s`. -/
def Deletion.observe (s : Repository) (d : Deletion) : Deletion :=
  { d with remaining := d.remaining.filter (Available s) }

/-- The repository, the deletions in flight, and those that have returned with success. -/
structure World where
  repository : Repository
  running : List Deletion
  returned : List Deletion

/-- The two halves of a deletion, the other requests on versions and plans, or any other change
of the remaining tables. -/
inductive Request where
  | startDelete (principal : LocalApiTokenRecord) (request : DeleteObjectRequest)
    (draw : RequestDraw)
  | finishDelete (index : ℕ) (delete : StorageKey → Except StorageError Unit)
  | upload (request : UploadRequest)
  | deletion (request : DeletionRequest)
  | environment (other : Repository)

namespace World

def init : World := { repository := Repository.empty, running := [], returned := [] }

/-- A step that leaves the repository `s`; every deletion in flight observes it. -/
def settle (w : World) (s : Repository) : World :=
  { w with repository := s, running := w.running.map (Deletion.observe s) }

/-- Executes a request; one that fails leaves the repository as it was. -/
def exec (w : World) : Request → World
  | .startDelete principal request draw =>
    match deleteObjectStart w.repository principal request draw with
    | .ok (planned, s) =>
      { w.settle s with
        running := (w.settle s).running ++
          [{ planned, covered := decide (Covers w.repository planned.target)
             remaining := startingVersions w.repository planned.target }] }
    | .error _ => w
  | .finishDelete index delete =>
    match w.running[index]? with
    | none => w
    | some d =>
      match executeDeletion w.repository delete d.planned with
      | .ok s =>
        { w.settle s with
          running := (w.settle s).running.eraseIdx index
          returned := w.returned ++ [d.observe s] }
      | .error _ => { w with running := w.running.eraseIdx index }
  | .upload request =>
    match request.run w.repository with
    | .ok (_, s) => w.settle s
    | .error _ => w
  | .deletion request =>
    match request.run w.repository with
    | .ok s => w.settle s
    | .error _ => w
  | .environment other =>
    w.settle { other with
      objectVersions := w.repository.objectVersions
      deletionOperations := w.repository.deletionOperations
      deletionItems := w.repository.deletionItems }

end World

/-- Requests in any order, from an empty repository. -/
def system : System World Request where
  init := World.init
  step w request w' := w' = w.exec request

/-! ### What is gone -/

variable {s s' : Repository}

/-- The version is not complete, not listed, and not downloaded. -/
structure Gone (s : Repository) (versionId : String) : Prop where
  complete : ∀ v ∈ s.objectVersions, v.id = versionId → v.state ≠ .complete
  visible : ∀ projectId start includeVersions records,
    s.listStoredObjects projectId start includeVersions = .ok records →
    ∀ record ∈ records, record.version.id ≠ versionId
  requested : ∀ grant s', grant.versionId = versionId → s.issueDownload grant ≠ .ok s'
  downloadable : ∀ capabilityHash nowMs record,
    s.downloadByCapability capabilityHash nowMs = .ok record → record.version.id ≠ versionId

/-- Lists and downloads serve complete versions only. -/
theorem gone_iff {versionId : String} : Gone s versionId ↔ ¬Available s versionId := by
  constructor
  · rintro h ⟨v, hv, hid, hcomplete⟩
    exact h.complete v hv hid hcomplete
  · intro h
    refine ⟨fun v hv hid hcomplete => h ⟨v, hv, hid, hcomplete⟩, ?_, ?_, ?_⟩
    · rintro projectId start includeVersions records hlist record hrecord rfl
      simp only [listStoredObjects, bind_eq_ok, pure_eq_ok] at hlist
      obtain ⟨-, -, -, -, rfl⟩ := hlist
      simp only [mem_orderBy, List.mem_flatMap, List.mem_map, Table.mem_select] at hrecord
      obtain ⟨v, ⟨hv, -, hcomplete, -⟩, r, -, rfl⟩ := hrecord
      exact h ⟨v, hv, rfl, hcomplete⟩
    · rintro grant s' rfl hissue
      simp only [issueDownload, bind_eq_ok, ensure_eq_ok] at hissue
      obtain ⟨-, -, -, -, -, -, -, havailable, -⟩ := hissue
      exact h havailable
    · rintro capabilityHash nowMs record hdownload rfl
      simp only [downloadByCapability, bind_eq_ok, pure_eq_ok, requireRow_eq_ok,
        Option.filter_eq_some_iff, Table.find?_eq_some, decide_eq_true_eq] at hdownload
      obtain ⟨-, -, -, -, _, -, v, ⟨⟨hv, -⟩, hcomplete⟩, _, -, rfl⟩ := hdownload
      exact h ⟨v, hv, rfl, hcomplete⟩

/-! ### What a request does to the plans -/

/-- Every operation is still there with what it names; one that becomes complete has removed the
versions it names. -/
def PlansKept (s s' : Repository) : Prop :=
  ∀ o ∈ s.deletionOperations, ∃ o' ∈ s'.deletionOperations, o'.id = o.id ∧
    (o.complete = true → o'.complete = true) ∧
    (∀ id ∈ s.plannedIds o.id, id ∈ s'.plannedIds o.id) ∧
    (o.complete = false → o'.complete = true →
      ∀ v ∈ s'.objectVersions, v.id ∉ s.plannedIds o.id)

theorem plannedIds_congr (hitems : s'.deletionItems = s.deletionItems) (operationId : String) :
    s'.plannedIds operationId = s.plannedIds operationId := by
  rw [plannedIds, plannedIds, operationItems, operationItems, hitems]

theorem plansKept_of_same (h : SamePlans s s') : PlansKept s s' := by
  intro o ho
  refine ⟨o, h.1 ▸ ho, rfl, id, fun id hid => ?_, fun hpending hcomplete => ?_⟩
  · rw [plannedIds_congr h.2]
    exact hid
  · rw [hpending] at hcomplete
    cases hcomplete

theorem plansKept_of_planned {o : DeletionOperationRow} {versions : List ObjectVersionRecord}
    (h : Planned s s' o versions) : PlansKept s s' := by
  intro x hx
  refine ⟨x, h.operation.mem_of_mem hx, rfl, id, fun id hid => ?_, fun hpending hcomplete => ?_⟩
  · obtain ⟨row, hrow, hrest⟩ := mem_plannedIds.mp hid
    exact mem_plannedIds.mpr ⟨row, (h.items row).mpr (Or.inl hrow), hrest⟩
  · rw [hpending] at hcomplete
    cases hcomplete

theorem plansKept_of_finished {o : DeletionOperationRow} {completedAtMs : ℕ}
    (h : Finished s s' o completedAtMs) : PlansKept s s' := by
  intro x hx
  have hids : ∀ id ∈ s.plannedIds x.id, id ∈ s'.plannedIds x.id := by
    intro id hid
    rw [plannedIds_congr h.items]
    exact hid
  by_cases hxo : x = o
  · subst hxo
    refine ⟨_, h.operation.mem_new, rfl, fun _ => rfl, hids, fun _ _ v hv hplanned => ?_⟩
    exact ((h.versions v).mp hv).2 (Or.inl hplanned)
  · refine ⟨x, (h.operation.mem x).mpr (Or.inl ⟨hx, hxo⟩), rfl, id, hids,
      fun hpending hcomplete => ?_⟩
    rw [hpending] at hcomplete
    cases hcomplete

theorem plansKept_of_deletion {request : DeletionRequest} (h : request.run s = .ok s') :
    PlansKept s s' := by
  rcases request.planChange h with ⟨-, hsame | ⟨o, versions, hplanned⟩⟩ | ⟨_, _, _, o, -, -, hfinished⟩
  · exact plansKept_of_same hsame
  · exact plansKept_of_planned hplanned
  · exact plansKept_of_finished hfinished

theorem plansKept_of_finish {operationId : String} {completedAtMs : ℕ} {event : NewAuditEvent}
    (h : s.finishDeletion operationId completedAtMs event = .ok s') :
    PlansKept s s' ∧ ∃ o ∈ s'.deletionOperations, o.id = operationId ∧ o.complete = true := by
  rcases finishDeletion_cases h with ⟨rfl, hcomplete⟩ | ⟨o, rfl, hfinished⟩
  · exact ⟨plansKept_of_same ⟨rfl, rfl⟩, hcomplete⟩
  · exact ⟨plansKept_of_finished hfinished, _, hfinished.operation.mem_new, rfl, rfl⟩

/-! ### The invariant -/

/-- The operation of a deletion is there, and names what remains of a covered one as long as it
is pending; nothing remains of a covered one when it is complete. -/
def Tracked (s : Repository) (d : Deletion) : Prop :=
  ∃ o ∈ s.deletionOperations, o.id = d.planned.plan.id ∧
    (d.planned.plan.complete = true → o.complete = true) ∧
    (d.covered = true → ∀ id ∈ d.remaining, o.complete = false ∧ id ∈ s.plannedIds o.id)

theorem Tracked.step {d : Deletion} (h : Tracked s d) (hkept : PlansKept s s') :
    Tracked s' (d.observe s') := by
  obtain ⟨o, ho, hid, hcomplete, hnamed⟩ := h
  obtain ⟨o', ho', hid', hstays, hids, hremoved⟩ := hkept o ho
  refine ⟨o', ho', hid'.trans hid, fun hc => hstays (hcomplete hc), fun hcovered id hmem => ?_⟩
  obtain ⟨hremaining, havailable⟩ := List.mem_filter.mp hmem
  obtain ⟨v, hv, rfl, -⟩ := of_decide_eq_true havailable
  obtain ⟨hpending, hplanned⟩ := hnamed hcovered _ hremaining
  rw [hid']
  refine ⟨?_, hids _ hplanned⟩
  by_contra hdone
  rw [Bool.not_eq_false] at hdone
  exact hremoved hpending hdone v hv hplanned

/-- Nothing remains of a covered deletion whose operation is complete. -/
theorem Tracked.done {d : Deletion} (h : Tracked s d) (hcovered : d.covered = true)
    {o : DeletionOperationRow} (ho : o ∈ s.deletionOperations) (hid : o.id = d.planned.plan.id)
    (hcomplete : o.complete = true) : d.remaining = [] := by
  obtain ⟨o', ho', hid', -, hnamed⟩ := h
  obtain rfl := Table.eq_of_key ho' ho (hid'.trans hid.symm)
  refine List.eq_nil_iff_forall_not_mem.mpr fun id hmem => ?_
  have hpending := (hnamed hcovered id hmem).1
  rw [hcomplete] at hpending
  cases hpending

/-- A deletion that has just started is tracked. -/
theorem tracked_start {principal : LocalApiTokenRecord} {request : DeleteObjectRequest}
    {draw : RequestDraw} {planned : PlannedDeletion}
    (h : deleteObjectStart s principal request draw = .ok (planned, s')) :
    PlansKept s s' ∧ Tracked s'
      { planned, covered := decide (Covers s planned.target)
        remaining := startingVersions s planned.target } := by
  obtain ⟨value, htarget, hbegin⟩ := deleteObjectStart_spec h
  have hrun : (DeletionRequest.beginObjectDeletion value).run s = .ok s' := by
    rw [DeletionRequest.run, hbegin]
    rfl
  refine ⟨plansKept_of_deletion hrun, ?_⟩
  obtain ⟨o, ho, hid, hcomplete, hcases⟩ := beginObjectDeletion_plan hbegin
  rw [htarget] at hcases
  refine ⟨o, ho, hid, fun hc => hcomplete.trans hc, fun hcovered id hmem => ?_⟩
  obtain ⟨v, hv, rfl⟩ := List.mem_map.mp hmem
  obtain ⟨hselected, hstate⟩ := List.mem_filter.mp hv
  replace hstate : v.state = .complete := of_decide_eq_true hstate
  rcases hcases with ⟨hpending, rfl⟩ | ⟨-, hnone, -⟩ | ⟨-, -, hnew, -, hnamed⟩
  · exact ⟨(mem_of_pendingOperation hpending).2.2,
      of_decide_eq_true hcovered o hpending v hselected hstate⟩
  · rw [hnone] at hselected
    exact absurd hselected List.not_mem_nil
  · exact ⟨hcomplete.trans hnew, hid ▸ hnamed v hselected hstate⟩

/-- The second half, when it succeeds, leaves nothing of a covered deletion. -/
theorem remaining_of_execute {d : Deletion} {delete : StorageKey → Except StorageError Unit}
    (h : Tracked s d) (hrun : executeDeletion s delete d.planned = .ok s') :
    PlansKept s s' ∧ (d.covered = true → (d.observe s').remaining = []) := by
  rcases executeDeletion_spec hrun with ⟨hcomplete, rfl⟩ | ⟨-, hfinish⟩
  · have hkept : PlansKept s' s' := plansKept_of_same ⟨rfl, rfl⟩
    have hstep := h.step hkept
    obtain ⟨o, ho, hid, hdone, -⟩ := h
    exact ⟨hkept, fun hcovered => hstep.done hcovered ho hid (hdone hcomplete)⟩
  · obtain ⟨hkept, o, ho, hid, hdone⟩ := plansKept_of_finish hfinish
    exact ⟨hkept, fun hcovered => (h.step hkept).done hcovered ho hid hdone⟩

/-- The deletions in flight are tracked, and nothing remains of the covered ones that returned. -/
structure Consistent (w : World) : Prop where
  running : ∀ d ∈ w.running, Tracked w.repository d
  returned : ∀ d ∈ w.returned, d.covered = true → d.remaining = []

theorem consistent_init : Consistent World.init where
  running _ h := absurd h List.not_mem_nil
  returned _ h := absurd h List.not_mem_nil

variable {w : World}

theorem Consistent.settle (h : Consistent w) (hkept : PlansKept w.repository s') :
    Consistent (w.settle s') where
  running d hd := by
    obtain ⟨d, hmem, rfl⟩ := List.mem_map.mp hd
    exact (h.running d hmem).step hkept
  returned := h.returned

/-- Every request keeps the invariant. -/
theorem Consistent.exec (h : Consistent w) (request : Request) : Consistent (w.exec request) := by
  cases request with
  | startDelete principal request draw =>
    simp only [World.exec]
    split
    · rename_i planned s' hrun
      obtain ⟨hkept, htracked⟩ := tracked_start hrun
      refine ⟨fun d hd => ?_, h.returned⟩
      rcases List.mem_append.mp hd with hold | hnew
      · exact (h.settle hkept).running d hold
      · obtain rfl := List.mem_singleton.mp hnew
        exact htracked
    · exact h
  | finishDelete index delete =>
    simp only [World.exec]
    split
    · exact h
    · rename_i d hd
      have htracked := h.running d (List.mem_of_getElem? hd)
      split
      · rename_i s' hrun
        obtain ⟨hkept, hempty⟩ := remaining_of_execute htracked hrun
        refine ⟨fun x hx => (h.settle hkept).running x (List.mem_of_mem_eraseIdx hx),
          fun x hx => ?_⟩
        rcases List.mem_append.mp hx with hold | hnew
        · exact h.returned x hold
        · obtain rfl := List.mem_singleton.mp hnew
          exact hempty
      · exact ⟨fun x hx => h.running x (List.mem_of_mem_eraseIdx hx), h.returned⟩
  | upload request =>
    simp only [World.exec]
    split
    · rename_i completed s' hrun
      exact h.settle (plansKept_of_same (request.versionChange hrun).2)
    · exact h
  | deletion request =>
    simp only [World.exec]
    split
    · rename_i s' hrun
      exact h.settle (plansKept_of_deletion hrun)
    · exact h
  | environment other => exact h.settle (plansKept_of_same ⟨rfl, rfl⟩)

/-! ### The law -/

/-- An undisturbed deletion that succeeds has deleted the complete versions of its target if and
only if it was covered. -/
theorem gone_iff_covers {delete : StorageKey → Except StorageError Unit}
    {principal : LocalApiTokenRecord} {request : DeleteObjectRequest} {draw : RequestDraw}
    {d : PlannedDeletion} (h : deleteObjectAt s delete principal request draw = .ok (d, s')) :
    (∀ id ∈ startingVersions s d.target, Gone s' id) ↔ Covers s d.target := by
  simp only [deleteObjectAt, bind_eq_ok, pure_eq_ok, Prod.mk.injEq] at h
  obtain ⟨⟨planned, s₁⟩, hstart, s₂, hexecute, rfl, rfl⟩ := h
  constructor
  · intro hgone o hpending v hselected hstate
    obtain ⟨value, htarget, hbegin⟩ := deleteObjectStart_spec hstart
    obtain ⟨o', ho', hid', hcomplete', hcases⟩ := beginObjectDeletion_plan hbegin
    rw [htarget, Option.mem_def.mp hpending] at hcases
    obtain ⟨he, rfl⟩ | ⟨hnone, -⟩ | ⟨hnone, -⟩ := hcases
    · obtain rfl : o = o' := Option.some.inj he
      have hdone : o.complete = false := (mem_of_pendingOperation hpending).2.2
      have hv := (mem_selectedVersions.mp hselected).1
      have hnot : ¬Available s₂ v.id := gone_iff.mp (hgone v.id (List.mem_map.mpr
        ⟨v, List.mem_filter.mpr ⟨hselected, decide_eq_true hstate⟩, rfl⟩))
      rcases executeDeletion_spec hexecute with ⟨hplan, -⟩ | ⟨-, hfinish⟩
      · rw [← hcomplete', hdone] at hplan
        cases hplan
      rcases finishDeletion_cases hfinish with ⟨-, x, hx, hxid, hxcomplete⟩ | ⟨x, hxid, hfinished⟩
      · obtain rfl := Table.eq_of_key hx ho' (hxid.trans hid'.symm)
        rw [hdone] at hxcomplete
        cases hxcomplete
      · obtain rfl := Table.eq_of_key hfinished.operation.mem_old ho' (hxid.trans hid'.symm)
        -- a complete version that the plan does not name would still be there
        by_contra hunnamed
        refine hnot ⟨v, (hfinished.versions v).mpr ⟨hv, ?_⟩, rfl, hstate⟩
        rintro (hnamed | ⟨-, -, -, haborted, -⟩)
        · exact hunnamed hnamed
        · rw [hstate] at haborted
          cases haborted
    · cases hnone
    · cases hnone
  · intro hcovers id hid
    obtain ⟨-, htracked⟩ := tracked_start hstart
    obtain ⟨-, hempty⟩ := remaining_of_execute htracked hexecute
    rw [gone_iff]
    intro havailable
    have hnil := hempty (decide_eq_true hcovers)
    exact List.eq_nil_iff_forall_not_mem.mp hnil id
      (List.mem_filter.mpr ⟨hid, decide_eq_true havailable⟩)

/-- Nothing remains of what a covered deletion found when it started, once it has returned with
success; and an undisturbed deletion deletes what it found exactly when it is covered. -/
structure Lawful (w : World) : Prop where
  gone : ∀ d ∈ w.returned, d.covered = true → d.remaining = []
  exact : ∀ delete principal request draw d s',
    deleteObjectAt w.repository delete principal request draw = .ok (d, s') →
      ((∀ id ∈ startingVersions w.repository d.target, Gone s' id) ↔
        Covers w.repository d.target)

theorem deletion_law (h : Run system (fun _ _ => True) w) : Lawful w := by
  have hconsistent : Consistent w := h.inv consistent_init fun _ request _ hw _ hs => by
    obtain rfl := hs
    exact hw.exec request
  exact ⟨hconsistent.returned, fun _ _ _ _ _ _ hrun => gone_iff_covers hrun⟩

/-! ### A deletion that is stopped -/

/-- The requests that upload one object to completion. -/
def uploaded (id : String) (digit : Char) (createdAtMs : ℕ) : List Request :=
  [.upload (.reserveUpload
     { id, projectId := "p", objectPath := "notes.txt", filename := "notes.txt"
       contentType := "text/plain", expectedSize := 1, expectedChecksum := repeatedDigit 'd'
       storageKey := "versions/p/" ++ id, capabilityHash := repeatedDigit digit
       expiresAtMs := createdAtMs + 60, createdAtMs, source := .cli, gitRepository := none
       gitCommit := none, gitBranch := none, strategy := .single, partSize := none
       partCount := none }),
   .upload (.recordUploadedBytes id 1 (repeatedDigit 'd')),
   .upload (.completeUpload id)]

/-- The owner of the workspace. -/
def owner : LocalApiTokenRecord where
  id := "owner"
  name := "Owner"
  tokenPrefix := "by"
  secretHash := repeatedDigit '0'
  scopes := ["object:write"]
  workspaceId := "w"
  projectId := none
  createdAtMs := 1
  expiresAtMs := 1000
  lastUsedAtMs := none
  revokedAtMs := none

/-- The first half of the deletion of the whole path. -/
def startDelete (n : String) (nowMs : ℕ) : Request :=
  .startDelete owner
    { workspaceSlug := ⟨"desk", by decide⟩, projectSlug := ⟨"drafts", by decide⟩
      logicalPath := "notes.txt", version := none }
    { operationId := "d" ++ n, eventId := "e" ++ n, requestId := "r" ++ n, nowMs }

/-- One version is uploaded, and its deletion is begun. -/
def stopped : List Request :=
  [.upload (.createWorkspace { id := "w", name := "Desk", slug := ⟨"desk", by decide⟩ }),
   .upload (.createProject
     { id := "p", workspaceId := "w", name := "Drafts", slug := ⟨"drafts", by decide⟩ })] ++
    uploaded "u1" '1' 1 ++ [startDelete "1" 2]

/-- The deletion that is not stopped. -/
def deleted : List Request := stopped ++ [.finishDelete 0 fun _ => .ok ()]

/-- The deletion is stopped, a second version is uploaded, and the path is deleted again. -/
def resumed : List Request :=
  stopped ++ uploaded "u2" '2' 3 ++ [startDelete "2" 4, .finishDelete 1 fun _ => .ok ()]

/-- The deletion returns with nothing left, and lawfully. -/
theorem lawful_deleted :
    (deleted.foldl World.exec World.init).returned.map (fun d => (d.covered, d.remaining)) =
        [(true, [])] ∧ Lawful (deleted.foldl World.exec World.init) :=
  ⟨by decide +kernel, deletion_law (Run.ofList_true (fun _ _ => rfl) Run.init _)⟩

/-- The second deletion returns with success, and the second version is still there. -/
theorem resumed_delete_leaves_version :
    Run system (fun _ _ => True) (resumed.foldl World.exec World.init) ∧
      (resumed.foldl World.exec World.init).returned.map (fun d => d.remaining) = [["u2"]] ∧
      ¬Gone (resumed.foldl World.exec World.init).repository "u2" := by
  refine ⟨Run.ofList_true (fun _ _ => rfl) Run.init _, by decide +kernel, ?_⟩
  rw [gone_iff, not_not]
  decide +kernel

end ObjectDeletion

end BlobYard
