/-
Version numbers are not used twice.

The next number of a path is one more than the largest number in use, and the numbers
in use are those of the path's rows together with those of the deletion items recorded
under that same path.  This file runs uploads, deletions, retention and yard cleanup in
any order, with the history of the completions, and asks whether two completed versions
of one path can carry one number:

* `Distinct` — the law: the history of completed numbers has no repetition;
* `Numbered` — the invariant: every completed number is covered by a number still in
  use, and no pending version carries a completed number;
* `distinct_of_keeps_numbers` — the law holds in every run in which finishing a deletion
  leaves every completed number covered;
* `retention_reuses_number` — retention records its items under a path of its own, so
  finishing a retention run can uncover a number, which is then given out again.
-/
import BlobYard.Lib.Run
import BlobYard.Repository.Requests

namespace BlobYard

open Outcome

namespace VersionNumbers

/-! ### Requests and runs -/

/-- The number under which a version of a path was completed. -/
structure Completion where
  projectId : String
  objectPath : String
  version : ℕ
  deriving DecidableEq

/-- The number a version row carries. -/
def numberOf (v : ObjectVersionRecord) : Completion := ⟨v.projectId, v.objectPath, v.version⟩

/-- A request on uploads or deletions, or any other change of the remaining tables. -/
inductive Request where
  | upload (request : UploadRequest)
  | deletion (request : DeletionRequest)
  | environment (other : Repository)

/-- The repository with the history of completions, oldest first. -/
structure World where
  repository : Repository
  completed : List Completion

def World.init : World := ⟨Repository.empty, []⟩

/-- A request that fails leaves everything as it was. -/
def World.exec (w : World) : Request → World
  | .upload request =>
    match request.run w.repository with
    | .ok (completed, repository) =>
      ⟨repository, w.completed ++ (completed.map numberOf).toList⟩
    | .error _ => w
  | .deletion request =>
    match request.run w.repository with
    | .ok repository => ⟨repository, w.completed⟩
    | .error _ => w
  | .environment other =>
    ⟨{ other with
        objectVersions := w.repository.objectVersions
        deletionOperations := w.repository.deletionOperations
        deletionItems := w.repository.deletionItems }, w.completed⟩

/-- Requests in any order, from an empty repository. -/
def system : System World Request where
  init := World.init
  step w request w' := w' = w.exec request

/-- The law: no two completed versions of a path carry the same number. -/
def Distinct (w : World) : Prop := w.completed.Nodup

/-! ### The condition -/

/-- The number is covered: the path still has a number in use at least as large. -/
def Covered (s : Repository) (e : Completion) : Prop :=
  ∃ n ∈ s.usedVersions e.projectId e.objectPath, e.version ≤ n

/-- A version of the path that finishing `o` leaves in place has a number at least as large,
or an item recorded under the path has. -/
def StaysCovered (s : Repository) (o : DeletionOperationRow) (e : Completion) : Prop :=
  (∃ v ∈ s.objectVersions, (v.projectId = e.projectId ∧ v.objectPath = e.objectPath) ∧
    e.version ≤ v.version ∧ ¬s.Removes o v) ∨
  ∃ row ∈ s.deletionItems, e.version ≤ row.item.version ∧ ∃ o' ∈ s.deletionOperations,
    o'.id = row.operationId ∧ o'.projectId = e.projectId ∧ o'.objectPath = e.objectPath

instance (s : Repository) (o : DeletionOperationRow) (v : ObjectVersionRecord) :
    Decidable (s.Removes o v) :=
  inferInstanceAs (Decidable (_ ∨ _))

instance (s : Repository) (o : DeletionOperationRow) (e : Completion) :
    Decidable (StaysCovered s o e) :=
  inferInstanceAs (Decidable ((∃ v ∈ s.objectVersions, _) ∨ ∃ row ∈ s.deletionItems, _))

/-- Finishing a pending deletion leaves every completed number covered. -/
def KeepsNumbers (w : World) : Request → Prop
  | .deletion (.finishDeletion operationId _ _) =>
    ∀ o ∈ w.repository.deletionOperations, (o.id = operationId ∧ o.complete = false) →
      ∀ e ∈ w.completed, StaysCovered w.repository o e
  | _ => True

instance (w : World) (request : Request) : Decidable (KeepsNumbers w request) := by
  unfold KeepsNumbers
  split <;> infer_instance

/-! ### The invariant -/

/-- Every completed number is covered, no pending version carries a completed number, live
versions carry different numbers, and so do the completed ones. -/
structure Numbered (s : Repository) (completed : List Completion) : Prop where
  covered : ∀ e ∈ completed, Covered s e
  live : ∀ v ∈ s.objectVersions, ∀ v' ∈ s.objectVersions, numberOf v = numberOf v' → v = v'
  pending : ∀ v ∈ s.objectVersions, v.state = .pending → numberOf v ∉ completed
  distinct : completed.Nodup

theorem numbered_init : Numbered Repository.empty [] where
  covered _ h := absurd h List.not_mem_nil
  live _ h := absurd h Table.not_mem_empty
  pending _ _ _ := List.not_mem_nil
  distinct := List.nodup_nil

theorem mem_usedVersions {s : Repository} {projectId objectPath : String} {n : ℕ} :
    n ∈ s.usedVersions projectId objectPath ↔
      (∃ v ∈ s.objectVersions, (v.projectId = projectId ∧ v.objectPath = objectPath) ∧
        v.version = n) ∨
      ∃ row ∈ s.deletionItems, (∃ o ∈ s.deletionOperations, o.id = row.operationId ∧
        o.projectId = projectId ∧ o.objectPath = objectPath) ∧ row.item.version = n := by
  simp only [Repository.usedVersions, List.mem_append, List.mem_map, Table.mem_select, and_assoc]

section Steps

variable {s s' : Repository} {completed : List Completion}

/-- The numbers in use are those of the versions and the plans alone. -/
theorem usedVersions_congr (hversions : s'.objectVersions = s.objectVersions)
    (hplans : SamePlans s s') (projectId objectPath : String) :
    s'.usedVersions projectId objectPath = s.usedVersions projectId objectPath := by
  rw [Repository.usedVersions, Repository.usedVersions, hversions, hplans.1, hplans.2]

/-- A step that touches neither versions nor plans. -/
theorem Numbered.quiet (h : Numbered s completed)
    (hversions : s'.objectVersions = s.objectVersions) (hplans : SamePlans s s') :
    Numbered s' completed where
  covered e he := by
    obtain ⟨n, hn, hle⟩ := h.covered e he
    exact ⟨n, usedVersions_congr hversions hplans .. ▸ hn, hle⟩
  live := hversions ▸ h.live
  pending := hversions ▸ h.pending
  distinct := h.distinct

/-- A number in use stays in use while the path keeps its rows and its plans. -/
private theorem covered_mono {e : Completion} (h : Covered s e)
    (hversions : ∀ v ∈ s.objectVersions, ∃ v' ∈ s'.objectVersions, numberOf v' = numberOf v)
    (hitems : ∀ row ∈ s.deletionItems, row ∈ s'.deletionItems)
    (hoperations : ∀ o ∈ s.deletionOperations, ∃ o' ∈ s'.deletionOperations,
      o'.id = o.id ∧ o'.projectId = o.projectId ∧ o'.objectPath = o.objectPath) :
    Covered s' e := by
  obtain ⟨n, hn, hle⟩ := h
  refine ⟨n, mem_usedVersions.mpr ?_, hle⟩
  rcases mem_usedVersions.mp hn with ⟨v, hv, hpath, hnum⟩ | ⟨row, hrow, ⟨o, ho, hid, hpath⟩, hnum⟩
  · obtain ⟨v', hv', hnumber⟩ := hversions v hv
    simp only [numberOf, Completion.mk.injEq] at hnumber
    obtain ⟨hproject, hobject, hversion⟩ := hnumber
    exact Or.inl ⟨v', hv', ⟨hproject.trans hpath.1, hobject.trans hpath.2⟩, hversion.trans hnum⟩
  · obtain ⟨o', ho', hid', hproject, hobject⟩ := hoperations o ho
    exact Or.inr ⟨row, hitems row hrow, ⟨o', ho', hid'.trans hid, hproject.trans hpath.1,
      hobject.trans hpath.2⟩, hnum⟩

/-- A reservation gets a number above every number in use, so above every completed one. -/
theorem Numbered.reserved (h : Numbered s completed) (hplans : SamePlans s s')
    {value : NewUploadReservation} {version : ℕ}
    (hnext : s.nextVersion value.projectId value.objectPath = .ok version)
    (hinsert : s.objectVersions.Inserted s'.objectVersions
      (Repository.reservedVersion value version)) : Numbered s' completed where
  covered e he := by
    refine covered_mono (h.covered e he) (fun v hv => ⟨v, hinsert.mem_of_mem hv, rfl⟩) ?_ ?_
    · exact hplans.2 ▸ fun row hrow => hrow
    · exact hplans.1 ▸ fun o ho => ⟨o, ho, rfl, rfl, rfl⟩
  live := by
    -- a row with the new number would have a number in use equal to the new one
    have hfresh : ∀ v ∈ s.objectVersions,
        numberOf v ≠ numberOf (Repository.reservedVersion value version) := by
      intro v hv hnumber
      simp only [numberOf, Repository.reservedVersion, Completion.mk.injEq] at hnumber
      obtain ⟨hproject, hobject, hversion⟩ := hnumber
      have hlt := Repository.nextVersion_gt hnext
        (hproject ▸ hobject ▸ Repository.usedVersions_live hv)
      omega
    intro v hv v' hv' hnumber
    rcases (hinsert.mem v).mp hv with hv | rfl <;> rcases (hinsert.mem v').mp hv' with hv' | rfl
    · exact h.live v hv v' hv' hnumber
    · exact absurd hnumber (hfresh v hv)
    · exact absurd hnumber.symm (hfresh v' hv')
    · rfl
  pending v hv hstate := by
    rcases (hinsert.mem v).mp hv with hv | rfl
    · exact h.pending v hv hstate
    · intro he
      obtain ⟨n, hn, hle⟩ := h.covered _ he
      have hlt : n < version := Repository.nextVersion_gt hnext hn
      exact absurd (lt_of_lt_of_le hlt hle) (lt_irrefl _)
  distinct := h.distinct

/-- A pending version that reaches its terminal state keeps its number. -/
private theorem Numbered.replaced (h : Numbered s completed) (hplans : SamePlans s s')
    {v v' : ObjectVersionRecord} (hreplace : s.objectVersions.Replaced s'.objectVersions v v')
    (hnumber : numberOf v' = numberOf v) (hstate : v'.state ≠ .pending) :
    Numbered s' completed where
  covered e he := by
    refine covered_mono (h.covered e he) (fun x hx => ?_) ?_ ?_
    · by_cases hxv : x = v
      · exact ⟨v', hreplace.mem_new, hxv ▸ hnumber⟩
      · exact ⟨x, (hreplace.mem x).mpr (Or.inl ⟨hx, hxv⟩), rfl⟩
    · exact hplans.2 ▸ fun row hrow => hrow
    · exact hplans.1 ▸ fun o ho => ⟨o, ho, rfl, rfl, rfl⟩
  live := by
    intro x hx y hy hxy
    rcases (hreplace.mem x).mp hx with ⟨hx, hxv⟩ | rfl <;>
      rcases (hreplace.mem y).mp hy with ⟨hy, hyv⟩ | rfl
    · exact h.live x hx y hy hxy
    · exact absurd (h.live x hx v hreplace.mem_old (hxy.trans hnumber)) hxv
    · exact absurd (h.live y hy v hreplace.mem_old (hxy.symm.trans hnumber)) hyv
    · rfl
  pending x hx hpending := by
    rcases (hreplace.mem x).mp hx with ⟨hx, -⟩ | rfl
    · exact h.pending x hx hpending
    · exact absurd hpending hstate
  distinct := h.distinct

/-- A completion adds a number that no earlier completion and no other pending version has. -/
theorem Numbered.complete (h : Numbered s completed) (hplans : SamePlans s s')
    {v : ObjectVersionRecord} {row : UploadReservationRow} (hpending : v.state = .pending)
    (hreplace : s.objectVersions.Replaced s'.objectVersions v
      (Repository.completedVersion v row)) :
    Numbered s' (completed ++ [numberOf (Repository.completedVersion v row)]) := by
  have hkeep := h.replaced hplans hreplace rfl (by simp [Repository.completedVersion])
  refine ⟨fun e he => ?_, hkeep.live, fun x hx hx' => ?_, ?_⟩
  · rcases List.mem_append.mp he with he | he
    · exact hkeep.covered e he
    · obtain rfl := List.mem_singleton.mp he
      have hused : v.version ∈ s'.usedVersions v.projectId v.objectPath :=
        Repository.usedVersions_live (v := Repository.completedVersion v row) hreplace.mem_new
      exact ⟨v.version, hused, le_refl _⟩
  -- another pending version carries another number
  · rw [List.mem_append, List.mem_singleton, not_or]
    refine ⟨hkeep.pending x hx hx', fun hnumber => ?_⟩
    obtain rfl := hkeep.live x hx _ hreplace.mem_new hnumber
    cases hx'
  · refine List.nodup_append.mpr ⟨h.distinct, List.nodup_singleton _, ?_⟩
    rintro e he _ hv rfl
    obtain rfl := List.mem_singleton.mp hv
    exact h.pending v hreplace.mem_old hpending he

/-- A new plan only adds numbers in use. -/
theorem Numbered.planned (h : Numbered s completed)
    (hversions : s'.objectVersions = s.objectVersions) {o : DeletionOperationRow}
    {versions : List ObjectVersionRecord} (hplan : Repository.Planned s s' o versions) :
    Numbered s' completed where
  covered e he := by
    refine covered_mono (h.covered e he) ?_ (fun row hrow => ?_) fun o' ho' => ?_
    · exact hversions ▸ fun v hv => ⟨v, hv, rfl⟩
    · exact (hplan.items row).mpr (Or.inl hrow)
    · exact ⟨o', hplan.operation.mem_of_mem ho', rfl, rfl, rfl⟩
  live := hversions ▸ h.live
  pending := hversions ▸ h.pending
  distinct := h.distinct

/-- Finishing a plan keeps the invariant when every completed number stays covered. -/
theorem Numbered.finished (h : Numbered s completed) {o : DeletionOperationRow}
    {completedAtMs : ℕ} (hfinish : Repository.Finished s s' o completedAtMs)
    (hcovered : ∀ e ∈ completed, StaysCovered s o e) : Numbered s' completed where
  covered e he := by
    rcases hcovered e he with
      ⟨v, hv, hpath, hle, hkept⟩ | ⟨row, hrow, hle, o', ho', hid, hpath⟩
    · refine ⟨v.version, mem_usedVersions.mpr (Or.inl ⟨v, ?_, hpath, rfl⟩), hle⟩
      exact (hfinish.versions v).mpr ⟨hv, hkept⟩
    · refine ⟨row.item.version, mem_usedVersions.mpr (Or.inr ⟨row, ?_, ?_, rfl⟩), hle⟩
      · exact hfinish.items ▸ hrow
      · by_cases ho : o' = o
        · subst ho
          exact ⟨_, hfinish.operation.mem_new, hid, hpath⟩
        · exact ⟨o', (hfinish.operation.mem o').mpr (Or.inl ⟨ho', ho⟩), hid, hpath⟩
  live v hv v' hv' :=
    h.live v ((hfinish.versions v).mp hv).1 v' ((hfinish.versions v').mp hv').1
  pending v hv := h.pending v ((hfinish.versions v).mp hv).1
  distinct := h.distinct

end Steps

/-! ### The law over runs -/

/-- One request keeps the invariant. -/
theorem numbered_exec {w : World} {request : Request} (h : Numbered w.repository w.completed)
    (hguard : KeepsNumbers w request) :
    Numbered (w.exec request).repository (w.exec request).completed := by
  cases request with
  | upload request =>
    rw [World.exec]
    cases hrun : request.run w.repository with
    | error e => exact h
    | ok result =>
      obtain ⟨completed, s⟩ := result
      obtain ⟨hchange, hplans⟩ := UploadRequest.versionChange hrun
      cases hchange with
      | quiet hversions => simpa using h.quiet hversions hplans
      | reserved hnext hinsert => simpa using h.reserved hplans hnext hinsert
      | completed hpending hreplace => exact h.complete hplans hpending hreplace
      | aborted hpending hreplace =>
        simpa using h.replaced hplans hreplace rfl (by simp)
  | deletion request =>
    rw [World.exec]
    cases hrun : request.run w.repository with
    | error e => exact h
    | ok s =>
      rcases DeletionRequest.planChange hrun with
        ⟨hversions, hplans | ⟨o, versions, hplan⟩⟩ | ⟨_, completedAtMs, event, o, rfl, rfl, hfinish⟩
      · exact h.quiet hversions hplans
      · exact h.planned hversions hplan
      · exact h.finished hfinish
          (hguard o hfinish.operation.mem_old ⟨rfl, hfinish.pending⟩)
  | environment other => exact h.quiet rfl ⟨rfl, rfl⟩

/-- **Version numbers**: in every run of uploads, deletions, retention, yard cleanup and any
other change of the remaining tables, in which finishing a deletion leaves every completed
number covered, no two completed versions of a path carry the same number. -/
theorem distinct_of_keeps_numbers {w : World} (h : Run system KeepsNumbers w) : Distinct w := by
  have hnumbered : Numbered w.repository w.completed := by
    refine Run.inv (P := fun w => Numbered w.repository w.completed) numbered_init ?_ h
    rintro w request _ hw hguard rfl
    exact numbered_exec hw hguard
  exact hnumbered.distinct

/-! ### Two uploads of one path -/

/-- The upload `id` of one byte at `path`, from its reservation to its completion. -/
def uploadRequests (id path : String) (digit : Char) (createdAtMs : ℕ) : List Request :=
  [.upload (.reserveUpload
     { id, projectId := "p", objectPath := path, filename := path, contentType := "text/plain",
       expectedSize := 1, expectedChecksum := repeatedDigit 'c', storageKey := "versions/p/" ++ id,
       capabilityHash := repeatedDigit digit, expiresAtMs := createdAtMs + 50, createdAtMs,
       source := .cli, gitRepository := none, gitCommit := none, gitBranch := none,
       strategy := .single, partSize := none, partCount := none }),
   .upload (.recordUploadedBytes id 1 (repeatedDigit 'c')),
   .upload (.completeUpload id)]

/-- A workspace with one project. -/
def projectRequests : List Request :=
  [.upload (.createWorkspace { id := "w", name := "Lab", slug := ⟨"lab", by decide⟩ }),
   .upload (.createProject
     { id := "p", workspaceId := "w", name := "Docs", slug := ⟨"docs", by decide⟩ })]

def deletionEvent (id action : String) : NewAuditEvent where
  id := id
  workspaceId := "w"
  actor := "owner"
  action := action
  requestId := "r"
  targetType := "object"
  metadata := []
  createdAtMs := 9

/-- A path is uploaded, deleted by its user and uploaded again. -/
def userDeletion : List Request :=
  projectRequests ++ uploadRequests "u1" "a.txt" 'a' 1 ++
    [.deletion (.beginObjectDeletion
       { id := "d", target := { projectId := "p", objectPath := "a.txt", version := none },
         actor := "owner", requestId := "r", createdAtMs := 2 }),
     .deletion (.finishDeletion "d" 3 (deletionEvent "e1" "object.deleted"))] ++
    uploadRequests "u2" "a.txt" 'b' 4

/-- After a user deletion the path continues with its second number. -/
theorem distinct_of_user_deletion :
    (userDeletion.foldl World.exec World.init).completed = [⟨"p", "a.txt", 1⟩, ⟨"p", "a.txt", 2⟩] ∧
      Distinct (userDeletion.foldl World.exec World.init) :=
  ⟨by decide +kernel,
    distinct_of_keeps_numbers (Run.ofList (fun _ _ => rfl) Run.init (by decide +kernel))⟩

/-- A path is uploaded, deleted by retention and uploaded again; the newest object of the
project, which retention keeps, is another path. -/
def retentionRun : List Request :=
  projectRequests ++ uploadRequests "u1" "a.txt" 'a' 1 ++ uploadRequests "u2" "b.txt" 'b' 2 ++
    [.deletion (.setRetention
       { projectId := "p", keepLatest := 1, pathGlob := none, branchGlob := none,
         createdAtMs := 3, updatedAtMs := 3 }
       (deletionEvent "e1" "retention.policy_set")),
     .deletion (.beginRetention "p" "run" "owner" "r" 4),
     .deletion (.finishDeletion "run" 5 (deletionEvent "e2" "retention.enforced"))] ++
    uploadRequests "u3" "a.txt" 'd' 6

/-- The number 1 of the path is given out and completed twice. -/
theorem retention_reuses_number : ∃ w, Run system (fun _ _ => True) w ∧ ¬Distinct w := by
  refine ⟨retentionRun.foldl World.exec World.init,
    Run.ofList_true (fun _ _ => rfl) Run.init _, ?_⟩
  have hcompleted : (retentionRun.foldl World.exec World.init).completed =
      [⟨"p", "a.txt", 1⟩, ⟨"p", "b.txt", 1⟩, ⟨"p", "a.txt", 1⟩] := by decide +kernel
  rw [Distinct, hcompleted]
  decide

end VersionNumbers

end BlobYard
