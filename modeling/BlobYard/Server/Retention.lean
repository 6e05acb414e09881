/-
The enforcement of retention.

For one project the server has the repository begin a run, or find the one that is pending,
removes the planned bytes one object after the other, and has the repository finish the run.
A store that does not remove an object leaves a failed run behind, which the next enforcement
takes up again.

* `enforceStart` — the project's workspace and the persisted plan;
* `enforcePlan` — the bytes and the end of the plan;
* `enforcePlan_spec` — what it leaves in the repository.
-/
import BlobYard.Server.Objects

namespace BlobYard

open Outcome

/-- The errors of the server's own work that retention meets. -/
inductive ServerError where
  | repository (error : RepositoryError)
  | storage
  | initialization
  deriving DecidableEq

namespace Server

/-- `project_workspace`: the workspace whose projects include this one. -/
def projectWorkspace (s : Repository) (projectId : String) : Except ServerError String :=
  ofOption (.repository .notFound) <| (s.workspaces.select fun w =>
    ∃ p ∈ s.projects, p.workspaceId = w.id ∧ p.id = projectId).head?.map WorkspaceRecord.id

/-- The identifiers and times the server draws for one enforcement; the second reading of the
clock may fail. -/
structure EnforcementDraw where
  runId : String
  requestId : String
  startedAtMs : ℕ
  eventId : String
  completedAtMs : Option ℕ

/-- The first half of `enforce_project_with_clock`. -/
def enforceStart (s : Repository) (projectId : String) (draw : EnforcementDraw) :
    Except ServerError ((String × DeletionPlan) × Repository) := do
  let workspaceId ← projectWorkspace s projectId
  let (plan, s) ← (s.beginRetention projectId draw.runId "system:retention" draw.requestId
    draw.startedAtMs).mapError .repository
  return ((workspaceId, plan), s)

/-- How the removal of the planned bytes ends. -/
inductive Removal where
  | removed (deletedCount : ℕ)
  | invalidKey
  | failed

/-- Removes the bytes of the items and counts them, given what the store answers. -/
def removeCounted (delete : StorageKey → Except StorageError Unit) :
    ℕ → List DeletionItem → Removal
  | deletedCount, [] => .removed deletedCount
  | deletedCount, item :: items =>
    match StorageKey.new item.storageKey with
    | .error _ => .invalidKey
    | .ok key =>
      match delete key with
      | .ok () | .error .notFound => removeCounted delete (min (deletedCount + 1) u64Max) items
      | .error _ => .failed

/-- The event of a finished run. -/
def retentionEvent (workspaceId : String) (plan : DeletionPlan) (deletedCount : ℕ)
    (eventId : String) (completedAtMs : ℕ) : NewAuditEvent where
  id := eventId
  workspaceId := workspaceId
  actor := plan.actor
  action := "retention.enforced"
  requestId := plan.requestId
  targetType := "retention_policy"
  metadata := [("deletedCount", .number deletedCount)]
  createdAtMs := completedAtMs

/-- `enforce_plan_with_clock`: the outcome and the repository afterwards. -/
def enforcePlan (s : Repository) (delete : StorageKey → Except StorageError Unit)
    (workspaceId : String) (plan : DeletionPlan) (draw : EnforcementDraw) :
    Except ServerError Unit × Repository :=
  if plan.complete then (.ok (), s)
  else
    match removeCounted delete 0 plan.items with
    | .invalidKey => (.error .storage, s)
    | .failed =>
      match s.failRetention plan.id draw.startedAtMs with
      | .ok s' => (.error .storage, s')
      | .error e => (.error (.repository e), s)
    | .removed deletedCount =>
      match draw.completedAtMs with
      | none => (.error .initialization, s)
      | some completedAtMs =>
        match s.finishDeletion plan.id completedAtMs
            (retentionEvent workspaceId plan deletedCount draw.eventId completedAtMs) with
        | .ok s' => (.ok (), s')
        | .error e => (.error (.repository e), s)

/-! ### What enforcement does -/

theorem removeCounted_spec {delete : StorageKey → Except StorageError Unit}
    {items : List DeletionItem} {deletedCount total : ℕ}
    (h : removeCounted delete deletedCount items = .removed total) :
    total ≤ deletedCount + items.length := by
  induction items generalizing deletedCount with
  | nil =>
    rw [removeCounted, Removal.removed.injEq] at h
    omega
  | cons item items ih =>
    rw [removeCounted] at h
    split at h
    · cases h
    · split at h
      · have hle := ih h
        rw [List.length_cons]
        omega
      · have hle := ih h
        rw [List.length_cons]
        omega
      · cases h

/-- Enforcing a plan leaves the repository alone, marks the run failed, or finishes the plan with
an event that counts at most its items. -/
theorem enforcePlan_spec (s : Repository) (delete : StorageKey → Except StorageError Unit)
    (workspaceId : String) (plan : DeletionPlan) (draw : EnforcementDraw) :
    (enforcePlan s delete workspaceId plan draw).2 = s ∨
      s.failRetention plan.id draw.startedAtMs =
        .ok (enforcePlan s delete workspaceId plan draw).2 ∨
      ∃ deletedCount completedAtMs, deletedCount ≤ plan.items.length ∧
        s.finishDeletion plan.id completedAtMs
            (retentionEvent workspaceId plan deletedCount draw.eventId completedAtMs) =
          .ok (enforcePlan s delete workspaceId plan draw).2 := by
  unfold enforcePlan
  split
  · exact Or.inl rfl
  · split
    · exact Or.inl rfl
    · split
      · rename_i hfail
        exact Or.inr (Or.inl hfail)
      · exact Or.inl rfl
    · rename_i hremoved
      split
      · exact Or.inl rfl
      · split
        · rename_i hfinish
          have hcount := removeCounted_spec hremoved
          exact Or.inr (Or.inr ⟨_, _, by omega, hfinish⟩)
        · exact Or.inl rfl

end Server

end BlobYard
