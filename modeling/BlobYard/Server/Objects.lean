/-
The deletion of objects.

The server resolves the slugs of the request, has the repository persist a plan, removes the
planned bytes from the store one object after the other, and has the repository finish the
plan.  It may stop after any of these steps; a later request for the same target then works
from the plan that is already there.

* `deleteObjectStart` — up to the persisted plan;
* `executeDeletion` — the bytes and the end of the plan;
* `deleteObjectAt` — the request executed without a break;
* `executeDeletion_spec` — what a successful end says about the repository.
-/
import BlobYard.Contract.CiRecords
import BlobYard.Repository.Lifecycle

namespace BlobYard

open Outcome

/-! ### Errors -/

/-- The classes of errors that the server answers with. -/
inductive ApiError where
  | notFound
  | conflict
  | invalidRequest
  | rangeNotSatisfiable
  | internal
  deriving DecidableEq

/-- `ApiError::from_repository`. -/
def ApiError.fromRepository : RepositoryError → ApiError
  | .notFound => .notFound
  | .conflict => .conflict
  | .invalidInput => .invalidRequest
  | .schemaTooNew | .unavailable => .internal

/-- `ApiError::from_storage`. -/
def ApiError.fromStorage : StorageError → ApiError
  | .notFound => .notFound
  | .conflict => .conflict
  | .invalidInput | .integrityMismatch => .invalidRequest
  | .unavailable => .internal

namespace Server

/-! ### The project of a request -/

/-- `resolve_project_slugs`. -/
def resolveProjectSlugs (s : Repository) (workspaceId : String) (workspaceSlug projectSlug : Slug) :
    Except ApiError ProjectRecord := do
  let workspace ← ofOption .notFound
    (s.workspaces.select fun w => w.slug = workspaceSlug).head?
  ensure (workspace.id = workspaceId) .notFound
  ofOption .notFound
    (s.projects.select fun p => p.workspaceId = workspace.id ∧ p.slug = projectSlug).head?

/-- `authorize_project_binding`. -/
def authorizeProjectBinding (principal : LocalApiTokenRecord) (project : ProjectRecord) :
    Except ApiError Unit :=
  ensure (∀ id ∈ principal.projectId, id = project.id) .notFound

/-! ### Deleting an object -/

/-- The URI of a deletion request: slugs, a path and a version that is not zero. -/
structure DeleteObjectRequest where
  workspaceSlug : Slug
  projectSlug : Slug
  logicalPath : String
  version : Option ℕ

/-- The identifiers and the time the server draws for one request. -/
structure RequestDraw where
  operationId : String
  eventId : String
  requestId : String
  nowMs : ℕ

/-- The event of a finished deletion. -/
def deletionEvent (principal : LocalApiTokenRecord) (target : ObjectDeletionTarget)
    (plan : DeletionPlan) (draw : RequestDraw) : NewAuditEvent where
  id := draw.eventId
  workspaceId := principal.workspaceId
  actor := plan.actor
  action := "object.deleted"
  requestId := plan.requestId
  targetType := "object"
  metadata :=
    [("path", .string target.objectPath),
     ("version", match target.version with
      | none => .null
      | some version => .number version)]
  createdAtMs := draw.nowMs

/-- A deletion between its plan and its end. -/
structure PlannedDeletion where
  target : ObjectDeletionTarget
  plan : DeletionPlan
  event : NewAuditEvent
  nowMs : ℕ

/-- The first half of `delete_object_at`: up to the persisted plan. -/
def deleteObjectStart (s : Repository) (principal : LocalApiTokenRecord)
    (request : DeleteObjectRequest) (draw : RequestDraw) :
    Except ApiError (PlannedDeletion × Repository) := do
  let project ← resolveProjectSlugs s principal.workspaceId request.workspaceSlug
    request.projectSlug
  authorizeProjectBinding principal project
  let target : ObjectDeletionTarget :=
    { projectId := project.id, objectPath := request.logicalPath, version := request.version }
  let (plan, s) ← (s.beginObjectDeletion
    { id := draw.operationId, target, actor := principal.id, requestId := draw.requestId
      createdAtMs := draw.nowMs }).mapError ApiError.fromRepository
  return ({ target, plan, event := deletionEvent principal target plan draw, nowMs := draw.nowMs },
    s)

/-- Removes the bytes of the items, given what the store answers; bytes that are not there are
no obstacle. -/
def removeBytes (delete : StorageKey → Except StorageError Unit) (items : List DeletionItem) :
    Except ApiError Unit :=
  forM items fun item =>
    match StorageKey.new item.storageKey with
    | .error _ => .error .internal
    | .ok key =>
      match delete key with
      | .ok () | .error .notFound => .ok ()
      | .error e => .error (ApiError.fromStorage e)

/-- `execute_deletion`, the second half; a plan that is complete needs nothing more. -/
def executeDeletion (s : Repository) (delete : StorageKey → Except StorageError Unit)
    (d : PlannedDeletion) : Except ApiError Repository := do
  if d.plan.complete then return s
  else do
    removeBytes delete d.plan.items
    (s.finishDeletion d.plan.id d.nowMs d.event).mapError ApiError.fromRepository

/-- `delete_object_at`, executed without a break. -/
def deleteObjectAt (s : Repository) (delete : StorageKey → Except StorageError Unit)
    (principal : LocalApiTokenRecord) (request : DeleteObjectRequest) (draw : RequestDraw) :
    Except ApiError (PlannedDeletion × Repository) := do
  let (d, s) ← deleteObjectStart s principal request draw
  let s ← executeDeletion s delete d
  return (d, s)

/-! ### What the two halves do -/

theorem deleteObjectStart_spec {s s' : Repository} {principal : LocalApiTokenRecord}
    {request : DeleteObjectRequest} {draw : RequestDraw} {d : PlannedDeletion}
    (h : deleteObjectStart s principal request draw = .ok (d, s')) :
    ∃ value : NewObjectDeletion, value.target = d.target ∧
      s.beginObjectDeletion value = .ok (d.plan, s') := by
  simp only [deleteObjectStart, bind_eq_ok, pure_eq_ok, Prod.mk.injEq] at h
  obtain ⟨project, -, -, -, ⟨plan, s₁⟩, hbegin, rfl, rfl⟩ := h
  exact ⟨_, rfl, mapError_eq_ok.mp hbegin⟩

theorem executeDeletion_spec {s s' : Repository} {delete : StorageKey → Except StorageError Unit}
    {d : PlannedDeletion} (h : executeDeletion s delete d = .ok s') :
    d.plan.complete = true ∧ s' = s ∨
      d.plan.complete = false ∧ s.finishDeletion d.plan.id d.nowMs d.event = .ok s' := by
  unfold executeDeletion at h
  split at h
  · rename_i hcomplete
    exact Or.inl ⟨hcomplete, (pure_eq_ok.mp h).symm⟩
  · rename_i hpending
    obtain ⟨_, -, hfinish⟩ := bind_eq_ok.mp h
    exact Or.inr ⟨by simpa using hpending, mapError_eq_ok.mp hfinish⟩

end Server

end BlobYard
