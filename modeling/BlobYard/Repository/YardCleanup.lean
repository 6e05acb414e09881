/-
Cleanup plans for the files of pruned yard deploys.

Pruning a deploy persists, in the same transaction, a deletion plan for the versions
that only this deploy serves.  The plan is recorded under the manifest root of the
deploy; its server-side execution is the same as that of any other plan.

* `planYardCleanup_spec` — planning changes nothing, or adds a plan of complete versions;
* `pendingYardCleanups` — the plans that startup and the yard requests resume.
-/
import BlobYard.Repository.Lifecycle

namespace BlobYard

open Outcome

namespace Repository

/-- `deploy_by_id`. -/
def deployById (s : Repository) (deployId : String) : Except RepositoryError YardDeployRow :=
  requireRow (s.yardDeploys.find? deployId)

/-- The actor recorded on cleanup plans. -/
def yardCleanupActor : String := "system:yard-cleanup"

/-- A path at or under a manifest root. -/
def UnderRoot (root path : String) : Prop := path = root ∨ hasPrefix path root

instance (root path : String) : Decidable (UnderRoot root path) :=
  inferInstanceAs (Decidable (_ ∨ _))

/-- The versions of a deploy's files under its root, one for each file
(`yard_deploy_files f JOIN object_versions v ON v.id = f.version_id`). -/
def deployVersions (s : Repository) (deploy : YardDeployRow) : List ObjectVersionRecord :=
  (s.yardDeployFiles.select fun file => file.deployId = deploy.id).flatMap fun file =>
    s.objectVersions.select fun v =>
      some v.id = file.versionId ∧ UnderRoot deploy.manifestRoot v.objectPath

/-- Another deploy that is not pruned still serves the version. -/
def ServedElsewhere (s : Repository) (deploy : YardDeployRow) (v : ObjectVersionRecord) : Prop :=
  ∃ other ∈ s.yardDeployFiles, other.versionId = some v.id ∧ other.deployId ≠ deploy.id ∧
    ∃ d ∈ s.yardDeploys, d.id = other.deployId ∧ d.status ≠ .pruned

instance (s : Repository) (deploy : YardDeployRow) (v : ObjectVersionRecord) :
    Decidable (s.ServedElsewhere deploy v) :=
  inferInstanceAs (Decidable (∃ other ∈ s.yardDeployFiles, _))

/-- `yard_cleanup::plan`: `INSERT OR IGNORE` of the operation, then one item for each file
whose version no other deploy serves. -/
def planYardCleanup (s : Repository) (deployId : String) (createdAtMs : ℕ) :
    Except RepositoryError Repository := do
  let deploy ← s.deployById deployId
  let operationId := "yardcleanup_" ++ deploy.id
  if s.deployVersions deploy = [] ∨ (∃ o ∈ s.deletionOperations, o.id = operationId) then return s
  else
    let s ← s.insertOperation
      { id := operationId, projectId := deploy.projectId, objectPath := deploy.manifestRoot,
        selectedVersion := none, reason := .yardCleanup, complete := false,
        actor := yardCleanupActor, requestId := "request_yardcleanup_" ++ deploy.id,
        createdAtMs, completedAtMs := none }
    s.insertItems operationId <| (s.deployVersions deploy).filter fun v =>
      decide (v.state = .complete ∧ ¬s.ServedElsewhere deploy v)

/-- `yard_cleanup::pending`: the pending cleanup plans, of one yard or of all. -/
def pendingYardCleanups (s : Repository) (yardId : Option String) :
    Except RepositoryError (List YardCleanupPlan) := do
  validateTexts yardId.toList
  let operations := orderBy (fun o => toLex (o.createdAtMs, o.id)) <|
    s.deletionOperations.select fun o => o.reason = .yardCleanup ∧ o.complete = false
  let headers := operations.flatMap fun o =>
    (s.yardDeploys.select fun d =>
      d.projectId = o.projectId ∧ d.manifestRoot = o.objectPath ∧
        ∀ yard ∈ yardId, d.yardId = yard).map fun d => (o, d)
  headers.mapM fun header => do
    let deletion ← s.deletionPlan header.1.id
    return {
      yardId := header.2.yardId, workspaceId := header.2.workspaceId, deployId := header.2.id,
      deletion }

theorem mem_deployVersions {s : Repository} {deploy : YardDeployRow} {v : ObjectVersionRecord}
    (hv : v ∈ s.deployVersions deploy) : v ∈ s.objectVersions := by
  obtain ⟨file, -, hv⟩ := List.mem_flatMap.mp hv
  exact (Table.mem_select.mp hv).1

/-- Planning a cleanup changes nothing, or plans complete versions under the manifest root. -/
theorem planYardCleanup_spec {s s' : Repository} {deployId : String} {createdAtMs : ℕ}
    (h : s.planYardCleanup deployId createdAtMs = .ok s') :
    s' = s ∨ ∃ operations items o versions,
      s' = { s with deletionOperations := operations, deletionItems := items } ∧
      o.reason = .yardCleanup ∧ Planned s s' o versions := by
  simp only [planYardCleanup, bind_eq_ok] at h
  obtain ⟨deploy, -, h⟩ := h
  split at h
  · exact Or.inl (pure_eq_ok.mp h).symm
  · simp only [bind_eq_ok] at h
    obtain ⟨s₁, hs₁, hs₂⟩ := h
    obtain ⟨operations, rfl, hoperations⟩ := insertOperation_spec hs₁
    obtain ⟨items, rfl, hitems⟩ := insertItems_spec hs₂
    refine Or.inr ⟨operations, items, _, _, rfl, rfl, hoperations, rfl, hitems, fun v hv => ?_⟩
    obtain ⟨hv, hstate⟩ := List.mem_filter.mp hv
    have hstate : v.state = .complete := (of_decide_eq_true hstate).1
    exact ⟨mem_deployVersions hv, hstate⟩

end Repository

end BlobYard
