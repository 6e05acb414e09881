/-
Web Yards and their deploys.

A yard is a stable name; its deploys are immutable file sets, one of which is live.
Finalising promotes a deploy unless a newer one was finalised before it, rolling back
promotes a superseded one again, and every finalise or failure prunes the history to a
fixed depth.  Pruning persists a cleanup plan for the files that nothing else serves.

* `startYardDeploy_spec`, `finaliseYardDeploy_spec`, `failYardDeploy_spec`,
  `rollbackWebYard_spec`, `deleteWebYard_spec` — what each operation does to the yards and
  the deploys;
* `prunedRow`, `expiredDeploys` — what pruning does to a row, and to which rows.
-/
import BlobYard.Core.WebYardOrigin
import BlobYard.Repository.YardCleanup

namespace BlobYard

open Outcome

/-! ### Validation -/

/-- The number of unpruned terminal deploys a yard keeps. -/
def historyDepth : ℕ := 10

/-- The number of files a deploy may have. -/
def maximumFiles : ℕ := 10000

/-- `valid_host_label`. -/
def ValidHostLabel (value : String) : Prop := '-' ∈ value.toList ∧ ValidDnsLabel value

instance (value : String) : Decidable (ValidHostLabel value) :=
  inferInstanceAs (Decidable (_ ∧ _))

/-- `valid_client_id`. -/
def ValidClientId (value : String) : Prop :=
  16 ≤ value.utf8ByteSize ∧ value.utf8ByteSize ≤ 128 ∧
    (value.toList.head?.any isAsciiAlphanumeric) = true ∧
    ∀ c ∈ value.toList, isAsciiAlphanumeric c = true ∨ c = '_' ∨ c = '-'

instance (value : String) : Decidable (ValidClientId value) :=
  inferInstanceAs (Decidable (_ ∧ _ ∧ _ ∧ _))

/-- `is_valid_yard_path`. -/
def ValidYardPath (value : String) : Prop :=
  ValidRelativePath value 1024 ∧ (segments value).head? ≠ some ".blobyard".toList

instance (value : String) : Decidable (ValidYardPath value) :=
  inferInstanceAs (Decidable (_ ∧ _))

/-- `event_matches`: the metadata is compared as a map, duplicates are refused. -/
def validateYardEvent (event : NewAuditEvent) (action targetType workspaceId : String)
    (atMs : ℕ) (metadata : List (String × AuditValue)) : Except RepositoryError Unit :=
  ensure (event.action = action ∧ event.targetType = targetType ∧
    event.workspaceId = workspaceId ∧ event.createdAtMs = atMs ∧
    event.metadata.Perm metadata) .invalidInput

/-- `action_event`. -/
def validateActionEvent (event : NewAuditEvent) (action targetType workspaceId : String)
    (atMs : ℕ) (metadata : List (String × AuditValue)) : Except RepositoryError Unit := do
  validateYardEvent event action targetType workspaceId atMs metadata
  toI64 atMs

/-- The manifest root of a deploy. -/
def manifestRootOf (yardId clientDeployId : String) : String :=
  ".blobyard-yard/" ++ yardId ++ "/" ++ clientDeployId ++ "/"

/-- `yard_validation::start`. -/
def validateYardStart (yard : NewWebYard) (deploy : NewYardDeploy) (event : NewAuditEvent) :
    Except RepositoryError Unit := do
  validateTexts [yard.id, yard.workspaceId, yard.projectId, yard.hostLabel, deploy.id,
    deploy.yardId, deploy.workspaceId, deploy.projectId, deploy.clientDeployId,
    deploy.manifestRoot, deploy.deploymentHostLabel]
  ensure (deploy.yardId = yard.id ∧ deploy.workspaceId = yard.workspaceId ∧
    deploy.projectId = yard.projectId ∧ ValidHostLabel yard.hostLabel ∧
    ValidHostLabel deploy.deploymentHostLabel ∧ ValidClientId deploy.clientDeployId ∧
    deploy.manifestRoot = manifestRootOf yard.id deploy.clientDeployId) .invalidInput
  validateYardEvent event "yard.created" "web_yard" yard.workspaceId yard.createdAtMs
    [("yardId", .string yard.id)]
  toI64 yard.createdAtMs
  toI64 deploy.createdAtMs

/-- The deploy is still being uploaded or finalised. -/
def InProgress (deploy : YardDeployRow) : Prop :=
  deploy.status = .uploading ∨ deploy.status = .finalising

instance (deploy : YardDeployRow) : Decidable (InProgress deploy) :=
  inferInstanceAs (Decidable (_ ∨ _))

/-- `yard_validation::finalise`: the file count and the total size. -/
def validateFinalise (deploy : YardDeployRow) (files : List NewYardFile) (nowMs : ℕ) :
    Except RepositoryError (ℕ × ℕ) := do
  ensure (InProgress deploy ∧ files ≠ [] ∧ files.length ≤ maximumFiles) .conflict
  let total := (files.map NewYardFile.byteSize).sum
  validateTexts (files.map NewYardFile.versionId)
  ensure ((∀ file ∈ files, ValidYardPath file.normalizedPath) ∧
    (files.map NewYardFile.normalizedPath).Nodup ∧ total ≤ u64Max ∧
    "index.html" ∈ files.map NewYardFile.normalizedPath) .invalidInput
  toI64 nowMs
  toI64 total
  return (files.length, total)

/-- `yard_validation::failure`. -/
def validateFailure (deploy : YardDeployRow) (code message : String) (nowMs : ℕ) :
    Except RepositoryError Unit := do
  ensure (InProgress deploy) .conflict
  ensure (2 ≤ code.utf8ByteSize ∧ code.utf8ByteSize ≤ 64 ∧
    (code.toList.head?.any fun c => 'A' ≤ c && c ≤ 'Z') = true ∧
    (∀ c ∈ code.toList, ('A' ≤ c ∧ c ≤ 'Z') ∨ ('0' ≤ c ∧ c ≤ '9') ∨ c = '_') ∧
    1 ≤ message.utf8ByteSize ∧ message.utf8ByteSize ≤ 200 ∧
    ∀ c ∈ message.toList, isControl c = false) .invalidInput
  toI64 nowMs

/-- The persisted representation of a deploy status. -/
def YardDeployStatus.asStr : YardDeployStatus → String
  | .uploading => "uploading"
  | .finalising => "finalising"
  | .live => "live"
  | .failed => "failed"
  | .superseded => "superseded"
  | .pruned => "pruned"

/-- The order of a yard's history: creation time, then id. -/
def deployOrder (deploy : YardDeployRow) : ℕ ×ₗ String := toLex (deploy.createdAtMs, deploy.id)

namespace Repository

/-! ### Queries -/

/-- `yard_by_id`. -/
def yardById (s : Repository) (yardId : String) : Except RepositoryError WebYardRecord :=
  requireRow (s.webYards.find? yardId)

/-- `active_named_yard`. -/
def activeNamedYard (s : Repository) (projectId : String) (name : Slug) : Option WebYardRecord :=
  (s.webYards.select fun y =>
    y.projectId = projectId ∧ y.name = name ∧ y.status ≠ .deleted).head?

/-- `deploy_by_client_id`. -/
def deployByClientId (s : Repository) (clientDeployId : String) : Option YardDeployRow :=
  (s.yardDeploys.select fun d => d.clientDeployId = clientDeployId).head?

/-- `graph`: a deploy with its yard. -/
def deploymentRecord (s : Repository) (deploy : YardDeployRow) :
    Except RepositoryError YardDeploymentRecord := do
  let yard ← s.yardById deploy.yardId
  return { yard, deploy }

/-- The deploys of a yard, newest first (`list_candidates`). -/
def listCandidates (deploys : Table YardDeployRow.id) (yardId : String) : List YardDeployRow :=
  orderBy (fun d => OrderDual.toDual (deployOrder d)) (deploys.select fun d => d.yardId = yardId)

/-! ### Starting -/

/-- `insert_yard` and `insert_production_environment`. -/
def insertYard (s : Repository) (yard : NewWebYard) : Except RepositoryError Repository := do
  ensure (∃ p ∈ s.projects, p.id = yard.projectId ∧ p.workspaceId = yard.workspaceId) .notFound
  ensure (∀ y ∈ s.webYards, y.hostLabel ≠ yard.hostLabel) .conflict
  let webYards ← insertRow s.webYards
    { id := yard.id, workspaceId := yard.workspaceId, projectId := yard.projectId,
      name := yard.name, hostLabel := yard.hostLabel, currentDeployId := none, status := .active,
      createdAtMs := yard.createdAtMs, updatedAtMs := yard.createdAtMs, deletedAtMs := none }
  let yardEnvironments ← insertRow s.yardEnvironments
    { id := "yardenv_" ++ yard.id, yardId := yard.id, name := "production", kind := .production,
      status := .active, createdAtMs := yard.createdAtMs, updatedAtMs := yard.createdAtMs }
  return { s with webYards, yardEnvironments }

/-- `insert_deploy`: the row belongs to the selected yard, whichever yard was requested. -/
def insertDeploy (s : Repository) (yard : WebYardRecord) (deploy : NewYardDeploy) :
    Except RepositoryError Repository := do
  let manifestRoot := manifestRootOf yard.id deploy.clientDeployId
  ensure (∀ d ∈ s.yardDeploys, d.clientDeployId ≠ deploy.clientDeployId ∧
    d.manifestRoot ≠ manifestRoot ∧ d.deploymentHostLabel ≠ deploy.deploymentHostLabel) .conflict
  let yardDeploys ← insertRow s.yardDeploys
    { id := deploy.id, yardId := yard.id, workspaceId := yard.workspaceId,
      projectId := yard.projectId, clientDeployId := deploy.clientDeployId, manifestRoot,
      deploymentHostLabel := deploy.deploymentHostLabel, spa := deploy.spa,
      cleanUrls := deploy.cleanUrls, status := .uploading, createdAtMs := deploy.createdAtMs,
      finalisedAtMs := none, fileCount := 0, totalBytes := 0, failureCode := none,
      failureMessage := none, prunedAtMs := none }
  return { s with yardDeploys }

/-- `reused`: a known client id returns its deploy when the request describes the same one. -/
def reusedDeploy (s : Repository) (yard : NewWebYard) (deploy : NewYardDeploy)
    (existing : YardDeployRow) : Except RepositoryError YardStartRecord := do
  let known ← s.yardById existing.yardId
  ensure (known.status = .active ∧ known.workspaceId = yard.workspaceId ∧
    known.projectId = yard.projectId ∧ known.name = yard.name ∧
    existing.workspaceId = deploy.workspaceId ∧ existing.projectId = deploy.projectId ∧
    existing.spa = deploy.spa ∧ existing.cleanUrls = deploy.cleanUrls) .conflict
  return { yard := known, deploy := existing }

/-- The active yard of that name, or a new one. -/
def selectYard (s : Repository) (yard : NewWebYard) (event : NewAuditEvent) :
    Except RepositoryError (WebYardRecord × Repository) :=
  match s.activeNamedYard yard.projectId yard.name with
  | some existing => do
    ensure (existing.status = .active ∧ existing.workspaceId = yard.workspaceId) .conflict
    return (existing, s)
  | none => do
    let s ← s.insertYard yard
    let s ← s.insertAudit event
    let created ← s.yardById yard.id
    return (created, s)

/-- `start_yard_deploy`. -/
def startYardDeploy (s : Repository) (yard : NewWebYard) (deploy : NewYardDeploy)
    (event : NewAuditEvent) : Except RepositoryError (YardStartRecord × Repository) := do
  validateYardStart yard deploy event
  match s.deployByClientId deploy.clientDeployId with
  | some existing =>
    let record ← s.reusedDeploy yard deploy existing
    return (record, s)
  | none =>
    let (selected, s) ← s.selectYard yard event
    let s ← s.insertDeploy selected deploy
    let created ← s.deployById deploy.id
    return ({ yard := selected, deploy := created }, s)

/-! ### Pruning -/

/-- `mark_pruned`: plans the cleanup, forgets the files and marks the row. -/
def markPruned (s : Repository) (deployId : String) (prunedAtMs : ℕ) :
    Except RepositoryError Repository := do
  let s ← s.planYardCleanup deployId prunedAtMs
  let s := { s with yardDeployFiles := s.yardDeployFiles.erase fun f => f.deployId = deployId }
  ensure (∀ d ∈ s.yardDeploys, (d.id = deployId ∧ d.status ≠ .pruned) →
    d.createdAtMs ≤ prunedAtMs) .conflict
  return { s with
    yardDeploys := s.yardDeploys.update (fun d => d.id = deployId ∧ d.status ≠ .pruned)
      fun d => { d with status := .pruned, prunedAtMs := some prunedAtMs } }

def markAllPruned (s : Repository) (deployIds : List String) (prunedAtMs : ℕ) :
    Except RepositoryError Repository :=
  deployIds.foldlM (fun s deployId => s.markPruned deployId prunedAtMs) s

/-- The deploys beyond the retained history: the current one and the newest others stay, and
so does a deploy that is still in progress. -/
def expiredDeploys (deploys : Table YardDeployRow.id) (yardId : String)
    (currentDeployId : Option String) : List YardDeployRow :=
  let retainedOthers := if currentDeployId.isSome then historyDepth - 1 else historyDepth
  (((listCandidates deploys yardId).filter fun d =>
    decide (some d.id ≠ currentDeployId)).drop retainedOthers).filter fun d =>
      decide (d.status = .live ∨ d.status = .failed ∨ d.status = .superseded)

/-- `yard_history::prune`. -/
def pruneHistory (s : Repository) (yardId : String) (currentDeployId : Option String)
    (prunedAtMs : ℕ) : Except RepositoryError Repository :=
  s.markAllPruned ((expiredDeploys s.yardDeploys yardId currentDeployId).map YardDeployRow.id)
    prunedAtMs

/-- `yard_history::prune_all`. -/
def pruneAll (s : Repository) (yardId : String) (prunedAtMs : ℕ) :
    Except RepositoryError Repository :=
  s.markAllPruned (((listCandidates s.yardDeploys yardId).filter fun d =>
    decide (d.status ≠ .pruned)).map YardDeployRow.id) prunedAtMs

/-! ### Finalising and failing -/

/-- `insert_files`: every file must name a complete version of the project with its size. -/
def insertFiles (s : Repository) (deploy : YardDeployRow) (files : List NewYardFile) :
    Except RepositoryError Repository := do
  let yardDeployFiles ← files.foldlM
    (fun t file => do
      ensure (∃ v ∈ s.objectVersions, v.id = file.versionId ∧ v.projectId = deploy.projectId ∧
        v.state = .complete ∧ v.size = some file.byteSize) .notFound
      insertRow t
        { deployId := deploy.id, normalizedPath := file.normalizedPath,
          versionId := some file.versionId, byteSize := file.byteSize })
    s.yardDeployFiles
  return { s with yardDeployFiles }

/-- Some deploy of the yard that is newer has been finalised. -/
def NewerFinalised (s : Repository) (deploy : YardDeployRow) : Prop :=
  ∃ d ∈ s.yardDeploys, d.yardId = deploy.yardId ∧ d.finalisedAtMs ≠ none ∧
    deployOrder deploy < deployOrder d

instance (s : Repository) (deploy : YardDeployRow) : Decidable (s.NewerFinalised deploy) :=
  inferInstanceAs (Decidable (∃ d ∈ s.yardDeploys, _))

/-- The active yard `yardId` serves the deploy from now on. -/
def setCurrentDeploy (s : Repository) (yardId deployId : String) (updatedAtMs : ℕ) :
    Except RepositoryError Repository := do
  ensure (∀ y ∈ s.webYards, (y.id = yardId ∧ y.status = .active) → y.createdAtMs ≤ updatedAtMs)
    .conflict
  return { s with
    webYards := s.webYards.update (fun y => y.id = yardId ∧ y.status = .active)
      fun y => { y with currentDeployId := some deployId, updatedAtMs } }

/-- `promote_status`: superseded when a newer deploy was finalised before, live otherwise. -/
def promoteStatus (s : Repository) (deploy : YardDeployRow) (updatedAtMs : ℕ) :
    Except RepositoryError (YardDeployStatus × Repository) := do
  if s.NewerFinalised deploy then return (.superseded, s)
  else
    let current := (s.webYards.find? deploy.yardId).bind WebYardRecord.currentDeployId
    let s : Repository := { s with
      yardDeploys := s.yardDeploys.update
        (fun d : YardDeployRow => some d.id = current ∧ d.id ≠ deploy.id ∧ d.status = .live)
        fun d => { d with status := .superseded } }
    changedOnce (s.webYards.count fun y : WebYardRecord => y.id = deploy.yardId ∧ y.status = .active)
    let s ← s.setCurrentDeploy deploy.yardId deploy.id updatedAtMs
    return (.live, s)

/-- The status, time and totals of a deploy that has been finalised. -/
def recordFinalised (s : Repository) (deployId : String) (status : YardDeployStatus)
    (finalisedAtMs fileCount totalBytes : ℕ) : Except RepositoryError Repository := do
  ensure (∀ d ∈ s.yardDeploys, (d.id = deployId ∧ InProgress d) → d.createdAtMs ≤ finalisedAtMs)
    .conflict
  return { s with
    yardDeploys := s.yardDeploys.update (fun d => d.id = deployId ∧ InProgress d)
      fun d => { d with status, finalisedAtMs := some finalisedAtMs, fileCount, totalBytes } }

/-- `finalise_yard_deploy`. -/
def finaliseYardDeploy (s : Repository) (deployId : String) (files : List NewYardFile)
    (finalisedAtMs : ℕ) (event : NewAuditEvent) :
    Except RepositoryError (YardDeploymentRecord × Repository) := do
  validateText deployId
  let deploy ← s.deployById deployId
  let yard ← s.yardById deploy.yardId
  ensure (yard.status = .active) .conflict
  if deploy.status = .live ∨ deploy.status = .superseded then
    let record ← s.deploymentRecord deploy
    return (record, s)
  else
    let (fileCount, totalBytes) ← validateFinalise deploy files finalisedAtMs
    let s ← s.insertFiles deploy files
    let (status, s) ← s.promoteStatus deploy finalisedAtMs
    validateActionEvent event "yard.deployed" "yard_deploy" deploy.workspaceId finalisedAtMs
      [("deployId", .string deploy.id), ("fileCount", .number fileCount),
       ("status", .string status.asStr), ("totalBytes", .number totalBytes)]
    let s ← s.recordFinalised deploy.id status finalisedAtMs fileCount totalBytes
    let s ← s.insertAudit event
    let yard ← s.yardById deploy.yardId
    let s ← s.pruneHistory yard.id yard.currentDeployId finalisedAtMs
    let deploy ← s.deployById deploy.id
    let record ← s.deploymentRecord deploy
    return (record, s)

/-- `fail_yard_deploy`. -/
def failYardDeploy (s : Repository) (deployId code message : String) (failedAtMs : ℕ) :
    Except RepositoryError (YardDeployRow × Repository) := do
  validateText deployId
  let deploy ← s.deployById deployId
  if deploy.status = .failed ∨ deploy.status = .pruned then return (deploy, s)
  else
    validateFailure deploy code message failedAtMs
    let s : Repository := { s with
      yardDeploys := s.yardDeploys.update (fun d : YardDeployRow => d.id = deployId ∧ InProgress d)
        fun d =>
          { d with status := .failed, failureCode := some code, failureMessage := some message } }
    let yard ← s.yardById deploy.yardId
    let s ← s.pruneHistory yard.id yard.currentDeployId failedAtMs
    let deploy ← s.deployById deployId
    return (deploy, s)

/-! ### Rolling back and deleting -/

/-- `rollback_target`: the newest superseded deploy, or the selected one. -/
def rollbackTarget (s : Repository) (yard : WebYardRecord) (selected : Option String) :
    Except RepositoryError YardDeployRow :=
  requireRow <| (listCandidates s.yardDeploys yard.id).find? fun d =>
    decide (d.status = .superseded ∧ d.finalisedAtMs ≠ none ∧
      some d.id ≠ yard.currentDeployId ∧ ∀ id ∈ selected, id = d.id)

/-- `rollback_web_yard`. -/
def rollbackWebYard (s : Repository) (yardId : String) (deployId : Option String)
    (rolledBackAtMs : ℕ) (event : NewAuditEvent) :
    Except RepositoryError (YardDeploymentRecord × Repository) := do
  validateText yardId
  validateTexts deployId.toList
  let yard ← s.yardById yardId
  ensure (yard.status = .active) .notFound
  let target ← s.rollbackTarget yard deployId
  validateActionEvent event "yard.rolled_back" "yard_deploy" yard.workspaceId rolledBackAtMs
    [("deployId", .string target.id), ("yardId", .string yard.id)]
  let s : Repository := { s with
    yardDeploys := s.yardDeploys.update
      (fun d : YardDeployRow => some d.id = yard.currentDeployId ∧ d.status = .live)
      fun d => { d with status := .superseded } }
  let s : Repository := { s with
    yardDeploys := s.yardDeploys.update
      (fun d : YardDeployRow => d.id = target.id ∧ d.status = .superseded)
      fun d => { d with status := .live } }
  let s ← s.setCurrentDeploy yard.id target.id rolledBackAtMs
  let s ← s.insertAudit event
  let yard ← s.yardById yard.id
  let deploy ← s.deployById target.id
  return ({ yard, deploy }, s)

/-- The yard `yardId` is deleted and serves nothing. -/
def markYardDeleted (s : Repository) (yardId : String) (deletedAtMs : ℕ) : Repository :=
  { s with
    webYards := s.webYards.update (fun y => y.id = yardId ∧ y.status ≠ .deleted)
      fun y =>
        { y with
          currentDeployId := none
          status := .deleted
          updatedAtMs := deletedAtMs
          deletedAtMs := some deletedAtMs } }

/-- `delete_web_yard`. -/
def deleteWebYard (s : Repository) (yardId : String) (deletedAtMs : ℕ) (event : NewAuditEvent) :
    Except RepositoryError (Bool × Repository) := do
  validateText yardId
  let yard ← s.yardById yardId
  if yard.status = .deleted then return (false, s)
  else
    validateActionEvent event "yard.deleted" "web_yard" yard.workspaceId deletedAtMs
      [("yardId", .string yard.id)]
    let s ← s.pruneAll yard.id deletedAtMs
    ensure (yard.createdAtMs ≤ deletedAtMs) .conflict
    let s := s.markYardDeleted yard.id deletedAtMs
    let s ← s.insertAudit event
    return (true, s)

/-! ### What starting does -/

theorem mem_listCandidates {deploys : Table YardDeployRow.id} {yardId : String}
    {d : YardDeployRow} : d ∈ listCandidates deploys yardId ↔ d ∈ deploys ∧ d.yardId = yardId := by
  simp [listCandidates]

theorem deployById_eq_ok {s : Repository} {deployId : String} {d : YardDeployRow} :
    s.deployById deployId = .ok d ↔ d ∈ s.yardDeploys ∧ d.id = deployId := by
  simp only [deployById, requireRow_eq_ok, Table.find?_eq_some]

theorem yardById_eq_ok {s : Repository} {yardId : String} {y : WebYardRecord} :
    s.yardById yardId = .ok y ↔ y ∈ s.webYards ∧ y.id = yardId := by
  simp only [yardById, requireRow_eq_ok, Table.find?_eq_some]

/-- Selecting a yard returns an active one, or inserts a new one that serves nothing yet. -/
theorem selectYard_spec {s s' : Repository} {yard : NewWebYard} {event : NewAuditEvent}
    {selected : WebYardRecord} (h : s.selectYard yard event = .ok (selected, s')) :
    selected.status = .active ∧ s'.yardDeploys = s.yardDeploys ∧
      ((selected ∈ s.webYards ∧ s'.webYards = s.webYards) ∨
        (selected.currentDeployId = none ∧ (∀ y ∈ s.webYards, y.hostLabel ≠ selected.hostLabel) ∧
          s.webYards.Inserted s'.webYards selected)) := by
  unfold selectYard at h
  split at h
  · rename_i existing hexisting
    simp only [bind_eq_ok, pure_eq_ok, ensure_eq_ok, Prod.mk.injEq] at h
    obtain ⟨-, ⟨hactive, -⟩, rfl, rfl⟩ := h
    have hmem := List.mem_of_head? hexisting
    simp only [Table.mem_select] at hmem
    exact ⟨hactive, rfl, Or.inl ⟨hmem.1, rfl⟩⟩
  · simp only [insertYard, bind_eq_ok, pure_eq_ok, insertRow_eq_ok, ensure_eq_ok,
      Prod.mk.injEq] at h
    obtain ⟨s₁, ⟨-, -, -, hlabel, yards, hyards, environments, -, rfl⟩, s₂, haudit, created,
      hcreated, rfl, rfl⟩ := h
    obtain ⟨auditEvents, rfl⟩ := insertAudit_spec haudit
    obtain ⟨hmem, hid⟩ := yardById_eq_ok.mp hcreated
    have hinserted := Table.inserted_of_insert hyards
    obtain rfl := Table.eq_of_key hmem hinserted.mem_new hid
    exact ⟨rfl, rfl, Or.inr ⟨rfl, hlabel, hinserted⟩⟩

/-- Starting reuses a deploy, or inserts one that is uploading into an active yard. -/
theorem startYardDeploy_spec {s s' : Repository} {yard : NewWebYard} {deploy : NewYardDeploy}
    {event : NewAuditEvent} {record : YardStartRecord}
    (h : s.startYardDeploy yard deploy event = .ok (record, s')) :
    s' = s ∨ ∃ selected row,
      selected.status = .active ∧ row.yardId = selected.id ∧ row.status = .uploading ∧
      row.finalisedAtMs = none ∧
      (∀ d ∈ s.yardDeploys, d.deploymentHostLabel ≠ row.deploymentHostLabel) ∧
      s.yardDeploys.Inserted s'.yardDeploys row ∧
      ((selected ∈ s.webYards ∧ s'.webYards = s.webYards) ∨
        (selected.currentDeployId = none ∧ (∀ y ∈ s.webYards, y.hostLabel ≠ selected.hostLabel) ∧
          s.webYards.Inserted s'.webYards selected)) := by
  simp only [startYardDeploy, bind_eq_ok] at h
  obtain ⟨-, -, h⟩ := h
  -- the deploy was started before, with the same key
  split at h
  · simp only [bind_eq_ok, pure_eq_ok, Prod.mk.injEq] at h
    obtain ⟨-, -, -, rfl⟩ := h
    exact Or.inl rfl
  · simp only [insertDeploy, bind_eq_ok, pure_eq_ok, insertRow_eq_ok, ensure_eq_ok,
      Prod.mk.injEq] at h
    obtain ⟨⟨selected, s₁⟩, hselect, s₂, ⟨-, hlabel, deploys, hdeploys, rfl⟩, -, -, -, rfl⟩ := h
    obtain ⟨hactive, hsame, hyards⟩ := selectYard_spec hselect
    have hinserted := Table.inserted_of_insert hdeploys
    rw [hsame] at hinserted hlabel
    exact Or.inr ⟨selected, _, hactive, rfl, rfl, rfl, fun d hd => (hlabel d hd).2.2, hinserted,
      hyards⟩

/-! ### What pruning does -/

/-- A pruned row. -/
def prunedRow (deployIds : List String) (prunedAtMs : ℕ) (d : YardDeployRow) : YardDeployRow :=
  if d.id ∈ deployIds ∧ d.status ≠ .pruned then
    { d with status := .pruned, prunedAtMs := some prunedAtMs }
  else d

theorem markPruned_spec {s s' : Repository} {deployId : String} {prunedAtMs : ℕ}
    (h : s.markPruned deployId prunedAtMs = .ok s') :
    s'.webYards = s.webYards ∧
      s.yardDeploys.Mapped s'.yardDeploys (prunedRow [deployId] prunedAtMs) := by
  simp only [markPruned, bind_eq_ok, pure_eq_ok] at h
  obtain ⟨s₁, hplan, -, -, rfl⟩ := h
  have hrow : (fun d : YardDeployRow => if d.id = deployId ∧ d.status ≠ .pruned then
      { d with status := .pruned, prunedAtMs := some prunedAtMs } else d) =
      prunedRow [deployId] prunedAtMs := by
    funext d
    simp [prunedRow]
  rw [← hrow]
  rcases planYardCleanup_spec hplan with rfl | ⟨_, _, _, _, rfl, -, -⟩
  · exact ⟨rfl, Table.mapped_update⟩
  · exact ⟨rfl, Table.mapped_update⟩

/-- Pruning a list of deploys prunes each of them. -/
theorem markAllPruned_spec {s s' : Repository} {deployIds : List String} {prunedAtMs : ℕ}
    (h : s.markAllPruned deployIds prunedAtMs = .ok s') :
    s'.webYards = s.webYards ∧
      s.yardDeploys.Mapped s'.yardDeploys (prunedRow deployIds prunedAtMs) := by
  induction deployIds generalizing s with
  | nil =>
    rw [markAllPruned, List.foldlM_nil, pure_eq_ok] at h
    subst h
    refine ⟨rfl, (Table.Mapped.refl _).congr fun d _ => ?_⟩
    simp [prunedRow]
  | cons deployId deployIds ih =>
    rw [markAllPruned, List.foldlM_cons, bind_eq_ok] at h
    obtain ⟨s₁, hs₁, hs'⟩ := h
    obtain ⟨hyards, hdeploys⟩ := markPruned_spec hs₁
    obtain ⟨hyards', hdeploys'⟩ := ih hs'
    refine ⟨hyards'.trans hyards, (hdeploys.trans hdeploys').congr fun d _ => ?_⟩
    by_cases hid : d.id = deployId <;> by_cases hpruned : d.status = .pruned <;>
      simp [prunedRow, hid, hpruned]

/-- The ids of the expired deploys. -/
def expiredIds (deploys : Table YardDeployRow.id) (yardId : String)
    (currentDeployId : Option String) : List String :=
  (expiredDeploys deploys yardId currentDeployId).map YardDeployRow.id

theorem pruneHistory_spec {s s' : Repository} {yardId : String} {current : Option String}
    {prunedAtMs : ℕ} (h : s.pruneHistory yardId current prunedAtMs = .ok s') :
    s'.webYards = s.webYards ∧ s.yardDeploys.Mapped s'.yardDeploys
      (prunedRow (expiredIds s.yardDeploys yardId current) prunedAtMs) :=
  markAllPruned_spec h

/-- Pruning all deploys of a yard. -/
theorem pruneAll_spec {s s' : Repository} {yardId : String} {prunedAtMs : ℕ}
    (h : s.pruneAll yardId prunedAtMs = .ok s') :
    s'.webYards = s.webYards ∧ s.yardDeploys.Mapped s'.yardDeploys fun d =>
      if d.yardId = yardId ∧ d.status ≠ .pruned then
        { d with status := .pruned, prunedAtMs := some prunedAtMs }
      else d := by
  obtain ⟨hyards, hdeploys⟩ := markAllPruned_spec h
  refine ⟨hyards, hdeploys.congr fun d hd => ?_⟩
  have hmem : (d.id ∈ ((listCandidates s.yardDeploys yardId).filter fun d =>
      decide (d.status ≠ .pruned)).map YardDeployRow.id ∧ d.status ≠ .pruned) ↔
      d.yardId = yardId ∧ d.status ≠ .pruned := by
    constructor
    · rintro ⟨hid, hstatus⟩
      obtain ⟨x, hx, hxid⟩ := List.mem_map.mp hid
      obtain ⟨hx, -⟩ := List.mem_filter.mp hx
      obtain ⟨hx, hyard⟩ := mem_listCandidates.mp hx
      exact ⟨Table.eq_of_key hx hd hxid ▸ hyard, hstatus⟩
    · rintro ⟨hyard, hstatus⟩
      refine ⟨List.mem_map.mpr ⟨d, List.mem_filter.mpr ⟨?_, by simpa using hstatus⟩, rfl⟩, hstatus⟩
      exact mem_listCandidates.mpr ⟨hd, hyard⟩
  rw [prunedRow, if_congr hmem rfl rfl]

/-! ### What finalising and failing do -/

/-- The live deploy `current` is superseded. -/
def supersededRow (current : Option String) (d : YardDeployRow) : YardDeployRow :=
  if some d.id = current ∧ d.status = .live then { d with status := .superseded } else d

/-- The deploy in progress `deployId` is finalised. -/
def finalisedRow (deployId : String) (status : YardDeployStatus)
    (finalisedAtMs fileCount totalBytes : ℕ) (d : YardDeployRow) : YardDeployRow :=
  if d.id = deployId ∧ InProgress d then
    { d with status, finalisedAtMs := some finalisedAtMs, fileCount, totalBytes }
  else d

/-- The deploy in progress `deployId` has failed. -/
def failedRow (deployId code message : String) (d : YardDeployRow) : YardDeployRow :=
  if d.id = deployId ∧ InProgress d then
    { d with status := .failed, failureCode := some code, failureMessage := some message }
  else d

/-- The superseded deploy `deployId` is live again. -/
def restoredRow (deployId : String) (d : YardDeployRow) : YardDeployRow :=
  if d.id = deployId ∧ d.status = .superseded then { d with status := .live } else d

theorem insertFiles_spec {s s' : Repository} {deploy : YardDeployRow} {files : List NewYardFile}
    (h : s.insertFiles deploy files = .ok s') :
    ∃ yardDeployFiles, s' = { s with yardDeployFiles } := by
  simp only [insertFiles, bind_eq_ok, pure_eq_ok] at h
  obtain ⟨yardDeployFiles, -, rfl⟩ := h
  exact ⟨yardDeployFiles, rfl⟩

theorem setCurrentDeploy_spec {s s' : Repository} {yard : WebYardRecord} {deployId : String}
    {updatedAtMs : ℕ} (h : s.setCurrentDeploy yard.id deployId updatedAtMs = .ok s')
    (hyard : yard ∈ s.webYards) (hactive : yard.status = .active) :
    ∃ yards, s' = { s with webYards := yards } ∧ s.webYards.Replaced yards yard
      { yard with currentDeployId := some deployId, updatedAtMs } := by
  simp only [setCurrentDeploy, bind_eq_ok, pure_eq_ok] at h
  obtain ⟨-, -, rfl⟩ := h
  exact ⟨_, rfl, Table.replaced_update hyard
    (Table.guard_iff_eq (q := fun y => y.status = .active) hyard hactive)⟩

/-- A deploy with a newer finalised one is superseded; any other takes over from the current
deploy of its yard. -/
theorem promoteStatus_spec {s s' : Repository} {deploy : YardDeployRow} {updatedAtMs : ℕ}
    {status : YardDeployStatus} {yard : WebYardRecord}
    (h : s.promoteStatus deploy updatedAtMs = .ok (status, s')) (hdeploy : deploy ∈ s.yardDeploys)
    (hprogress : InProgress deploy) (hyard : yard ∈ s.webYards) (hid : yard.id = deploy.yardId)
    (hactive : yard.status = .active) :
    (s.NewerFinalised deploy ∧ status = .superseded ∧ s' = s) ∨
      (¬s.NewerFinalised deploy ∧ status = .live ∧ ∃ deploys yards,
        s' = { s with yardDeploys := deploys, webYards := yards } ∧
        s.yardDeploys.Mapped deploys (supersededRow yard.currentDeployId) ∧
        s.webYards.Replaced yards yard
          { yard with currentDeployId := some deploy.id, updatedAtMs }) := by
  unfold promoteStatus at h
  split at h
  · rename_i hnewer
    simp only [pure_eq_ok, Prod.mk.injEq] at h
    exact Or.inl ⟨hnewer, h.1.symm, h.2.symm⟩
  · rename_i hnewer
    simp only [bind_eq_ok, pure_eq_ok, Prod.mk.injEq] at h
    obtain ⟨-, -, s₁, hs₁, rfl, rfl⟩ := h
    rw [← hid] at hs₁
    obtain ⟨yards, rfl, hyards⟩ := setCurrentDeploy_spec hs₁ hyard hactive
    refine Or.inr ⟨hnewer, rfl, _, yards, rfl, ?_, hyards⟩
    refine Table.Mapped.congr Table.mapped_update fun d hd => ?_
    have hcurrent : (s.webYards.find? deploy.yardId).bind WebYardRecord.currentDeployId =
        yard.currentDeployId := by
      rw [← hid, Table.find?_key hyard]
      rfl
    -- the deploy itself is in progress, so excluding it from the live ones excludes nothing
    have hself : d.id = deploy.id → d.status ≠ .live := by
      intro hd'
      obtain rfl := Table.eq_of_key hd hdeploy hd'
      rcases hprogress with hstatus | hstatus <;> simp [hstatus]
    have hguard : (some d.id = yard.currentDeployId ∧ d.id ≠ deploy.id ∧ d.status = .live) ↔
        some d.id = yard.currentDeployId ∧ d.status = .live :=
      ⟨fun hg => ⟨hg.1, hg.2.2⟩, fun hg => ⟨hg.1, fun hd' => hself hd' hg.2, hg.2⟩⟩
    rw [hid, hcurrent, supersededRow]
    exact if_congr hguard rfl rfl

/-- Finalising does nothing to a deploy that was finalised before.  A deploy in progress is
superseded or takes over from the current deploy, and then the history is pruned. -/
theorem finaliseYardDeploy_spec {s s' : Repository} {deployId : String} {files : List NewYardFile}
    {finalisedAtMs : ℕ} {event : NewAuditEvent} {record : YardDeploymentRecord}
    (h : s.finaliseYardDeploy deployId files finalisedAtMs event = .ok (record, s')) :
    ∃ deploy ∈ s.yardDeploys, ∃ yard ∈ s.webYards,
      deploy.id = deployId ∧ yard.id = deploy.yardId ∧ yard.status = .active ∧
      (((deploy.status = .live ∨ deploy.status = .superseded) ∧ s' = s) ∨
        (InProgress deploy ∧ s.NewerFinalised deploy ∧ s'.webYards = s.webYards ∧
          ∃ finished fileCount totalBytes,
            s.yardDeploys.Mapped finished
              (finalisedRow deployId .superseded finalisedAtMs fileCount totalBytes) ∧
            finished.Mapped s'.yardDeploys
              (prunedRow (expiredIds finished yard.id yard.currentDeployId) finalisedAtMs)) ∨
        (InProgress deploy ∧ ¬s.NewerFinalised deploy ∧
          s.webYards.Replaced s'.webYards yard
            { yard with currentDeployId := some deployId, updatedAtMs := finalisedAtMs } ∧
          ∃ promoted finished fileCount totalBytes,
            s.yardDeploys.Mapped promoted (supersededRow yard.currentDeployId) ∧
            promoted.Mapped finished
              (finalisedRow deployId .live finalisedAtMs fileCount totalBytes) ∧
            finished.Mapped s'.yardDeploys
              (prunedRow (expiredIds finished yard.id (some deployId)) finalisedAtMs))) := by
  simp only [finaliseYardDeploy, bind_eq_ok, deployById_eq_ok, yardById_eq_ok, ensure_eq_ok] at h
  obtain ⟨-, -, deploy, ⟨hdeploy, rfl⟩, yard, ⟨hyard, hid⟩, -, hactive, h⟩ := h
  refine ⟨deploy, hdeploy, yard, hyard, rfl, hid, hactive, ?_⟩
  -- finalised before, or in progress
  split at h
  · rename_i hstatus
    simp only [bind_eq_ok, pure_eq_ok, Prod.mk.injEq] at h
    obtain ⟨-, -, -, rfl⟩ := h
    exact Or.inl ⟨hstatus, rfl⟩
  · simp only [recordFinalised, validateFinalise, bind_eq_ok, pure_eq_ok, ensure_eq_ok,
      yardById_eq_ok, Prod.mk.injEq] at h
    obtain ⟨⟨fileCount, totalBytes⟩, ⟨-, ⟨hprogress, -⟩, -⟩, s₁, hfiles, ⟨status, s₂⟩, hpromote, -, -,
      s₃, ⟨-, -, rfl⟩, s₄, haudit, yard', hyard', s₅, hprune, -, -, -, -, -, rfl⟩ := h
    obtain ⟨yardDeployFiles, rfl⟩ := insertFiles_spec hfiles
    obtain ⟨auditEvents, rfl⟩ := insertAudit_spec haudit
    obtain ⟨hyards, hpruned⟩ := pruneHistory_spec hprune
    obtain ⟨hmem', hid'⟩ := hyard'
    -- the history is pruned after the promotion, so by what the yard points to then
    rcases promoteStatus_spec hpromote hdeploy hprogress hyard hid hactive with
      ⟨hnewer, rfl, rfl⟩ | ⟨hnewer, rfl, promoted, yards, rfl, hpromoted, hreplaced⟩
    · obtain rfl := Table.eq_of_key hmem' hyard (hid'.trans hid.symm)
      exact Or.inr (Or.inl ⟨hprogress, hnewer, hyards, _, fileCount, totalBytes,
        Table.mapped_update, hpruned⟩)
    · obtain rfl := Table.eq_of_key hmem' hreplaced.mem_new (hid'.trans hid.symm)
      exact Or.inr (Or.inr ⟨hprogress, hnewer, hyards ▸ hreplaced, promoted, _, fileCount,
        totalBytes, hpromoted, Table.mapped_update, hpruned⟩)

/-- Failing does nothing to a failed or pruned deploy; it fails a deploy in progress and then
prunes the history. -/
theorem failYardDeploy_spec {s s' : Repository} {deployId code message : String}
    {failedAtMs : ℕ} {record : YardDeployRow}
    (h : s.failYardDeploy deployId code message failedAtMs = .ok (record, s')) :
    s' = s ∨ ∃ deploy ∈ s.yardDeploys, ∃ yard ∈ s.webYards,
      deploy.id = deployId ∧ yard.id = deploy.yardId ∧ InProgress deploy ∧
      s'.webYards = s.webYards ∧ ∃ failed,
        s.yardDeploys.Mapped failed (failedRow deployId code message) ∧
        failed.Mapped s'.yardDeploys
          (prunedRow (expiredIds failed yard.id yard.currentDeployId) failedAtMs) := by
  simp only [failYardDeploy, bind_eq_ok, deployById_eq_ok] at h
  obtain ⟨-, -, deploy, ⟨hdeploy, rfl⟩, h⟩ := h
  split at h
  · simp only [pure_eq_ok, Prod.mk.injEq] at h
    exact Or.inl h.2.symm
  · simp only [validateFailure, bind_eq_ok, pure_eq_ok, ensure_eq_ok, yardById_eq_ok,
      Prod.mk.injEq] at h
    obtain ⟨-, ⟨-, hprogress, -⟩, yard, ⟨hyard, hid⟩, s₁, hprune, -, -, -, rfl⟩ := h
    obtain ⟨hyards, hpruned⟩ := pruneHistory_spec hprune
    exact Or.inr ⟨deploy, hdeploy, yard, hyard, rfl, hid, hprogress, hyards, _,
      Table.mapped_update, hpruned⟩

/-! ### What rolling back and deleting do -/

/-- Rolling back makes a superseded deploy live in place of the current one. -/
theorem rollbackWebYard_spec {s s' : Repository} {yardId : String} {deployId : Option String}
    {rolledBackAtMs : ℕ} {event : NewAuditEvent} {record : YardDeploymentRecord}
    (h : s.rollbackWebYard yardId deployId rolledBackAtMs event = .ok (record, s')) :
    ∃ yard ∈ s.webYards, ∃ target ∈ s.yardDeploys,
      yard.id = yardId ∧ yard.status = .active ∧ target.yardId = yard.id ∧
      target.status = .superseded ∧ target.finalisedAtMs ≠ none ∧
      some target.id ≠ yard.currentDeployId ∧
      s.webYards.Replaced s'.webYards yard
        { yard with currentDeployId := some target.id, updatedAtMs := rolledBackAtMs } ∧
      s.yardDeploys.Mapped s'.yardDeploys fun d =>
        restoredRow target.id (supersededRow yard.currentDeployId d) := by
  simp only [rollbackWebYard, rollbackTarget, bind_eq_ok, pure_eq_ok, ensure_eq_ok,
    requireRow_eq_ok, yardById_eq_ok, Prod.mk.injEq] at h
  obtain ⟨-, -, -, -, yard, ⟨hyard, rfl⟩, -, hactive, target, htarget, -, -, s₁, hs₁, s₂, haudit, -,
    -, -, -, -, rfl⟩ := h
  obtain ⟨hcandidate, hyardId⟩ := mem_listCandidates.mp (List.mem_of_find?_eq_some htarget)
  have hp := List.find?_some htarget
  simp only [decide_eq_true_eq] at hp
  obtain ⟨hstatus, hfinalised, hcurrent, -⟩ := hp
  obtain ⟨yards, rfl, hreplaced⟩ := setCurrentDeploy_spec hs₁ hyard hactive
  obtain ⟨auditEvents, rfl⟩ := insertAudit_spec haudit
  exact ⟨yard, hyard, target, hcandidate, rfl, hactive, hyardId, hstatus, hfinalised, hcurrent,
    hreplaced, Table.Mapped.trans Table.mapped_update Table.mapped_update⟩

theorem markYardDeleted_spec {s : Repository} {yard : WebYardRecord} (hyard : yard ∈ s.webYards)
    (hstatus : yard.status ≠ .deleted) (deletedAtMs : ℕ) :
    ∃ yards, s.markYardDeleted yard.id deletedAtMs = { s with webYards := yards } ∧
      s.webYards.Replaced yards yard
        { yard with
          currentDeployId := none, status := .deleted, updatedAtMs := deletedAtMs
          deletedAtMs := some deletedAtMs } :=
  ⟨_, rfl, Table.replaced_update hyard
    (Table.guard_iff_eq (q := fun y => y.status ≠ .deleted) hyard hstatus)⟩

/-- Deleting a yard prunes all of its deploys. -/
theorem deleteWebYard_spec {s s' : Repository} {yardId : String} {deletedAtMs : ℕ}
    {event : NewAuditEvent} {deleted : Bool}
    (h : s.deleteWebYard yardId deletedAtMs event = .ok (deleted, s')) :
    s' = s ∨ ∃ yard ∈ s.webYards, yard.id = yardId ∧
      s.webYards.Replaced s'.webYards yard
        { yard with
          currentDeployId := none, status := .deleted, updatedAtMs := deletedAtMs
          deletedAtMs := some deletedAtMs } ∧
      s.yardDeploys.Mapped s'.yardDeploys fun d =>
        if d.yardId = yardId ∧ d.status ≠ .pruned then
          { d with status := .pruned, prunedAtMs := some deletedAtMs }
        else d := by
  simp only [deleteWebYard, bind_eq_ok, yardById_eq_ok] at h
  obtain ⟨-, -, yard, ⟨hyard, rfl⟩, h⟩ := h
  -- deleted already
  split at h
  · simp only [pure_eq_ok, Prod.mk.injEq] at h
    exact Or.inl h.2.symm
  · rename_i hstatus
    simp only [bind_eq_ok, pure_eq_ok, Prod.mk.injEq] at h
    obtain ⟨-, -, s₁, hprune, -, -, s₂, haudit, -, rfl⟩ := h
    obtain ⟨hyards, hpruned⟩ := pruneAll_spec hprune
    obtain ⟨auditEvents, rfl⟩ := insertAudit_spec haudit
    obtain ⟨yards, hdeleted, hreplaced⟩ :=
      markYardDeleted_spec (hyards ▸ hyard) hstatus deletedAtMs
    rw [hdeleted]
    exact Or.inr ⟨yard, hyard, rfl, hyards ▸ hreplaced, hpruned⟩

end Repository

end BlobYard
