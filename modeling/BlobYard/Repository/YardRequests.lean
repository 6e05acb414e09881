/-
The operations on yards and deploys as one kind of request, and what they leave alone.

Hosting has its own tables.  A request on a yard or a deploy changes those, the cleanup plans
and the audit trail, and nothing in the directory of users, groups, grants and sessions; a yard
keeps its identity whatever happens to it.

* `YardRequest` — starting, finalising, failing, rolling back and deleting;
* `YardRequest.hosting` — only the hosting tables change;
* `YardRequest.yardsKept` — every yard keeps its workspace and project;
* `pressProject`, `startPress` — a project and the request that starts a yard in it.
-/
import BlobYard.Repository.Requests
import BlobYard.Repository.YardDeploys

namespace BlobYard

open Outcome

/-- The requests on yards and deploys. -/
inductive YardRequest where
  | start (yard : NewWebYard) (deploy : NewYardDeploy) (event : NewAuditEvent)
  | finalise (deployId : String) (files : List NewYardFile) (finalisedAtMs : ℕ)
    (event : NewAuditEvent)
  | fail (deployId code message : String) (failedAtMs : ℕ)
  | rollback (yardId : String) (deployId : Option String) (rolledBackAtMs : ℕ)
    (event : NewAuditEvent)
  | delete (yardId : String) (deletedAtMs : ℕ) (event : NewAuditEvent)

def YardRequest.run (s : Repository) : YardRequest → Except RepositoryError Repository
  | .start yard deploy event => Prod.snd <$> s.startYardDeploy yard deploy event
  | .finalise deployId files finalisedAtMs event =>
    Prod.snd <$> s.finaliseYardDeploy deployId files finalisedAtMs event
  | .fail deployId code message failedAtMs =>
    Prod.snd <$> s.failYardDeploy deployId code message failedAtMs
  | .rollback yardId deployId rolledBackAtMs event =>
    Prod.snd <$> s.rollbackWebYard yardId deployId rolledBackAtMs event
  | .delete yardId deletedAtMs event => Prod.snd <$> s.deleteWebYard yardId deletedAtMs event

namespace Repository

variable {s s' s'' : Repository}

/-! ### Only the hosting tables -/

/-- The new rows among the environments have identifiers that are texts. -/
def EnvironmentsFrom (t t' : Table YardEnvironmentRecord.id) : Prop :=
  ∀ e ∈ t', e ∈ t ∨ ValidText e.id

/-- The repositories differ in the tables of yards, deploys, cleanup plans and audit at most. -/
def HostingOnly (s s' : Repository) : Prop :=
  ∃ webYards yardEnvironments yardDeploys yardDeployFiles deletionOperations deletionItems
    auditEvents, s' = { s with
      webYards, yardEnvironments, yardDeploys, yardDeployFiles, deletionOperations, deletionItems
      auditEvents } ∧ EnvironmentsFrom s.yardEnvironments yardEnvironments

theorem EnvironmentsFrom.refl (t : Table YardEnvironmentRecord.id) : EnvironmentsFrom t t :=
  fun _ he => Or.inl he

/-- A change of the hosting tables other than the environments. -/
theorem HostingOnly.of_eq (webYards : Table WebYardRecord.id) (yardDeploys : Table YardDeployRow.id)
    (yardDeployFiles : Table fun file : YardDeployFileRow => (file.deployId, file.normalizedPath))
    (deletionOperations : Table DeletionOperationRow.id)
    (deletionItems : Table fun row : DeletionItemRow => (row.operationId, row.item.versionId))
    (auditEvents : Table AuditEventRecord.sequence) :
    HostingOnly s { s with
      webYards, yardDeploys, yardDeployFiles, deletionOperations, deletionItems, auditEvents } :=
  ⟨_, _, _, _, _, _, _, rfl, EnvironmentsFrom.refl _⟩

theorem HostingOnly.refl (s : Repository) : HostingOnly s s := .of_eq _ _ _ _ _ _

theorem HostingOnly.trans (h : HostingOnly s s') (h' : HostingOnly s' s'') : HostingOnly s s'' := by
  obtain ⟨_, _, _, _, _, _, _, rfl, hfrom⟩ := h
  obtain ⟨_, _, _, _, _, _, _, rfl, hfrom'⟩ := h'
  refine ⟨_, _, _, _, _, _, _, rfl, fun e he => ?_⟩
  rcases hfrom' e he with he | hid
  · exact hfrom e he
  · exact Or.inr hid

theorem hosting_deploys (yardDeploys : Table YardDeployRow.id) :
    HostingOnly s { s with yardDeploys } := .of_eq _ _ _ _ _ _

theorem hosting_yards {webYards : Table WebYardRecord.id}
    {yardEnvironments : Table YardEnvironmentRecord.id} {environment : YardEnvironmentRecord}
    (h : s.yardEnvironments.Inserted yardEnvironments environment)
    (hid : ValidText environment.id) : HostingOnly s { s with webYards, yardEnvironments } := by
  refine ⟨_, _, _, _, _, _, _, rfl, fun e he => ?_⟩
  rcases (h.mem e).mp he with he | rfl
  · exact Or.inl he
  · exact Or.inr hid

theorem hosting_files (yardDeployFiles : Table fun file : YardDeployFileRow =>
    (file.deployId, file.normalizedPath)) : HostingOnly s { s with yardDeployFiles } :=
  .of_eq _ _ _ _ _ _

theorem insertAudit_hosting {event : NewAuditEvent} (h : s.insertAudit event = .ok s') :
    HostingOnly s s' := by
  obtain ⟨_, rfl⟩ := insertAudit_spec h
  exact .of_eq _ _ _ _ _ _

theorem markPruned_hosting {deployId : String} {prunedAtMs : ℕ}
    (h : s.markPruned deployId prunedAtMs = .ok s') : HostingOnly s s' := by
  simp only [markPruned, bind_eq_ok, pure_eq_ok] at h
  obtain ⟨s₁, hplan, -, -, rfl⟩ := h
  rcases planYardCleanup_spec hplan with rfl | ⟨_, _, _, _, rfl, -, -⟩
  · exact .of_eq _ _ _ _ _ _
  · exact .of_eq _ _ _ _ _ _

theorem markAllPruned_hosting {deployIds : List String} {prunedAtMs : ℕ}
    (h : s.markAllPruned deployIds prunedAtMs = .ok s') : HostingOnly s s' := by
  induction deployIds generalizing s with
  | nil =>
    rw [markAllPruned, List.foldlM_nil, pure_eq_ok] at h
    exact h ▸ HostingOnly.refl s
  | cons deployId deployIds ih =>
    rw [markAllPruned, List.foldlM_cons, bind_eq_ok] at h
    obtain ⟨s₁, hs₁, hs'⟩ := h
    exact (markPruned_hosting hs₁).trans (ih hs')

theorem setCurrentDeploy_hosting {yardId deployId : String} {updatedAtMs : ℕ}
    (h : s.setCurrentDeploy yardId deployId updatedAtMs = .ok s') : HostingOnly s s' := by
  simp only [setCurrentDeploy, bind_eq_ok, pure_eq_ok] at h
  obtain ⟨-, -, rfl⟩ := h
  exact .of_eq _ _ _ _ _ _

theorem promoteStatus_hosting {deploy : YardDeployRow} {updatedAtMs : ℕ}
    {promoted : YardDeployStatus × Repository}
    (h : s.promoteStatus deploy updatedAtMs = .ok promoted) : HostingOnly s promoted.2 := by
  unfold promoteStatus at h
  split at h
  · rw [pure_eq_ok] at h
    exact h ▸ HostingOnly.refl s
  · simp only [bind_eq_ok, pure_eq_ok] at h
    obtain ⟨-, -, s₁, hs₁, rfl⟩ := h
    exact (hosting_deploys _).trans (setCurrentDeploy_hosting hs₁)

/-- The manifest root of a deploy bounds the identifier of the yard, and so that of its
environment. -/
theorem validText_environment {yardId clientDeployId : String}
    (h : ValidText (manifestRootOf yardId clientDeployId)) : ValidText ("yardenv_" ++ yardId) := by
  obtain ⟨-, hsize, hcontrol⟩ := h
  unfold manifestRootOf at hsize hcontrol
  simp only [String.utf8ByteSize_append, String.toList_append, List.mem_append] at hsize hcontrol
  have hroot : (".blobyard-yard/" : String).utf8ByteSize = 15 := by decide
  have henvironment : ("yardenv_" : String).utf8ByteSize = 8 := by decide
  have hprefix : ∀ c ∈ ("yardenv_" : String).toList, isControl c = false := by decide
  have hbytes : ("yardenv_" ++ yardId).utf8ByteSize = 8 + yardId.utf8ByteSize := by
    rw [String.utf8ByteSize_append, henvironment]
  refine ⟨?_, ?_, ?_⟩
  · intro hempty
    rw [hempty, String.utf8ByteSize_empty] at hbytes
    omega
  · rw [hroot] at hsize
    rw [hbytes]
    omega
  · intro c hc
    rw [String.toList_append, List.mem_append] at hc
    rcases hc with hc | hc
    · exact hprefix c hc
    · exact hcontrol c (Or.inl (Or.inl (Or.inl (Or.inr hc))))

theorem selectYard_hosting {yard : NewWebYard} {event : NewAuditEvent}
    {selected : WebYardRecord × Repository} (hid : ValidText ("yardenv_" ++ yard.id))
    (h : s.selectYard yard event = .ok selected) : HostingOnly s selected.2 := by
  unfold selectYard at h
  split at h
  · simp only [bind_eq_ok, pure_eq_ok] at h
    obtain ⟨-, -, rfl⟩ := h
    exact HostingOnly.refl s
  · simp only [insertYard, bind_eq_ok, pure_eq_ok, insertRow_eq_ok] at h
    obtain ⟨s₁, ⟨-, -, -, -, _, -, _, hinsert, rfl⟩, s₂, haudit, -, -, rfl⟩ := h
    exact (hosting_yards (Table.inserted_of_insert hinsert) hid).trans (insertAudit_hosting haudit)

end Repository

open Repository

variable {s s' : Repository} {request : YardRequest}

/-- A request on yards or deploys changes the hosting tables alone. -/
theorem YardRequest.hosting (h : request.run s = .ok s') : HostingOnly s s' := by
  cases request with
  | start yard deploy event =>
    simp only [YardRequest.run, map_eq_ok, startYardDeploy, validateYardStart, bind_eq_ok,
      ensure_eq_ok] at h
    obtain ⟨result, ⟨_, ⟨_, htexts, _, ⟨-, -, -, -, -, -, hroot⟩, -⟩, h⟩, rfl⟩ := h
    have hid : ValidText ("yardenv_" ++ yard.id) := by
      rw [validateTexts_eq_ok] at htexts
      exact validText_environment (hroot ▸ htexts deploy.manifestRoot (by simp))
    split at h
    · simp only [bind_eq_ok, pure_eq_ok] at h
      obtain ⟨-, -, rfl⟩ := h
      exact HostingOnly.refl s
    · simp only [insertDeploy, bind_eq_ok, pure_eq_ok] at h
      obtain ⟨selected, hselect, s₂, ⟨-, -, _, -, rfl⟩, -, -, rfl⟩ := h
      exact (selectYard_hosting hid hselect).trans (hosting_deploys _)
  | finalise deployId files finalisedAtMs event =>
    simp only [YardRequest.run, map_eq_ok, finaliseYardDeploy, bind_eq_ok] at h
    obtain ⟨result, ⟨-, -, deploy, -, yard, -, -, -, h⟩, rfl⟩ := h
    split at h
    · simp only [bind_eq_ok, pure_eq_ok] at h
      obtain ⟨-, -, rfl⟩ := h
      exact HostingOnly.refl s
    · simp only [recordFinalised, bind_eq_ok, pure_eq_ok] at h
      obtain ⟨totals, -, s₁, hfiles, promoted, hpromote, -, -, s₂, ⟨-, -, rfl⟩, s₃, haudit, yard, -, s₄,
        hprune, -, -, -, -, rfl⟩ := h
      obtain ⟨_, rfl⟩ := insertFiles_spec hfiles
      have hpromoted : HostingOnly s promoted.2 :=
        (hosting_files _).trans (promoteStatus_hosting hpromote)
      exact ((hpromoted.trans (hosting_deploys _)).trans (insertAudit_hosting haudit)).trans
        (markAllPruned_hosting hprune)
  | fail deployId code message failedAtMs =>
    simp only [YardRequest.run, map_eq_ok, failYardDeploy, bind_eq_ok] at h
    obtain ⟨result, ⟨-, -, deploy, -, h⟩, rfl⟩ := h
    split at h
    · rw [pure_eq_ok] at h
      exact h ▸ HostingOnly.refl s
    · simp only [bind_eq_ok, pure_eq_ok] at h
      obtain ⟨-, -, yard, -, s₁, hprune, -, -, rfl⟩ := h
      exact (hosting_deploys _).trans (markAllPruned_hosting hprune)
  | rollback yardId deployId rolledBackAtMs event =>
    simp only [YardRequest.run, map_eq_ok, rollbackWebYard, bind_eq_ok, pure_eq_ok] at h
    obtain ⟨result, ⟨-, -, -, -, yard, -, -, -, target, -, -, -, s₁, hs₁, s₂, haudit, -, -, -, -, rfl⟩,
      rfl⟩ := h
    exact ((hosting_deploys _).trans (setCurrentDeploy_hosting hs₁)).trans
      (insertAudit_hosting haudit)
  | delete yardId deletedAtMs event =>
    simp only [YardRequest.run, map_eq_ok, deleteWebYard, bind_eq_ok] at h
    obtain ⟨result, ⟨-, -, yard, -, h⟩, rfl⟩ := h
    split at h
    · rw [pure_eq_ok] at h
      exact h ▸ HostingOnly.refl s
    · simp only [bind_eq_ok, pure_eq_ok] at h
      obtain ⟨-, -, s₁, hprune, -, -, s₂, haudit, rfl⟩ := h
      have hdeleted : HostingOnly s₁ (s₁.markYardDeleted yard.id deletedAtMs) :=
        .of_eq _ _ _ _ _ _
      exact ((markAllPruned_hosting hprune).trans hdeleted).trans (insertAudit_hosting haudit)

/-! ### The identity of a yard -/

/-- The row of a yard may change, its identity does not. -/
def SameYard (y y' : WebYardRecord) : Prop :=
  y'.id = y.id ∧ y'.workspaceId = y.workspaceId ∧ y'.projectId = y.projectId

/-- Every yard is still there under the same identity. -/
def YardsKept (t t' : Table WebYardRecord.id) : Prop := ∀ y ∈ t, ∃ y' ∈ t', SameYard y y'

variable {t t' : Table WebYardRecord.id}

theorem YardsKept.of_eq (h : t' = t) : YardsKept t t' :=
  fun y hy => ⟨y, h ▸ hy, rfl, rfl, rfl⟩

theorem YardsKept.of_inserted {y : WebYardRecord} (h : t.Inserted t' y) : YardsKept t t' :=
  fun x hx => ⟨x, h.mem_of_mem hx, rfl, rfl, rfl⟩

theorem YardsKept.of_replaced {y y' : WebYardRecord} (h : t.Replaced t' y y')
    (hsame : SameYard y y') : YardsKept t t' := by
  intro x hx
  by_cases hxy : x = y
  · subst hxy
    exact ⟨y', h.mem_new, hsame⟩
  · exact ⟨x, (h.mem x).mpr (Or.inl ⟨hx, hxy⟩), rfl, rfl, rfl⟩

/-- A request on yards or deploys keeps every yard. -/
theorem YardRequest.yardsKept (h : request.run s = .ok s') :
    YardsKept s.webYards s'.webYards := by
  cases request with
  | start yard deploy event =>
    simp only [YardRequest.run, map_eq_ok] at h
    obtain ⟨⟨_, _⟩, h, rfl⟩ := h
    rcases startYardDeploy_spec h with rfl | ⟨selected, row, -, -, -, -, -, -, hyards⟩
    · exact YardsKept.of_eq rfl
    · rcases hyards with ⟨-, heq⟩ | ⟨-, -, hinserted⟩
      · exact YardsKept.of_eq heq
      · exact YardsKept.of_inserted hinserted
  | finalise deployId files finalisedAtMs event =>
    simp only [YardRequest.run, map_eq_ok] at h
    obtain ⟨⟨_, _⟩, h, rfl⟩ := h
    obtain ⟨_, -, yard, -, -, -, -, hcases⟩ := finaliseYardDeploy_spec h
    rcases hcases with ⟨-, rfl⟩ | ⟨-, -, heq, -⟩ | ⟨-, -, hreplaced, -⟩
    · exact YardsKept.of_eq rfl
    · exact YardsKept.of_eq heq
    · exact YardsKept.of_replaced hreplaced ⟨rfl, rfl, rfl⟩
  | fail deployId code message failedAtMs =>
    simp only [YardRequest.run, map_eq_ok] at h
    obtain ⟨⟨_, _⟩, h, rfl⟩ := h
    rcases failYardDeploy_spec h with rfl | ⟨_, -, _, -, -, -, -, heq, -⟩
    · exact YardsKept.of_eq rfl
    · exact YardsKept.of_eq heq
  | rollback yardId deployId rolledBackAtMs event =>
    simp only [YardRequest.run, map_eq_ok] at h
    obtain ⟨⟨_, _⟩, h, rfl⟩ := h
    obtain ⟨_, -, _, -, -, -, -, -, -, -, hreplaced, -⟩ := rollbackWebYard_spec h
    exact YardsKept.of_replaced hreplaced ⟨rfl, rfl, rfl⟩
  | delete yardId deletedAtMs event =>
    simp only [YardRequest.run, map_eq_ok] at h
    obtain ⟨⟨_, _⟩, h, rfl⟩ := h
    rcases deleteWebYard_spec h with rfl | ⟨_, -, -, hreplaced, -⟩
    · exact YardsKept.of_eq rfl
    · exact YardsKept.of_replaced hreplaced ⟨rfl, rfl, rfl⟩

/-- A yard is inserted under an identifier that is a text. -/
theorem selectYard_texts {yard : NewWebYard} {event : NewAuditEvent}
    {selected : WebYardRecord × Repository} (hid : ValidText yard.id)
    (hyards : ∀ y ∈ s.webYards, ValidText y.id) (h : s.selectYard yard event = .ok selected) :
    ∀ y ∈ selected.2.webYards, ValidText y.id := by
  unfold selectYard at h
  split at h
  · simp only [bind_eq_ok, pure_eq_ok] at h
    obtain ⟨-, -, rfl⟩ := h
    exact hyards
  · simp only [insertYard, bind_eq_ok, pure_eq_ok, insertRow_eq_ok] at h
    obtain ⟨s₁, ⟨-, -, -, -, yards, hinsert, _, -, rfl⟩, s₂, haudit, -, -, rfl⟩ := h
    obtain ⟨_, rfl⟩ := insertAudit_spec haudit
    intro y hy
    rcases ((Table.inserted_of_insert hinsert).mem y).mp hy with hy | rfl
    · exact hyards y hy
    · exact hid

/-- Replacing a yard keeps the identifiers. -/
theorem texts_of_replaced {y y' : WebYardRecord} (h : t.Replaced t' y y')
    (hyards : ∀ x ∈ t, ValidText x.id) : ∀ x ∈ t', ValidText x.id := by
  intro x hx
  rcases (h.mem x).mp hx with ⟨hx, -⟩ | rfl
  · exact hyards x hx
  · rw [h.key_eq]
    exact hyards y h.mem_old

/-- The identifiers of yards stay texts. -/
theorem YardRequest.yardTexts (h : request.run s = .ok s')
    (hyards : ∀ y ∈ s.webYards, ValidText y.id) : ∀ y ∈ s'.webYards, ValidText y.id := by
  cases request with
  | start yard deploy event =>
    simp only [YardRequest.run, map_eq_ok, startYardDeploy, validateYardStart, bind_eq_ok] at h
    obtain ⟨result, ⟨_, ⟨_, htexts, -⟩, h⟩, rfl⟩ := h
    have hid : ValidText yard.id := by
      rw [validateTexts_eq_ok] at htexts
      exact htexts yard.id (by simp)
    split at h
    · simp only [bind_eq_ok, pure_eq_ok] at h
      obtain ⟨-, -, rfl⟩ := h
      exact hyards
    · simp only [insertDeploy, bind_eq_ok, pure_eq_ok] at h
      obtain ⟨selected, hselect, s₂, ⟨-, -, _, -, rfl⟩, -, -, rfl⟩ := h
      exact selectYard_texts hid hyards hselect
  | finalise deployId files finalisedAtMs event =>
    simp only [YardRequest.run, map_eq_ok] at h
    obtain ⟨⟨_, _⟩, h, rfl⟩ := h
    obtain ⟨_, -, yard, -, -, -, -, hcases⟩ := finaliseYardDeploy_spec h
    rcases hcases with ⟨-, rfl⟩ | ⟨-, -, heq, -⟩ | ⟨-, -, hreplaced, -⟩
    · exact hyards
    · exact heq ▸ hyards
    · exact texts_of_replaced hreplaced hyards
  | fail deployId code message failedAtMs =>
    simp only [YardRequest.run, map_eq_ok] at h
    obtain ⟨⟨_, _⟩, h, rfl⟩ := h
    rcases failYardDeploy_spec h with rfl | ⟨_, -, _, -, -, -, -, heq, -⟩
    · exact hyards
    · exact heq ▸ hyards
  | rollback yardId deployId rolledBackAtMs event =>
    simp only [YardRequest.run, map_eq_ok] at h
    obtain ⟨⟨_, _⟩, h, rfl⟩ := h
    obtain ⟨_, -, _, -, -, -, -, -, -, -, hreplaced, -⟩ := rollbackWebYard_spec h
    exact texts_of_replaced hreplaced hyards
  | delete yardId deletedAtMs event =>
    simp only [YardRequest.run, map_eq_ok] at h
    obtain ⟨⟨_, _⟩, h, rfl⟩ := h
    rcases deleteWebYard_spec h with rfl | ⟨_, -, -, hreplaced, -⟩
    · exact hyards
    · exact texts_of_replaced hreplaced hyards

/-! ### A small yard -/

/-- The project `p` of the workspace `w`, without anything in it. -/
def pressProject : Repository :=
  [UploadRequest.createWorkspace { id := "w", name := "Works", slug := ⟨"works", by decide⟩ },
   .createProject { id := "p", workspaceId := "w", name := "Press", slug := ⟨"press", by decide⟩ }].foldl
    (fun s request => match request.run s with | .ok (_, s') => s' | .error _ => s)
    Repository.empty

/-- An event of the workspace `w`. -/
def workspaceEvent (id action targetType : String) (createdAtMs : ℕ)
    (metadata : List (String × AuditValue)) : NewAuditEvent where
  id := id
  workspaceId := "w"
  actor := "owner"
  action := action
  requestId := "r"
  targetType := targetType
  metadata := metadata
  createdAtMs := createdAtMs

/-- Starts the yard `y` in the project, at time 10. -/
def startPress : YardRequest :=
  .start
    { id := "y", workspaceId := "w", projectId := "p", name := ⟨"front", by decide⟩,
      hostLabel := "front-press", createdAtMs := 10 }
    { id := "d", yardId := "y", workspaceId := "w", projectId := "p",
      clientDeployId := "aaaaaaaaaaaaaaaa", manifestRoot := manifestRootOf "y" "aaaaaaaaaaaaaaaa",
      deploymentHostLabel := "a-press", spa := false, cleanUrls := false, createdAtMs := 10 }
    (workspaceEvent "started" "yard.created" "web_yard" 10 [("yardId", .string "y")])

example : (startPress.run pressProject).isOk = true := by decide +kernel

end BlobYard
