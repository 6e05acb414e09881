/-
Who is served the files of a hosted yard.

Deploys come and go, policies and grants change, sessions expire: this file shows that in
every state that can be reached a host label stands for one deploy, and that a file of a
yard that is not public is served to nobody but the subject of a session in force whom the
policy and the grants of that state admit.

* `uniqueLabels_exec` — requests keep the labels of yards and deploys apart;
* `served_to_admitted` — the law.
-/
import BlobYard.Laws.YardDeploys
import BlobYard.Repository.YardFiles

namespace BlobYard

open Outcome Repository

namespace YardServing

open YardDeploys

variable {s s' : Repository}

/-! ### Labels stay apart -/

section Labels

variable {d : YardDeployRow}

theorem prunedRow_label (ids : List String) (prunedAtMs : ℕ) :
    (prunedRow ids prunedAtMs d).deploymentHostLabel = d.deploymentHostLabel := by
  unfold prunedRow
  split <;> rfl

theorem finalisedRow_label (id : String) (status : YardDeployStatus)
    (finalisedAtMs fileCount totalBytes : ℕ) :
    (finalisedRow id status finalisedAtMs fileCount totalBytes d).deploymentHostLabel =
      d.deploymentHostLabel := by
  unfold finalisedRow
  split <;> rfl

theorem supersededRow_label (current : Option String) :
    (supersededRow current d).deploymentHostLabel = d.deploymentHostLabel := by
  unfold supersededRow
  split <;> rfl

theorem restoredRow_label (id : String) :
    (restoredRow id d).deploymentHostLabel = d.deploymentHostLabel := by
  unfold restoredRow
  split <;> rfl

theorem failedRow_label (id code message : String) :
    (failedRow id code message d).deploymentHostLabel = d.deploymentHostLabel := by
  unfold failedRow
  split <;> rfl

end Labels

theorem uniqueLabels_init : UniqueLabels Repository.empty where
  stable _ h := absurd h Table.not_mem_empty
  immutable _ h := absurd h Table.not_mem_empty

/-- Requests keep the labels of yards and deploys apart: a new row with a taken label is
refused, and no row changes its label. -/
theorem uniqueLabels_exec {request : Request} (h : s.UniqueLabels) :
    (exec s request).UniqueLabels := by
  unfold exec
  cases hrun : request.run s with
  | error e => exact h
  | ok s' =>
    cases request with
    | start yard deploy event =>
      simp only [Request.run, map_eq_ok] at hrun
      obtain ⟨⟨_, _⟩, hrun, rfl⟩ := hrun
      rcases startYardDeploy_spec hrun with
        rfl | ⟨_, _, -, -, -, -, hlabel, hdeploys, hyards⟩
      · exact h
      · refine ⟨?_, h.immutable.insert hdeploys hlabel⟩
        rcases hyards with ⟨-, hsame⟩ | ⟨-, hfresh, hinserted⟩
        · exact hsame ▸ h.stable
        · exact h.stable.insert hinserted hfresh
    | finalise deployId files finalisedAtMs event =>
      simp only [Request.run, map_eq_ok] at hrun
      obtain ⟨⟨_, _⟩, hrun, rfl⟩ := hrun
      obtain ⟨_, -, _, -, -, -, -, ⟨-, rfl⟩ | ⟨-, -, hyards, _, _, _, hfinished, hpruned⟩ |
        ⟨-, -, hyards, _, _, _, _, hpromoted, hfinished, hpruned⟩⟩ := finaliseYardDeploy_spec hrun
      · exact h
      · refine ⟨hyards ▸ h.stable, ?_⟩
        exact (h.immutable.mapped hfinished fun _ _ => finalisedRow_label ..).mapped hpruned
          fun _ _ => prunedRow_label ..
      · refine ⟨h.stable.replace hyards rfl, ?_⟩
        exact ((h.immutable.mapped hpromoted fun _ _ => supersededRow_label ..).mapped hfinished
          fun _ _ => finalisedRow_label ..).mapped hpruned fun _ _ => prunedRow_label ..
    | fail deployId code message failedAtMs =>
      simp only [Request.run, map_eq_ok] at hrun
      obtain ⟨⟨_, _⟩, hrun, rfl⟩ := hrun
      rcases failYardDeploy_spec hrun with
        rfl | ⟨_, -, _, -, -, -, -, hyards, _, hfailed, hpruned⟩
      · exact h
      · refine ⟨hyards ▸ h.stable, ?_⟩
        exact (h.immutable.mapped hfailed fun _ _ => failedRow_label ..).mapped hpruned
          fun _ _ => prunedRow_label ..
    | rollback yardId deployId rolledBackAtMs event =>
      simp only [Request.run, map_eq_ok] at hrun
      obtain ⟨⟨_, _⟩, hrun, rfl⟩ := hrun
      obtain ⟨_, -, _, -, -, -, -, -, -, -, hyards, hmapped⟩ := rollbackWebYard_spec hrun
      refine ⟨h.stable.replace hyards rfl, h.immutable.mapped hmapped fun _ _ => ?_⟩
      rw [restoredRow_label, supersededRow_label]
    | delete yardId deletedAtMs event =>
      simp only [Request.run, map_eq_ok] at hrun
      obtain ⟨⟨_, _⟩, hrun, rfl⟩ := hrun
      rcases deleteWebYard_spec hrun with rfl | ⟨_, -, -, hyards, hmapped⟩
      · exact h
      · refine ⟨h.stable.replace hyards rfl, h.immutable.mapped hmapped fun d _ => ?_⟩
        split <;> rfl
    | environment other =>
      simp only [Request.run, Except.ok.injEq] at hrun
      subst hrun
      exact ⟨h.stable, h.immutable⟩

theorem uniqueLabels (h : Run system (fun _ _ => True) s) : s.UniqueLabels := by
  refine Run.inv (P := UniqueLabels) uniqueLabels_init ?_ h
  rintro s request _ hs - rfl
  exact uniqueLabels_exec hs

/-! ### The law -/

/-- **Serving**: in every state reached by requests on deploys in any order, with any change of
policies, grants, users, subjects and sessions in between, a file that is served belongs to the
one deploy that the host label stands for, which is a live or superseded deploy of an active
yard; and unless the yard is public, a session in force for exactly this host and environment was
presented whose subject the policy and the grants admit at that time. -/
theorem served_to_admitted (h : Run system (fun _ _ => True) s) {hostLabel path : String}
    {tokenHash : Option String} {nowMs : ℕ} {target : YardFileTarget}
    (hserved : s.yardFileByHost hostLabel path tokenHash nowMs = .ok (target, s')) :
    ∃ yard deploy, s.Denotes hostLabel yard deploy ∧
      (∀ yard' deploy', s.Denotes hostLabel yard' deploy' → deploy' = deploy) ∧
      yard.status = .active ∧ deploy.yardId = yard.id ∧
      (deploy.status = .live ∨ deploy.status = .superseded) ∧
      s.Resolves deploy path target ∧
      (s.effectiveVisibility yard.id ≠ .publicAccess →
        ∃ hash session, tokenHash = some hash ∧
          s.AdmittedSession yard hostLabel hash nowMs session) := by
  obtain ⟨yard, deploy, hdenotes, hresolves, haccess⟩ := yardFileByHost_spec hserved
  obtain ⟨hactive, hyard, hstatus⟩ := hdenotes.served
  refine ⟨yard, deploy, hdenotes, fun yard' deploy' h' => h'.unique (uniqueLabels h) hdenotes,
    hactive, hyard, hstatus, hresolves, fun hrestricted => ?_⟩
  rcases haccess with ⟨hpublic, -⟩ | ⟨hash, session, hhash, hsession, -⟩
  · exact absurd hpublic hrestricted
  · exact ⟨hash, session, hhash, hsession⟩

/-! ### A restricted yard -/

/-- A session of the colleague `m` for the yard. -/
def colleagueSession : YardSessionRecord where
  id := "s"
  tokenHash := repeatedDigit 'e'
  yardId := "y"
  environmentId := "yardenv_y"
  hostLabel := "main-yard"
  userId := "m"
  createdAtMs := 40
  expiresAtMs := 900
  lastUsedAtMs := none
  revokedAtMs := none

/-- A policy for the workspace only, a colleague, and the colleague's session. -/
def restrict (s : Repository) : Repository :=
  let policy : YardAccessPolicyRecord :=
    { yardId := "y", visibility := .workspace, updatedAtMs := 40, updatedByPrincipal := "owner" }
  let colleague : LocalUserRecord :=
    { id := "m", workspaceId := "w", displayName := "M", email := none, status := .active,
      createdAtMs := 1, deactivatedAtMs := none }
  let subject : YardSubjectRecord :=
    { id := "m", kind := .member, workspaceId := "w", localUserId := some "m",
      invitationId := none, createdAtMs := 1, revokedAtMs := none }
  { s with
    yardAccessPolicies := ⟨[policy], List.nodup_singleton _⟩
    localUsers := ⟨[colleague], List.nodup_singleton _⟩
    yardSubjects := ⟨[subject], List.nodup_singleton _⟩
    yardSessions := ⟨[colleagueSession], List.nodup_singleton _⟩ }

/-- A public yard with one deploy. -/
def publicYard : Repository :=
  ([.environment uploadedObject, startRequest 'a' 11,
    finaliseRequest 'a' "e2" "live" 30] : List Request).foldl exec Repository.empty

/-- The yard, restricted to the workspace afterwards. -/
def restrictedYard : Repository := exec publicYard (.environment (restrict publicYard))

theorem run_restrictedYard : Run system (fun _ _ => True) restrictedYard := by
  have hpublic : Run system (fun _ _ => True) publicYard :=
    Run.ofList_true (fun _ _ => rfl) Run.init _
  exact hpublic.step trivial (show restrictedYard = _ from rfl)

/-- The request for the front page with the colleague's session. -/
def frontPage : Except RepositoryError (YardFileTarget × Repository) :=
  restrictedYard.yardFileByHost "main-yard" "" (some (repeatedDigit 'e')) 50

/-- The front page of the restricted yard is served to the colleague, whom the policy admits. -/
theorem colleague_is_admitted :
    ∃ target s', frontPage = .ok (target, s') ∧ ∃ yard hash session,
      restrictedYard.effectiveVisibility yard.id = .workspace ∧
        restrictedYard.AdmittedSession yard "main-yard" hash 50 session := by
  have hrestricted : ∀ y ∈ restrictedYard.webYards,
      restrictedYard.effectiveVisibility y.id = .workspace := by decide +kernel
  have hserved : frontPage.isOk = true := by decide +kernel
  cases hpage : frontPage with
  | error e =>
    rw [hpage] at hserved
    cases hserved
  | ok served =>
    obtain ⟨yard, deploy, hdenotes, -, -, -, -, -, hsession⟩ :=
      served_to_admitted run_restrictedYard hpage
    have hworkspace := hrestricted yard hdenotes.1
    obtain ⟨hash, session, -, hadmitted⟩ := hsession (by rw [hworkspace]; nofun)
    exact ⟨served.1, served.2, rfl, yard, hash, session, hworkspace, hadmitted⟩

end YardServing

end BlobYard
