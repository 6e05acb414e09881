/-
Serving the files of a hosted yard.

A request names a host label and a path.  The label denotes a deploy: the current one of a
yard under its stable label, or a retained one under its own label.  The path is resolved
against the files of that deploy, and a yard that is not public wants an admitted session.

* `Denotes` — which deploy a host label stands for;
* `yardFileByHost` — the query, as the server runs it;
* `yardFileByHost_spec` — what is known once it returns a file.
-/
import BlobYard.Repository.YardAdmission

namespace BlobYard

open Outcome

/-! ### Request paths -/

/-- `value.strip_suffix('/').unwrap_or(value)`. -/
def trimSlash (value : String) : String :=
  if value.toList.getLast? = some '/' then String.ofList value.toList.dropLast else value

/-- `is_valid_yard_request_path`. -/
def ValidYardRequestPath (value : String) : Prop :=
  value = "" ∨ (trimSlash value ≠ "" ∧ ValidYardPath (trimSlash value))

instance (value : String) : Decidable (ValidYardRequestPath value) :=
  inferInstanceAs (Decidable (_ ∨ _))

/-- `extensionless`: the last segment has no dot. -/
def Extensionless (path : String) : Prop := ∀ name ∈ (segments path).getLast?, '.' ∉ name

instance (path : String) : Decidable (Extensionless path) :=
  inferInstanceAs (Decidable (∀ name ∈ _, _))

/-- `resolution_candidates`: the paths tried in turn, and whether each is the not-found
document. -/
def resolutionCandidates (path : String) (deploy : YardDeployRow) : List (String × Bool) :=
  let trimmed := trimSlash path
  (if path = "" then [("index.html", false)]
   else
    (if path = trimmed then [(trimmed, false)] else []) ++
    [(trimmed ++ "/index.html", false)] ++
    (if deploy.cleanUrls = true ∧ Extensionless trimmed then [(trimmed ++ ".html", false)]
     else []) ++
    (if deploy.spa = true ∧ Extensionless trimmed then [("index.html", false)] else [])) ++
  [("404.html", true)]

namespace Repository

/-! ### The deploy behind a host label -/

/-- The deploy is the current live one of an active yard with this stable label. -/
def ServesStable (hostLabel : String) (yard : WebYardRecord) (deploy : YardDeployRow) : Prop :=
  yard.currentDeployId = some deploy.id ∧ yard.hostLabel = hostLabel ∧ yard.status = .active ∧
    deploy.yardId = yard.id ∧ deploy.status = .live

instance (hostLabel : String) (yard : WebYardRecord) (deploy : YardDeployRow) :
    Decidable (ServesStable hostLabel yard deploy) :=
  inferInstanceAs (Decidable (_ ∧ _ ∧ _ ∧ _ ∧ _))

/-- The deploy has this label and is a live or superseded one of an active yard. -/
def ServesImmutable (hostLabel : String) (yard : WebYardRecord) (deploy : YardDeployRow) : Prop :=
  yard.id = deploy.yardId ∧ deploy.deploymentHostLabel = hostLabel ∧ yard.status = .active ∧
    (deploy.status = .live ∨ deploy.status = .superseded)

instance (hostLabel : String) (yard : WebYardRecord) (deploy : YardDeployRow) :
    Decidable (ServesImmutable hostLabel yard deploy) :=
  inferInstanceAs (Decidable (_ ∧ _ ∧ _ ∧ _))

/-- `web_yards y JOIN yard_deploys d` under a join condition; the first row. -/
def joinDeploy (s : Repository) (on : WebYardRecord → YardDeployRow → Prop)
    [∀ y d, Decidable (on y d)] : Option YardDeployRow :=
  (s.webYards.rows.flatMap fun y => s.yardDeploys.select fun d => on y d).head?

/-- `serving_deploy`: the stable label first, then the label of a deploy. -/
def servingDeploy (s : Repository) (hostLabel : String) : Except RepositoryError YardDeployRow :=
  match s.joinDeploy (ServesStable hostLabel) with
  | some deploy => .ok deploy
  | none => requireRow (s.joinDeploy (ServesImmutable hostLabel))

/-! ### Sessions and files -/

/-- `session_id`: the session of the hash, host and yard that is in force and whose subject is
admitted to the yard and environment of the session. -/
def sessionId (s : Repository) (tokenHash hostLabel yardId : String) (nowMs : ℕ) :
    Except RepositoryError (Option String) :=
  match (s.yardSessions.select fun x => x.tokenHash = tokenHash ∧ x.hostLabel = hostLabel ∧
      x.yardId = yardId ∧ x.revokedAtMs = none ∧ nowMs < x.expiresAtMs).head? with
  | none => .ok none
  | some session => do
    let admission ← s.evaluateAdmission hostLabel session.userId nowMs
    return if admission.yardId = yardId ∧ admission.environmentId = session.environmentId
      then some session.id else none

/-- The session a request to the yard needs: none when the yard is public. -/
def requiredSession (s : Repository) (tokenHash : Option String) (hostLabel yardId : String)
    (nowMs : ℕ) : Except RepositoryError (Option String) :=
  if s.effectiveVisibility yardId = .publicAccess then .ok none
  else do
    let hash ← requireRow tokenHash
    validateHash hash
    let found ← s.sessionId hash hostLabel yardId nowMs
    let id ← requireRow found
    return some id

/-- `file_by_path`: the complete version behind a path of the deploy. -/
def fileByPath (s : Repository) (deployId path : String) : Option StoredObjectRecord := do
  let file ← s.yardDeployFiles.find? (deployId, path)
  let versionId ← file.versionId
  let version ← (s.objectVersions.find? versionId).filter fun v => v.state = .complete
  let reservation ← (s.uploadReservations.select fun r => r.versionId = version.id).head?
  return { version, filename := reservation.filename, contentType := reservation.contentType }

/-- The first candidate that is a file of the deploy. -/
def resolveFile (s : Repository) (deploy : YardDeployRow) (path : String) :
    Option YardFileTarget :=
  (resolutionCandidates path deploy).findSome? fun candidate =>
    (s.fileByPath deploy.id candidate.1).map fun object =>
      { object, notFoundDocument := candidate.2 }

/-- The session row after a use. -/
def touchedRow (nowMs : ℕ) (session : YardSessionRecord) : YardSessionRecord :=
  { session with lastUsedAtMs := some (max nowMs (session.lastUsedAtMs.getD 0)) }

/-- `touch_session`. -/
def touchSession (s : Repository) (sessionId : String) (nowMs : ℕ) :
    Except RepositoryError Repository := do
  ensure (∀ x ∈ s.yardSessions, x.id = sessionId → x.createdAtMs ≤ max nowMs (x.lastUsedAtMs.getD 0))
    .conflict
  changedOnce (s.yardSessions.count fun x => x.id = sessionId)
  return { s with
    yardSessions := s.yardSessions.update (fun x => x.id = sessionId) (touchedRow nowMs) }

/-- `authorized_file`. -/
def authorizedFile (s : Repository) (hostLabel path : String) (tokenHash : Option String)
    (nowMs : ℕ) : Except RepositoryError (YardFileTarget × Repository) := do
  let deploy ← s.servingDeploy hostLabel
  let session ← s.requiredSession tokenHash hostLabel deploy.yardId nowMs
  let target ← requireRow (s.resolveFile deploy path)
  match session with
  | none => return (target, s)
  | some id => do
    let s ← s.touchSession id nowMs
    return (target, s)

/-- `yard_file_by_host`. -/
def yardFileByHost (s : Repository) (hostLabel path : String) (tokenHash : Option String)
    (nowMs : ℕ) : Except RepositoryError (YardFileTarget × Repository) := do
  validateText hostLabel
  ensure (ValidYardRequestPath path) .invalidInput
  toI64 nowMs
  s.authorizedFile hostLabel path tokenHash nowMs

/-! ### What a host label denotes -/

/-- The deploy that a host label stands for: the current live deploy of the active yard with that
stable label, or else the live or superseded deploy of an active yard with that label. -/
def Denotes (s : Repository) (hostLabel : String) (yard : WebYardRecord)
    (deploy : YardDeployRow) : Prop :=
  yard ∈ s.webYards ∧ deploy ∈ s.yardDeploys ∧
    (ServesStable hostLabel yard deploy ∨
      ((∀ y ∈ s.webYards, ∀ d ∈ s.yardDeploys, ¬ServesStable hostLabel y d) ∧
        ServesImmutable hostLabel yard deploy))

variable {s s' : Repository} {hostLabel path : String} {tokenHash : Option String} {nowMs : ℕ}
  {yard : WebYardRecord} {deploy : YardDeployRow}

/-- A label stands for a deploy of an active yard only, and for no deploy that failed, was
pruned or is still being uploaded. -/
theorem Denotes.served (h : s.Denotes hostLabel yard deploy) :
    yard.status = .active ∧ deploy.yardId = yard.id ∧
      (deploy.status = .live ∨ deploy.status = .superseded) := by
  obtain ⟨-, -, ⟨-, -, hactive, hyard, hlive⟩ | ⟨-, hyard, -, hactive, hstatus⟩⟩ := h
  · exact ⟨hactive, hyard, Or.inl hlive⟩
  · exact ⟨hactive, hyard.symm, hstatus⟩

/-- No two yards share a stable label, and no two deploys a label (`UNIQUE`). -/
structure UniqueLabels (s : Repository) : Prop where
  stable : s.webYards.UniqueOn WebYardRecord.hostLabel
  immutable : s.yardDeploys.UniqueOn YardDeployRow.deploymentHostLabel

/-- A host label stands for one deploy. -/
theorem Denotes.unique (hlabels : s.UniqueLabels) (h : s.Denotes hostLabel yard deploy)
    {yard' : WebYardRecord} {deploy' : YardDeployRow}
    (h' : s.Denotes hostLabel yard' deploy') : deploy = deploy' := by
  obtain ⟨hyard, hdeploy, hserves⟩ := h
  obtain ⟨hyard', hdeploy', hserves'⟩ := h'
  rcases hserves with hstable | ⟨hnone, himmutable⟩ <;>
    rcases hserves' with hstable' | ⟨hnone', himmutable'⟩
  · obtain ⟨hcurrent, hlabel, -⟩ := hstable
    obtain ⟨hcurrent', hlabel', -⟩ := hstable'
    obtain rfl := hlabels.stable yard hyard yard' hyard' (hlabel.trans hlabel'.symm)
    exact Table.eq_of_key hdeploy hdeploy' (Option.some.inj (hcurrent.symm.trans hcurrent'))
  · exact absurd hstable (hnone' yard hyard deploy hdeploy)
  · exact absurd hstable' (hnone yard' hyard' deploy' hdeploy')
  · exact hlabels.immutable deploy hdeploy deploy' hdeploy'
      (himmutable.2.1.trans himmutable'.2.1.symm)

theorem joinDeploy_eq_some {on : WebYardRecord → YardDeployRow → Prop}
    [∀ y d, Decidable (on y d)] (h : s.joinDeploy on = some deploy) :
    ∃ y ∈ s.webYards, deploy ∈ s.yardDeploys ∧ on y deploy := by
  obtain ⟨y, hy, hrow⟩ := List.mem_flatMap.mp (List.mem_of_head? h)
  obtain ⟨hdeploy, hon⟩ := Table.mem_select.mp hrow
  exact ⟨y, hy, hdeploy, hon⟩

theorem joinDeploy_eq_none {on : WebYardRecord → YardDeployRow → Prop}
    [∀ y d, Decidable (on y d)] (h : s.joinDeploy on = none) :
    ∀ y ∈ s.webYards, ∀ d ∈ s.yardDeploys, ¬on y d := by
  intro y hy d hd hon
  have hempty := List.head?_eq_none_iff.mp h
  have hmem : d ∈ s.webYards.rows.flatMap fun y => s.yardDeploys.select fun d => on y d :=
    List.mem_flatMap.mpr ⟨y, hy, Table.mem_select.mpr ⟨hd, hon⟩⟩
  rw [hempty] at hmem
  cases hmem

theorem servingDeploy_spec (h : s.servingDeploy hostLabel = .ok deploy) :
    ∃ yard, s.Denotes hostLabel yard deploy := by
  unfold servingDeploy at h
  split at h
  · rename_i found hfound
    rw [Except.ok.injEq] at h
    subst h
    obtain ⟨yard, hyard, hdeploy, hserves⟩ := joinDeploy_eq_some hfound
    exact ⟨yard, hyard, hdeploy, Or.inl hserves⟩
  · rename_i hnone
    obtain ⟨yard, hyard, hdeploy, hserves⟩ := joinDeploy_eq_some (requireRow_eq_ok.mp h)
    exact ⟨yard, hyard, hdeploy, Or.inr ⟨joinDeploy_eq_none hnone, hserves⟩⟩

/-! ### What a served file implies -/

/-- The session with this hash is in force for the host, and its subject is admitted at `nowMs`
to the environment of the yard that the session was made for. -/
def AdmittedSession (s : Repository) (yard : WebYardRecord) (hostLabel hash : String)
    (nowMs : ℕ) (session : YardSessionRecord) : Prop :=
  session ∈ s.yardSessions ∧ session.tokenHash = hash ∧ session.hostLabel = hostLabel ∧
    session.yardId = yard.id ∧ session.revokedAtMs = none ∧ nowMs < session.expiresAtMs ∧
    ∃ environment ∈ s.yardEnvironments, environment.id = session.environmentId ∧
      s.Admits yard environment session.userId nowMs

theorem sessionId_spec {hash id : String} (hyard : yard ∈ s.webYards)
    (h : s.sessionId hash hostLabel yard.id nowMs = .ok (some id)) :
    ∃ session, s.AdmittedSession yard hostLabel hash nowMs session ∧ session.id = id := by
  unfold sessionId at h
  split at h
  · cases h
  · rename_i session hfound
    obtain ⟨hsession, hhash, hhost, hsyard, hrevoked, hexpires⟩ :=
      Table.mem_select.mp (List.mem_of_head? hfound)
    simp only [bind_eq_ok, pure_eq_ok] at h
    obtain ⟨admission, hadmission, h⟩ := h
    split at h
    · rename_i hsame
      obtain ⟨yard', environment, ⟨hyard', henvironment, hyid, heid, -⟩, hadmits⟩ :=
        evaluateAdmission_sound hadmission
      obtain rfl := Table.eq_of_key hyard' hyard (hyid.trans hsame.1)
      exact ⟨session, ⟨hsession, hhash, hhost, hsyard, hrevoked, hexpires, environment,
        henvironment, heid.trans hsame.2, hadmits⟩, Option.some.inj h⟩
    · cases h

theorem requiredSession_spec {session : Option String} (hyard : yard ∈ s.webYards)
    (h : s.requiredSession tokenHash hostLabel yard.id nowMs = .ok session) :
    (s.effectiveVisibility yard.id = .publicAccess ∧ session = none) ∨
      ∃ hash row, tokenHash = some hash ∧ s.AdmittedSession yard hostLabel hash nowMs row ∧
        session = some row.id := by
  unfold requiredSession at h
  split at h
  · rename_i hpublic
    rw [Except.ok.injEq] at h
    exact Or.inl ⟨hpublic, h.symm⟩
  · simp only [bind_eq_ok, pure_eq_ok, requireRow_eq_ok] at h
    obtain ⟨hash, hhash, -, -, _, hfound, id, rfl, rfl⟩ := h
    obtain ⟨row, hrow, rfl⟩ := sessionId_spec hyard hfound
    exact Or.inr ⟨hash, row, hhash, hrow, rfl⟩

/-- The target is a complete version that the deploy lists under one of the candidates of the
path. -/
def Resolves (s : Repository) (deploy : YardDeployRow) (path : String)
    (target : YardFileTarget) : Prop :=
  ∃ file ∈ s.yardDeployFiles, file.deployId = deploy.id ∧
    (file.normalizedPath, target.notFoundDocument) ∈ resolutionCandidates path deploy ∧
    file.versionId = some target.object.version.id ∧
    target.object.version ∈ s.objectVersions ∧ target.object.version.state = .complete

theorem resolveFile_spec {target : YardFileTarget} (h : s.resolveFile deploy path = some target) :
    s.Resolves deploy path target := by
  obtain ⟨candidate, hcandidate, h⟩ := List.exists_of_findSome?_eq_some h
  simp only [fileByPath, Option.map_eq_some_iff, Option.bind_eq_bind, Option.bind_eq_some_iff,
    Option.filter_eq_some_iff, Table.find?_eq_some, decide_eq_true_eq, Option.pure_def,
    Option.some.injEq] at h
  obtain ⟨_, ⟨file, ⟨hfile, hkey⟩, versionId, hversionId, version, ⟨⟨hversion, rfl⟩, hstate⟩,
    reservation, -, rfl⟩, rfl⟩ := h
  obtain ⟨hdeploy, hpath⟩ := Prod.mk.inj hkey
  exact ⟨file, hfile, hdeploy, hpath ▸ hcandidate, hversionId, hversion, hstate⟩

theorem touchSession_spec {id : String} (h : s.touchSession id nowMs = .ok s') :
    ∃ yardSessions, s' = { s with yardSessions } := by
  simp only [touchSession, bind_eq_ok, pure_eq_ok] at h
  obtain ⟨-, -, -, -, rfl⟩ := h
  exact ⟨_, rfl⟩

/-- What is known once a file is served. -/
theorem yardFileByHost_spec {target : YardFileTarget}
    (h : s.yardFileByHost hostLabel path tokenHash nowMs = .ok (target, s')) :
    ∃ yard deploy, s.Denotes hostLabel yard deploy ∧ s.Resolves deploy path target ∧
      ((s.effectiveVisibility yard.id = .publicAccess ∧ s' = s) ∨
        ∃ hash session, tokenHash = some hash ∧
          s.AdmittedSession yard hostLabel hash nowMs session ∧
          ∃ yardSessions, s' = { s with yardSessions }) := by
  simp only [yardFileByHost, authorizedFile, bind_eq_ok, requireRow_eq_ok] at h
  obtain ⟨-, -, -, -, -, -, deploy, hserving, session, hsession, target', htarget, h⟩ := h
  obtain ⟨yard, hdenotes⟩ := servingDeploy_spec hserving
  rw [hdenotes.served.2.1] at hsession
  refine ⟨yard, deploy, hdenotes, ?_⟩
  rcases requiredSession_spec hdenotes.1 hsession with
    ⟨hpublic, rfl⟩ | ⟨hash, row, hhash, hrow, rfl⟩
  · simp only [pure_eq_ok, Prod.mk.injEq] at h
    obtain ⟨rfl, rfl⟩ := h
    exact ⟨resolveFile_spec htarget, Or.inl ⟨hpublic, rfl⟩⟩
  · simp only [bind_eq_ok, pure_eq_ok, Prod.mk.injEq] at h
    obtain ⟨s₁, htouch, rfl, rfl⟩ := h
    exact ⟨resolveFile_spec htarget, Or.inr ⟨hash, row, hhash, hrow, touchSession_spec htouch⟩⟩

end Repository

end BlobYard
