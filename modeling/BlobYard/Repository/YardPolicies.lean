/-
Approved application policies.

The owner of a yard approves a graph of roles.  The row of the yard holds the canonical graph and
its closure as texts and counts the approvals; whoever reads it decodes the texts, computes the
closure again and refuses a row that does not agree with it.

* `policyRow` — the decoder of a row, `encodedRow` — the row of a record;
* `setYardApplicationPolicy`, `getYardApplicationPolicy`;
* `policyRow_encodedRow` — a sound record is read back from its row;
* `Approvable`, `Refusal` — what an approval needs, and the reasons to refuse one;
* `setYardApplicationPolicy_spec`, `setYardApplicationPolicy_refused` — what an approval changes,
  and why one fails.
-/
import BlobYard.Laws.PolicyAuthorities
import BlobYard.Repository.PolicyEncoding
import BlobYard.Repository.YardRoles

namespace BlobYard

open Outcome ApplicationPolicy PolicyAuthorities

/-- A row of `yard_application_policies`. -/
structure YardApplicationPolicyRow where
  yardId : String
  workspaceId : String
  revision : ℕ
  sourceManifestDigest : String
  policyJson : String
  effectiveJson : String
  approvedAtMs : ℕ
  approvedByPrincipal : String
  deriving DecidableEq

/-- The repository, with the policies as their table holds them. -/
structure PolicyStore where
  repository : Repository
  policies : Table YardApplicationPolicyRow.yardId

/-- What an owner approves; a graph is a map of roles. -/
structure PolicyApproval where
  yardId : String
  sourceManifestDigest : String
  policy : ApplicationPolicyGraph
  ordered : Ordered policy.roles
  approvedByPrincipal : String
  nowMs : ℕ
  event : NewAuditEvent

/-- A call that can panic with the canonicalization. -/
abbrev PolicyCall (α : Type) := Except (Abort RepositoryError) α

/-- `?` on a repository call. -/
def repositoryCall {α : Type} (x : Except RepositoryError α) : PolicyCall α :=
  x.mapError .error

/-- `map_err` on the canonicalization; a panic passes through. -/
def canonicalCall (e : RepositoryError) {α : Type} (x : Checked α) : PolicyCall α :=
  x.mapError fun
    | .panicked => .panicked
    | .error _ => .error e

/-- `valid_source_manifest_digest`. -/
def ValidSourceManifestDigest (value : String) : Prop :=
  value.utf8ByteSize = 64 ∧ ∀ c ∈ value.toList, isHexDigit c = true

instance (value : String) : Decidable (ValidSourceManifestDigest value) :=
  inferInstanceAs (Decidable (_ ∧ _))

/-- `require_owner`. -/
def Repository.requireOwner (s : Repository) (yardId : String) : Except RepositoryError Unit := do
  let state ← s.validateState yardId
  ensure (0 < state.owners) .conflict

/-! ### Reading -/

section Reading

variable [JsonReader]

/-- `policy_row`. -/
def policyRow (row : YardApplicationPolicyRow) : PolicyCall YardApplicationPolicyRecord := do
  let policy ← ofOption (.error .unavailable) (decodeGraph row.policyJson)
  let effective ← ofOption (.error .unavailable) (decodeEffective row.effectiveJson)
  let canonical ← canonicalCall .unavailable (canonicalizeApplicationPolicy policy)
  ensure (0 < row.revision ∧ ValidSourceManifestDigest row.sourceManifestDigest ∧
    canonical.graph = policy ∧ canonical.effective = effective ∧
    encodeGraph policy = row.policyJson ∧ encodeEffective effective = row.effectiveJson)
    (.error .unavailable)
  return { yardId := row.yardId, workspaceId := row.workspaceId, revision := row.revision,
           sourceManifestDigest := row.sourceManifestDigest, policy, effective,
           approvedAtMs := row.approvedAtMs, approvedByPrincipal := row.approvedByPrincipal }

namespace PolicyStore

/-- `policy_by_yard`. -/
def policyByYard (s : PolicyStore) (yardId : String) :
    PolicyCall (Option YardApplicationPolicyRecord) :=
  match s.policies.find? yardId with
  | none => return none
  | some row => some <$> policyRow row

/-- `get_yard_application_policy`. -/
def getYardApplicationPolicy (s : PolicyStore) (yardId : String) :
    PolicyCall (Option YardApplicationPolicyRecord) := do
  repositoryCall (validateText yardId)
  let yard ← repositoryCall (s.repository.yardById yardId)
  ensure (yard.status = .active) (.error .notFound)
  let policy ← s.policyByYard yardId
  ensure (∀ record ∈ policy, record.workspaceId = yard.workspaceId) (.error .unavailable)
  return policy

end PolicyStore

end Reading

/-! ### Approving -/

/-- The numbers of roles and of permissions that the event of an approval names. -/
def policyCounts (graph : ApplicationPolicyGraph) : ℕ × ℕ :=
  (graph.roles.length, (graph.roles.flatMap fun role => role.2.permissions).dedup.length)

/-- `validate_policy_event`. -/
def validatePolicyEvent (event : NewAuditEvent) (workspaceId : String) (request : PolicyApproval)
    (fromRevision : Option ℕ) (toRevision : ℕ) (canonical : CanonicalApplicationPolicy) :
    Except RepositoryError Unit :=
  validateActionEvent event "yard.application_policy_set" "yard_application_policy" workspaceId
    request.nowMs
    [("fromRevision", fromRevision.elim .null .number),
     ("permissionCount", .number (policyCounts canonical.graph).2),
     ("roleCount", .number (policyCounts canonical.graph).1),
     ("sourceManifestDigest", .string request.sourceManifestDigest),
     ("toRevision", .number toRevision), ("yardId", .string request.yardId)]

/-- The row that holds a record. -/
def encodedRow [JsonWriter] (record : YardApplicationPolicyRecord) : YardApplicationPolicyRow where
  yardId := record.yardId
  workspaceId := record.workspaceId
  revision := record.revision
  sourceManifestDigest := record.sourceManifestDigest
  policyJson := encodeGraph record.policy
  effectiveJson := encodeEffective record.effective
  approvedAtMs := record.approvedAtMs
  approvedByPrincipal := record.approvedByPrincipal

namespace PolicyStore

/-- The upsert of `set`: a row of the yard keeps its workspace. -/
def upsertPolicy (s : PolicyStore) (row : YardApplicationPolicyRow) :
    Except RepositoryError PolicyStore :=
  match s.policies.find? row.yardId with
  | none => do
    let policies ← insertRow s.policies row
    return { s with policies }
  | some _ =>
    return { s with
      policies := s.policies.update (fun stored => stored.yardId = row.yardId) fun stored =>
        { row with yardId := stored.yardId, workspaceId := stored.workspaceId } }

variable [JsonReader]

/-- `set_yard_application_policy`. -/
def setYardApplicationPolicy (s : PolicyStore) (request : PolicyApproval) :
    PolicyCall (YardApplicationPolicyRecord × PolicyStore) := do
  repositoryCall (toI64 request.nowMs)
  let yard ← repositoryCall (s.repository.activeYard request.yardId)
  repositoryCall (s.repository.requireOwner request.yardId)
  repositoryCall (validateText request.approvedByPrincipal)
  ensure (ValidSourceManifestDigest request.sourceManifestDigest) (.error .invalidInput)
  let canonical ← canonicalCall .invalidInput (canonicalizeApplicationPolicy request.policy)
  let previous ← s.policyByYard request.yardId
  let fromRevision := previous.map YardApplicationPolicyRecord.revision
  -- a stored revision is an `i64`, so that the next one is a `u64`
  let revision := fromRevision.elim 1 (· + 1)
  repositoryCall
    (validatePolicyEvent request.event yard.workspaceId request fromRevision revision canonical)
  ensure (revision ≤ i64Max) (.error .conflict)
  let s ← repositoryCall (s.upsertPolicy
    { yardId := request.yardId, workspaceId := yard.workspaceId, revision,
      sourceManifestDigest := request.sourceManifestDigest,
      policyJson := encodeGraph canonical.graph,
      effectiveJson := encodeEffective canonical.effective, approvedAtMs := request.nowMs,
      approvedByPrincipal := request.approvedByPrincipal })
  let repository ← repositoryCall (s.repository.insertAudit request.event)
  let s : PolicyStore := { s with repository }
  let found ← s.policyByYard request.yardId
  let record ← ofOption (.error .unavailable) found
  return (record, s)

end PolicyStore

/-! ### What the operations do -/

@[simp] theorem repositoryCall_eq_ok {α : Type} {x : Except RepositoryError α} {a : α} :
    repositoryCall x = .ok a ↔ x = .ok a :=
  mapError_eq_ok

@[simp] theorem canonicalCall_eq_ok {α : Type} {e : RepositoryError} {x : Checked α} {a : α} :
    canonicalCall e x = .ok a ↔ x = .ok a :=
  mapError_eq_ok

@[simp] theorem repositoryCall_eq_error {α : Type} {x : Except RepositoryError α}
    {e : Abort RepositoryError} :
    repositoryCall x = .error e ↔ ∃ e', x = .error e' ∧ .error e' = e := by
  cases x <;> simp [repositoryCall, Except.mapError]

theorem canonicalCall_eq_error {α : Type} {e : RepositoryError} {x : Checked α}
    {e' : Abort RepositoryError} : canonicalCall e x = .error e' ↔
      x = .error .panicked ∧ .panicked = e' ∨ x = .error (.error .invalid) ∧ .error e = e' := by
  rcases x with (_ | ⟨⟨⟩⟩) | _ <;> simp [canonicalCall, Except.mapError]

/-- A record as an approval leaves it. -/
structure SoundPolicy (record : YardApplicationPolicyRecord) : Prop where
  stored : Stored record
  ordered : Ordered record.policy.roles
  revision_pos : 0 < record.revision
  digest : ValidSourceManifestDigest record.sourceManifestDigest

/-- Every row holds a sound record of a yard that is there. -/
def PolicyStore.Sound [JsonWriter] (s : PolicyStore) : Prop :=
  ∀ row ∈ s.policies, ∃ record, SoundPolicy record ∧ row = encodedRow record ∧
    ∃ yard ∈ s.repository.webYards, yard.id = record.yardId ∧
      yard.workspaceId = record.workspaceId

/-- The record that an approval leaves behind. -/
def approvedRecord (fromRevision : Option ℕ) (workspaceId : String) (request : PolicyApproval)
    (canonical : CanonicalApplicationPolicy) : YardApplicationPolicyRecord where
  yardId := request.yardId
  workspaceId := workspaceId
  revision := fromRevision.elim 1 (· + 1)
  sourceManifestDigest := request.sourceManifestDigest
  policy := canonical.graph
  effective := canonical.effective
  approvedAtMs := request.nowMs
  approvedByPrincipal := request.approvedByPrincipal

/-- What an approval needs: an active yard with an owner, a name, a digest and a policy that pass
their checks, and an event that says what is approved and can be recorded. -/
structure Approvable (r : Repository) (fromRevision : Option ℕ) (request : PolicyApproval)
    (yard : WebYardRecord) (canonical : CanonicalApplicationPolicy) : Prop where
  time : request.nowMs ≤ i64Max
  active : r.activeYard request.yardId = .ok yard
  owned : r.requireOwner request.yardId = .ok ()
  approver : ValidText request.approvedByPrincipal
  digest : ValidSourceManifestDigest request.sourceManifestDigest
  policy : canonicalizeApplicationPolicy request.policy = .ok canonical
  announced : validatePolicyEvent request.event yard.workspaceId request fromRevision
    (fromRevision.elim 1 (· + 1)) canonical = .ok ()
  revision : fromRevision.elim 1 (· + 1) ≤ i64Max
  recorded : ∃ r', r.insertAudit request.event = .ok r'

/-- The reasons to refuse an approval, each with its error. -/
inductive Refusal (r : Repository) (fromRevision : Option ℕ) (request : PolicyApproval) :
    Abort RepositoryError → Prop
  | time (h : i64Max < request.nowMs) : Refusal r fromRevision request (.error .invalidInput)
  | noYard (h : ∀ yard ∈ r.webYards, yard.id = request.yardId → yard.status ≠ .active) :
    Refusal r fromRevision request (.error .notFound)
  | unowned {e : RepositoryError} (h : r.requireOwner request.yardId = .error e) :
    Refusal r fromRevision request (.error e)
  | approver (h : ¬ValidText request.approvedByPrincipal) :
    Refusal r fromRevision request (.error .invalidInput)
  | digest (h : ¬ValidSourceManifestDigest request.sourceManifestDigest) :
    Refusal r fromRevision request (.error .invalidInput)
  | policy (h : canonicalizeApplicationPolicy request.policy = .error (.error .invalid)) :
    Refusal r fromRevision request (.error .invalidInput)
  | panicked (h : canonicalizeApplicationPolicy request.policy = .error .panicked) :
    Refusal r fromRevision request .panicked
  | unannounced {yard : WebYardRecord} {canonical : CanonicalApplicationPolicy}
      {e : RepositoryError} (hyard : r.activeYard request.yardId = .ok yard)
      (hcanonical : canonicalizeApplicationPolicy request.policy = .ok canonical)
      (h : validatePolicyEvent request.event yard.workspaceId request fromRevision
        (fromRevision.elim 1 (· + 1)) canonical = .error e) :
    Refusal r fromRevision request (.error e)
  | revision (h : i64Max < fromRevision.elim 1 (· + 1)) :
    Refusal r fromRevision request (.error .conflict)
  | unrecorded {e : RepositoryError} (h : r.insertAudit request.event = .error e) :
    Refusal r fromRevision request (.error e)

/-- A reason to refuse is one that an approval lacks. -/
theorem Refusal.not_approvable {r : Repository} {fromRevision : Option ℕ}
    {request : PolicyApproval} {e : Abort RepositoryError}
    (h : Refusal r fromRevision request e) {yard : WebYardRecord}
    {canonical : CanonicalApplicationPolicy} :
    ¬Approvable r fromRevision request yard canonical := by
  intro happrovable
  cases h with
  | time h => exact absurd happrovable.time (Nat.not_le.mpr h)
  | noYard h =>
    obtain ⟨hyard, hid, hactive⟩ := Repository.activeYard_eq_ok.mp happrovable.active
    exact h yard hyard hid hactive
  | unowned h => cases h.symm.trans happrovable.owned
  | approver h => exact h happrovable.approver
  | digest h => exact h happrovable.digest
  | policy h => cases h.symm.trans happrovable.policy
  | panicked h => cases h.symm.trans happrovable.policy
  | unannounced hyard hcanonical h =>
    obtain rfl := Except.ok.inj (hyard.symm.trans happrovable.active)
    obtain rfl := Except.ok.inj (hcanonical.symm.trans happrovable.policy)
    cases h.symm.trans happrovable.announced
  | revision h => exact absurd happrovable.revision (Nat.not_le.mpr h)
  | unrecorded h =>
    obtain ⟨r', hrecorded⟩ := happrovable.recorded
    cases h.symm.trans hrecorded

variable {s s' : PolicyStore} {record : YardApplicationPolicyRecord}
  {request : PolicyApproval}

/-- The upsert succeeds: the row is there after it, and no other row has changed. -/
theorem PolicyStore.upsertPolicy_spec (s : PolicyStore) (row : YardApplicationPolicyRow)
    (hworkspace : ∀ stored ∈ s.policies.find? row.yardId, stored.workspaceId = row.workspaceId) :
    ∃ policies, s.upsertPolicy row = .ok { s with policies } ∧
      policies.find? row.yardId = some row ∧
      ∀ yardId, yardId ≠ row.yardId → policies.find? yardId = s.policies.find? yardId := by
  unfold upsertPolicy
  cases hfind : s.policies.find? row.yardId with
  | none =>
    obtain ⟨policies, hinsert⟩ := Table.insert?_isSome (Table.find?_eq_none.mp hfind)
    simp only [bind_eq_ok, pure_eq_ok, insertRow_eq_ok]
    refine ⟨policies, ⟨policies, hinsert, rfl⟩, ?_, fun yardId hne => ?_⟩
    · rw [Table.find?_insert hinsert, if_pos rfl]
    · rw [Table.find?_insert hinsert, if_neg hne]
  | some stored =>
    obtain ⟨-, hkey⟩ := Table.find?_eq_some.mp hfind
    refine ⟨_, rfl, ?_, fun yardId hne => ?_⟩
    · rw [Table.find?_update, hfind, Option.map_some, if_pos hkey, hworkspace stored hfind, hkey]
    · rw [Table.find?_update]
      cases hother : s.policies.find? yardId with
      | none => rfl
      | some other =>
        obtain ⟨-, hotherKey⟩ := Table.find?_eq_some.mp hother
        rw [Option.map_some, if_neg fun heq => hne (hotherKey.symm.trans heq)]

variable [JsonReader]

/-- A sound record is read back from its row. -/
theorem policyRow_encodedRow (h : SoundPolicy record) :
    policyRow (encodedRow record) = .ok record := by
  have hclosure := h.stored.closure
  have hgraph : decodeGraph (encodeGraph record.policy) = some record.policy :=
    decodeGraph_encodeGraph h.ordered
  have heffective : decodeEffective (encodeEffective record.effective) = some record.effective :=
    decodeEffective_encodeEffective (h.ordered.map hclosure.roleNames)
      (h.ordered.map hclosure.permissionNames)
  have hcanonical : canonicalizeApplicationPolicy record.policy =
      .ok ⟨record.policy, record.effective⟩ := h.stored
  simp only [policyRow, bind_eq_ok, pure_eq_ok, ofOption_eq_ok, canonicalCall_eq_ok, ensure_eq_ok]
  exact ⟨record.policy, hgraph, record.effective, heffective, _, hcanonical, (),
    ⟨h.revision_pos, h.digest, rfl, rfl, rfl, rfl⟩, rfl⟩

namespace PolicyStore

/-- Reading a sound store does not fail. -/
theorem Sound.policyByYard (hs : s.Sound) (yardId : String) :
    ∃ found, s.policyByYard yardId = .ok found ∧
      found.map encodedRow = s.policies.find? yardId ∧
      ∀ record ∈ found, SoundPolicy record ∧ ∃ yard ∈ s.repository.webYards,
        yard.id = yardId ∧ yard.workspaceId = record.workspaceId := by
  unfold PolicyStore.policyByYard
  cases hfind : s.policies.find? yardId with
  | none =>
    exact ⟨none, rfl, rfl, fun record hrecord => absurd hrecord (Option.not_mem_none record)⟩
  | some row =>
    obtain ⟨hrow, hkey⟩ := Table.find?_eq_some.mp hfind
    obtain ⟨record, hsound, rfl, yard, hyard, hid, hworkspace⟩ := hs row hrow
    refine ⟨some record, ?_, rfl, ?_⟩
    · show some <$> policyRow (encodedRow record) = .ok (some record)
      rw [policyRow_encodedRow hsound]
      rfl
    · rintro _ ⟨⟩
      exact ⟨hsound, yard, hyard, hid.trans hkey, hworkspace⟩

/-- What a yard reads depends on its row alone. -/
theorem policyByYard_congr {yardId : String}
    (h : s'.policies.find? yardId = s.policies.find? yardId) :
    s'.policyByYard yardId = s.policyByYard yardId := by
  rw [PolicyStore.policyByYard, PolicyStore.policyByYard, h]

/-- The next record of a yard is written, and read back from its row. -/
theorem Sound.write (hs : s.Sound) {previous : Option YardApplicationPolicyRecord}
    {yard : WebYardRecord} {canonical : CanonicalApplicationPolicy}
    (hprevious : s.policyByYard request.yardId = .ok previous)
    (hactive : s.repository.activeYard request.yardId = .ok yard)
    (hdigest : ValidSourceManifestDigest request.sourceManifestDigest)
    (hcanonical : canonicalizeApplicationPolicy request.policy = .ok canonical) :
    ∃ policies, s.upsertPolicy (encodedRow (approvedRecord
        (previous.map YardApplicationPolicyRecord.revision) yard.workspaceId request canonical)) =
          .ok { s with policies } ∧
      ∀ repository : Repository, repository.webYards = s.repository.webYards →
        PolicyStore.Sound { repository, policies } ∧
        PolicyStore.policyByYard { repository, policies } request.yardId =
          .ok (some (approvedRecord (previous.map YardApplicationPolicyRecord.revision)
            yard.workspaceId request canonical)) ∧
        ∀ yardId, yardId ≠ request.yardId →
          PolicyStore.policyByYard { repository, policies } yardId = s.policyByYard yardId := by
  set next := approvedRecord (previous.map YardApplicationPolicyRecord.revision) yard.workspaceId
    request canonical with hnext
  obtain ⟨hyard, hyardId, -⟩ := Repository.activeYard_eq_ok.mp hactive
  have hgraph : canonical.graph = canonicalizeDirectArrays request.policy :=
    (canonicalize_eq_ok.mp hcanonical).2.1
  have hsound : SoundPolicy next := by
    refine ⟨(policyClosure_spec hcanonical).2, ?_, ?_, hdigest⟩
    · show Ordered canonical.graph.roles
      rw [hgraph]
      exact request.ordered.map (by simp [canonicalizeDirectArrays_roles])
    · show 0 < Option.elim _ 1 (· + 1)
      cases previous <;> simp
  -- the yard of the record before is the same one
  obtain ⟨before, hbefore, hstores, hknown⟩ := hs.policyByYard request.yardId
  obtain rfl : before = previous := Except.ok.inj (hbefore.symm.trans hprevious)
  have hworkspace : ∀ record ∈ before, record.workspaceId = yard.workspaceId := by
    intro record hrecord
    obtain ⟨-, other, hother, hotherId, hsame⟩ := hknown record hrecord
    obtain rfl := Table.eq_of_key hother hyard (hotherId.trans hyardId.symm)
    exact hsame.symm
  have hrow : ∀ stored ∈ s.policies.find? next.yardId, stored.workspaceId = next.workspaceId := by
    intro stored hstored
    rw [show s.policies.find? next.yardId = before.map encodedRow from hstores.symm] at hstored
    obtain ⟨record, hrecord, rfl⟩ := Option.mem_map.mp hstored
    exact hworkspace record hrecord
  obtain ⟨policies, hupsert, hnew, hkept⟩ := s.upsertPolicy_spec (encodedRow next) hrow
  refine ⟨policies, hupsert, fun repository hyards => ⟨fun row hrow => ?_, ?_, fun yardId hne =>
    policyByYard_congr (hkept yardId hne)⟩⟩
  · have hfind := Table.find?_key hrow
    rw [hyards]
    by_cases hyardRow : row.yardId = request.yardId
    · rw [hyardRow, show policies.find? request.yardId = some (encodedRow next) from hnew,
        Option.some.injEq] at hfind
      exact ⟨next, hsound, hfind.symm, yard, hyard, hyardId, rfl⟩
    · rw [hkept row.yardId hyardRow] at hfind
      exact hs row (Table.find?_eq_some.mp hfind).1
  · unfold PolicyStore.policyByYard
    rw [show policies.find? request.yardId = some (encodedRow next) from hnew]
    show some <$> policyRow (encodedRow next) = .ok (some next)
    rw [policyRow_encodedRow hsound]
    rfl

/-- An accepted approval had what it needs, and leaves behind the next record of the yard and
nothing else but its event. -/
theorem setYardApplicationPolicy_spec (hs : s.Sound)
    (h : s.setYardApplicationPolicy request = .ok (record, s')) :
    ∃ previous yard canonical, s.policyByYard request.yardId = .ok previous ∧
      Approvable s.repository (previous.map YardApplicationPolicyRecord.revision) request yard
        canonical ∧
      record = approvedRecord (previous.map YardApplicationPolicyRecord.revision)
        yard.workspaceId request canonical ∧
      s.repository.insertAudit request.event = .ok s'.repository ∧ s'.Sound ∧
      s'.policyByYard request.yardId = .ok (some record) ∧
      (∀ yardId, yardId ≠ request.yardId → s'.policyByYard yardId = s.policyByYard yardId) := by
  simp only [setYardApplicationPolicy, bind_eq_ok, pure_eq_ok, ensure_eq_ok, ofOption_eq_ok,
    repositoryCall_eq_ok, canonicalCall_eq_ok, toI64_eq_ok, validateText_eq_ok,
    Prod.mk.injEq] at h
  obtain ⟨-, htime, yard, hyard, ⟨⟩, howned, -, happrover, -, hdigest, canonical, hcanonical,
    previous, hprevious, ⟨⟩, hannounced, -, hrevision, s₁, hupsert, repository, haudit, found,
    hfound, answer, hrecord, rfl, rfl⟩ := h
  obtain ⟨policies, hwrite, hwritten⟩ := hs.write hprevious hyard hdigest hcanonical
  obtain rfl := Except.ok.inj (hwrite.symm.trans hupsert)
  obtain ⟨audits, hrepository⟩ := Repository.insertAudit_spec haudit
  obtain ⟨hsound, hread, hkept⟩ := hwritten repository (by rw [hrepository])
  -- what is read back is the record that was written
  obtain rfl := Except.ok.inj (hread.symm.trans hfound)
  obtain rfl := Option.some.inj hrecord
  exact ⟨previous, yard, canonical, hprevious, ⟨htime, hyard, howned, happrover, hdigest,
    hcanonical, hannounced, hrevision, repository, haudit⟩, rfl, haudit, hsound, hread, hkept⟩

/-- A refused approval lacked something. -/
theorem setYardApplicationPolicy_refused (hs : s.Sound)
    {previous : Option YardApplicationPolicyRecord}
    (hprevious : s.policyByYard request.yardId = .ok previous) {e : Abort RepositoryError}
    (h : s.setYardApplicationPolicy request = .error e) :
    Refusal s.repository (previous.map YardApplicationPolicyRecord.revision) request e := by
  simp only [setYardApplicationPolicy, bind_eq_error, repositoryCall_eq_error,
    repositoryCall_eq_ok, canonicalCall_eq_error, canonicalCall_eq_ok, ensure_eq_error,
    ensure_eq_ok, ofOption_eq_error, ofOption_eq_ok, hprevious, reduceCtorEq, false_or,
    Except.ok.injEq, exists_eq_left'] at h
  -- one check after the other: it fails, or the next one is made
  rcases h with ⟨e, htime, rfl⟩ | ⟨-, -, h⟩
  · obtain ⟨hlate, rfl⟩ := ensure_eq_error.mp htime
    exact .time (Nat.not_le.mp hlate)
  rcases h with ⟨e, hyard, rfl⟩ | ⟨yard, hyard, h⟩
  · obtain ⟨hnone, rfl⟩ := Repository.activeYard_eq_error.mp hyard
    exact .noYard hnone
  rcases h with ⟨e, howned, rfl⟩ | ⟨-, -, h⟩
  · exact .unowned howned
  rcases h with ⟨e, happrover, rfl⟩ | ⟨-, -, h⟩
  · obtain ⟨hinvalid, rfl⟩ := ensure_eq_error.mp happrover
    exact .approver hinvalid
  rcases h with ⟨hdigest, rfl⟩ | ⟨-, hdigest, h⟩
  · exact .digest hdigest
  rcases h with (⟨hpanicked, rfl⟩ | ⟨hpolicy, rfl⟩) | ⟨canonical, hcanonical, h⟩
  · exact .panicked hpanicked
  · exact .policy hpolicy
  rcases h with ⟨e, hevent, rfl⟩ | ⟨-, -, h⟩
  · exact .unannounced hyard hcanonical hevent
  rcases h with ⟨hrevision, rfl⟩ | ⟨-, -, h⟩
  · exact .revision (Nat.not_le.mp hrevision)
  -- writing the row does not fail, and the record is read back
  obtain ⟨policies, hwrite, hwritten⟩ := hs.write hprevious hyard hdigest hcanonical
  rcases h with ⟨e, hupsert, rfl⟩ | ⟨s₁, hupsert, h⟩
  · cases hwrite.symm.trans hupsert
  obtain rfl := Except.ok.inj (hwrite.symm.trans hupsert)
  rcases h with ⟨e, haudit, rfl⟩ | ⟨repository, haudit, h⟩
  · exact .unrecorded haudit
  obtain ⟨audits, hrepository⟩ := Repository.insertAudit_spec haudit
  obtain ⟨-, hread, -⟩ := hwritten repository (by rw [hrepository])
  rcases h with h | ⟨found, hfound, h⟩
  · cases hread.symm.trans h
  obtain rfl := Except.ok.inj (hread.symm.trans hfound)
  rcases h with ⟨hnone, -⟩ | ⟨record, -, h⟩
  · cases hnone
  · cases h

end PolicyStore

end BlobYard
