/-
The approved policies as a map.

The rows of the approved policies hold texts that are decoded and checked at every reading.  Seen
from outside they are a map from yards to records: an approval that has all it needs replaces the
record of its yard by the canonical graph, its closure and the next revision, one that lacks
something is refused for that and replaces nothing, and a reading answers what the map holds for an
active yard.

* `PolicyLabel` — what is asked of the store and answered, or another request;
* `policySystem`, `policyMap` — the store, and the map beside the same other tables;
* `policy_simulation` — every reading and approval of the store is one of the map;
* `policies_law` — the labels of a run, the records of the map, and their revisions.
-/
import BlobYard.Lib.Refinement
import BlobYard.Repository.YardPolicies
import BlobYard.Repository.YardRequests

namespace BlobYard

namespace YardPolicies

open Outcome ApplicationPolicy PolicyAuthorities

/-- What the store is asked and answers, or another request that leaves the repository behind. -/
inductive PolicyLabel where
  | approved (request : PolicyApproval) (answer : PolicyCall YardApplicationPolicyRecord)
  | read (yardId : String) (answer : PolicyCall (Option YardApplicationPolicyRecord))
  | other (repository : Repository)

/-! ### The map -/

/-- The records of the yards, beside the other tables. -/
structure PolicyMap where
  repository : Repository
  records : String → Option YardApplicationPolicyRecord

/-- The revision of the record of the yard. -/
def PolicyMap.revision (map : PolicyMap) (yardId : String) : Option ℕ :=
  (map.records yardId).map YardApplicationPolicyRecord.revision

/-- The yard is there and active. -/
def PolicyMap.Active (map : PolicyMap) (yardId : String) : Prop :=
  ∃ yard ∈ map.repository.webYards, yard.id = yardId ∧ yard.status = .active

/-- An approval that has what it needs puts the next record of its yard into the map, and its event
into the audit. -/
def Approves (map : PolicyMap) (request : PolicyApproval) (record : YardApplicationPolicyRecord)
    (map' : PolicyMap) : Prop :=
  ∃ yard canonical, Approvable map.repository (map.revision request.yardId) request yard
      canonical ∧
    record = approvedRecord (map.revision request.yardId) yard.workspaceId request canonical ∧
    map.repository.insertAudit request.event = .ok map'.repository ∧
    map'.records = Function.update map.records request.yardId (some record)

/-- The steps of the map. -/
inductive MapStep (map : PolicyMap) : PolicyLabel → PolicyMap → Prop
  | accepted {request : PolicyApproval} {record : YardApplicationPolicyRecord}
      {map' : PolicyMap} (h : Approves map request record map') :
      MapStep map (.approved request (.ok record)) map'
  | refused {request : PolicyApproval} {e : Abort RepositoryError}
      (h : Refusal map.repository (map.revision request.yardId) request e) :
      MapStep map (.approved request (.error e)) map
  | found {yardId : String} (hvalid : ValidText yardId) (hactive : map.Active yardId) :
      MapStep map (.read yardId (.ok (map.records yardId))) map
  | noYard {yardId : String} (hvalid : ValidText yardId) (hinactive : ¬map.Active yardId) :
      MapStep map (.read yardId (.error (.error .notFound))) map
  | noText {yardId : String} (hinvalid : ¬ValidText yardId) :
      MapStep map (.read yardId (.error (.error .invalidInput))) map
  | other {repository : Repository}
      (h : YardsKept map.repository.webYards repository.webYards) :
      MapStep map (.other repository) { map with repository }

/-- The map, without any record at first. -/
def policyMap : System PolicyMap PolicyLabel where
  init := { repository := Repository.empty, records := fun _ => none }
  step := MapStep

/-! ### The records of the map -/

/-- The answer accepts an approval for the yard. -/
def PolicyLabel.accepts (yardId : String) : PolicyLabel → Bool
  | .approved request (.ok _) => request.yardId = yardId
  | .approved _ (.error _) => false
  | .read _ _ => false
  | .other _ => false

/-- Every record is canonical, and its revision is the number of approvals of the yard. -/
theorem map_records {map : PolicyMap} {labels : List PolicyLabel}
    (h : Traced policyMap (fun _ _ => True) labels map) (yardId : String) :
    (map.revision yardId).getD 0 = labels.countP (PolicyLabel.accepts yardId) ∧
      ∀ record ∈ map.records yardId, Stored record := by
  refine h.inv (P := fun labels map => ∀ yardId,
    (map.revision yardId).getD 0 = labels.countP (PolicyLabel.accepts yardId) ∧
      ∀ record ∈ map.records yardId, Stored record) ?_ ?_ yardId
  · exact fun yardId => ⟨rfl, fun record hrecord => absurd hrecord (Option.not_mem_none record)⟩
  · intro labels map label map' ih _ hstep yardId
    rw [List.countP_append, List.countP_singleton]
    cases hstep with
    | @accepted request record _ h =>
      obtain ⟨yard, canonical, happrovable, rfl, -, hrecords⟩ := h
      rw [PolicyMap.revision, hrecords]
      by_cases hyard : request.yardId = yardId
      -- the record of this yard is replaced by the next one
      · subst hyard
        rw [Function.update_self]
        refine ⟨?_, ?_⟩
        · have hrevision := (ih request.yardId).1
          simp only [PolicyLabel.accepts, decide_true, if_true, ← hrevision]
          show (map.revision request.yardId).elim 1 (· + 1) = _
          cases map.revision request.yardId <;> rfl
        · rintro _ ⟨⟩
          exact (policyClosure_spec happrovable.policy).2
      · rw [Function.update_of_ne (Ne.symm hyard)]
        simp only [PolicyLabel.accepts, hyard, decide_false, Bool.false_eq_true, if_false,
          Nat.add_zero]
        exact ih yardId
    | refused h => exact ih yardId
    | found hvalid hactive => exact ih yardId
    | noYard hvalid hinactive => exact ih yardId
    | noText hinvalid => exact ih yardId
    | other h => exact ih yardId

/-! ### The store -/

/-- Another request leaves the policies sound. -/
theorem sound_other [JsonWriter] {s : PolicyStore} (hs : s.Sound) {repository : Repository}
    (h : YardsKept s.repository.webYards repository.webYards) :
    PolicyStore.Sound { s with repository } := by
  intro row hrow
  obtain ⟨record, hsound, hencoded, yard, hyard, hid, hworkspace⟩ := hs row hrow
  obtain ⟨yard', hyard', hid', hworkspace', -⟩ := h yard hyard
  exact ⟨record, hsound, hencoded, yard', hyard', hid'.trans hid, hworkspace'.trans hworkspace⟩

section Store

variable [JsonReader]

/-- The steps of the store; other requests keep the yards and do not touch the policies. -/
inductive StoreStep (s : PolicyStore) : PolicyLabel → PolicyStore → Prop
  | accepted {request : PolicyApproval} {record : YardApplicationPolicyRecord} {s' : PolicyStore}
      (h : s.setYardApplicationPolicy request = .ok (record, s')) :
      StoreStep s (.approved request (.ok record)) s'
  | refused {request : PolicyApproval} {e : Abort RepositoryError}
      (h : s.setYardApplicationPolicy request = .error e) :
      StoreStep s (.approved request (.error e)) s
  | read {yardId : String} {answer : PolicyCall (Option YardApplicationPolicyRecord)}
      (h : s.getYardApplicationPolicy yardId = answer) : StoreStep s (.read yardId answer) s
  | other {repository : Repository} (h : YardsKept s.repository.webYards repository.webYards) :
      StoreStep s (.other repository) { s with repository }

/-- The store, over a freshly migrated repository. -/
def policySystem : System PolicyStore PolicyLabel where
  init := { repository := Repository.empty, policies := ∅ }
  step := StoreStep

/-- The store is sound and reads as the map, beside the same other tables. -/
structure Reads (s : PolicyStore) (map : PolicyMap) : Prop where
  sound : s.Sound
  repository : s.repository = map.repository
  records : ∀ yardId, s.policyByYard yardId = .ok (map.records yardId)

variable {s s' : PolicyStore} {map : PolicyMap} {request : PolicyApproval}
  {record : YardApplicationPolicyRecord}

/-- An accepted approval is one of the map. -/
theorem approves_of_set (h : Reads s map)
    (hset : s.setYardApplicationPolicy request = .ok (record, s')) :
    ∃ map', Approves map request record map' ∧ Reads s' map' := by
  obtain ⟨previous, yard, canonical, hprevious, happrovable, hrecord, haudit, hs', hread, hkept⟩ :=
    PolicyStore.setYardApplicationPolicy_spec h.sound hset
  obtain rfl : previous = map.records request.yardId :=
    Except.ok.inj (hprevious.symm.trans (h.records request.yardId))
  rw [h.repository] at happrovable haudit
  refine ⟨{ repository := s'.repository
            records := Function.update map.records request.yardId (some record) },
    ⟨yard, canonical, happrovable, hrecord, haudit, rfl⟩, hs', rfl, fun yardId => ?_⟩
  show s'.policyByYard yardId =
    .ok (Function.update map.records request.yardId (some record) yardId)
  by_cases hyard : yardId = request.yardId
  · rw [hyard, Function.update_self, hread]
  · rw [Function.update_of_ne hyard, hkept yardId hyard, h.records]

/-- A refused approval lacked something in the map, too. -/
theorem refusal_of_set (h : Reads s map) {e : Abort RepositoryError}
    (hset : s.setYardApplicationPolicy request = .error e) :
    Refusal map.repository (map.revision request.yardId) request e := by
  rw [← h.repository]
  exact PolicyStore.setYardApplicationPolicy_refused h.sound (h.records request.yardId) hset

/-- An approval with all it needs is accepted. -/
theorem set_of_approvable (h : Reads s map) {yard : WebYardRecord}
    {canonical : CanonicalApplicationPolicy}
    (happrovable : Approvable map.repository (map.revision request.yardId) request yard
      canonical) :
    ∃ s' map', s.setYardApplicationPolicy request = .ok (approvedRecord
        (map.revision request.yardId) yard.workspaceId request canonical, s') ∧
      Approves map request (approvedRecord (map.revision request.yardId) yard.workspaceId request
        canonical) map' ∧ Reads s' map' := by
  cases hset : s.setYardApplicationPolicy request with
  | error e => exact absurd happrovable (refusal_of_set h hset).not_approvable
  | ok answer =>
    obtain ⟨record, s'⟩ := answer
    obtain ⟨map', happroves, hreads⟩ := approves_of_set h hset
    obtain ⟨yard', canonical', happrovable', rfl, -⟩ := id happroves
    -- the yard and the canonical graph that were approved are these
    obtain rfl := Except.ok.inj (happrovable'.active.symm.trans happrovable.active)
    obtain rfl := Except.ok.inj (happrovable'.policy.symm.trans happrovable.policy)
    exact ⟨s', map', rfl, happroves, hreads⟩

/-- An active yard reads its record. -/
theorem get_of_active (h : Reads s map) {yardId : String} (hvalid : ValidText yardId)
    (hactive : map.Active yardId) :
    s.getYardApplicationPolicy yardId = .ok (map.records yardId) := by
  obtain ⟨yard, hyard, rfl, hstatus⟩ := hactive
  rw [← h.repository] at hyard
  -- the record is one of this yard, so that the workspaces agree
  have hsame : ∀ record ∈ map.records yard.id, record.workspaceId = yard.workspaceId := by
    intro record hrecord
    obtain ⟨found, hfound, -, hknown⟩ := h.sound.policyByYard yard.id
    rw [h.records yard.id, Except.ok.injEq] at hfound
    obtain ⟨-, other, hother, hotherId, hworkspace⟩ := hknown record (hfound ▸ hrecord)
    obtain rfl := Table.eq_of_key hother hyard hotherId
    exact hworkspace.symm
  simp only [PolicyStore.getYardApplicationPolicy, Repository.yardById, bind_eq_ok, pure_eq_ok,
    ensure_eq_ok, repositoryCall_eq_ok, requireRow_eq_ok, validateText_eq_ok]
  exact ⟨(), hvalid, yard, Table.find?_key hyard, (), hstatus, map.records yard.id,
    h.records yard.id, (), hsame, rfl⟩

/-- A yard that is not there, or not active, is not found. -/
theorem get_of_inactive (h : Reads s map) {yardId : String} (hvalid : ValidText yardId)
    (hinactive : ¬map.Active yardId) :
    s.getYardApplicationPolicy yardId = .error (.error .notFound) := by
  cases hfind : s.repository.webYards.find? yardId with
  | none =>
    simp [PolicyStore.getYardApplicationPolicy, repositoryCall, validateText, hvalid, ensure,
      Repository.yardById, requireRow, hfind, ofOption, Except.mapError, bind, Except.bind]
  | some yard =>
    obtain ⟨hyard, hid⟩ := Table.find?_eq_some.mp hfind
    have hstatus : yard.status ≠ .active := fun hactive =>
      hinactive ⟨yard, h.repository ▸ hyard, hid, hactive⟩
    simp [PolicyStore.getYardApplicationPolicy, repositoryCall, validateText, hvalid, ensure,
      Repository.yardById, requireRow, hfind, ofOption, Except.mapError, bind, Except.bind,
      hstatus]

/-- A reading answers what the map holds for an active yard. -/
theorem read_of_get (h : Reads s map) (yardId : String) :
    MapStep map (.read yardId (s.getYardApplicationPolicy yardId)) map := by
  by_cases hvalid : ValidText yardId
  · by_cases hactive : map.Active yardId
    · exact get_of_active h hvalid hactive ▸ .found hvalid hactive
    · exact get_of_inactive h hvalid hactive ▸ .noYard hvalid hactive
  · have hanswer : s.getYardApplicationPolicy yardId = .error (.error .invalidInput) := by
      simp [PolicyStore.getYardApplicationPolicy, repositoryCall, validateText, hvalid, ensure,
        Except.mapError, bind, Except.bind]
    exact hanswer ▸ .noText hvalid

theorem reads_init : Reads policySystem.init policyMap.init where
  sound _ hrow := absurd hrow Table.not_mem_empty
  repository := rfl
  records _ := rfl

theorem policy_simulation :
    Simulation policySystem (fun _ _ => True) policyMap some Reads where
  init := reads_init
  visible := by
    intro s label s' map label' hR _ hstep hobserve
    obtain rfl := Option.some.inj hobserve
    cases hstep with
    | accepted h =>
      obtain ⟨map', happroves, hR'⟩ := approves_of_set hR h
      exact ⟨map', .accepted happroves, hR'⟩
    | refused h => exact ⟨map, .refused (refusal_of_set hR h), hR⟩
    | read h => exact ⟨map, h ▸ read_of_get hR _, hR⟩
    | other h => exact ⟨_, .other (hR.repository ▸ h), sound_other hR.sound h, rfl, hR.records⟩
  silent := by
    intro s label s' map _ _ _ hobserve
    exact absurd hobserve (Option.some_ne_none label)

/-! ### The law -/

/-- The store behaves as the map of the approved records: a run of it is a run of the map, every
yard reads its record in the map, and a record is canonical, with its closure and with the number
of the approvals of the yard as its revision. -/
theorem policies_law {labels : List PolicyLabel}
    (h : Traced policySystem (fun _ _ => True) labels s) :
    ∃ map, Traced policyMap (fun _ _ => True) labels map ∧ map.repository = s.repository ∧
      (∀ yardId, s.policyByYard yardId = .ok (map.records yardId)) ∧
      ∀ yardId record, map.records yardId = some record → Stored record ∧
        record.revision = labels.countP (PolicyLabel.accepts yardId) := by
  obtain ⟨map, hmap, hreads⟩ := policy_simulation.traced h
  rw [List.filterMap_some] at hmap
  refine ⟨map, hmap, hreads.repository.symm, hreads.records, fun yardId record hrecord => ?_⟩
  obtain ⟨hrevision, hstored⟩ := map_records hmap yardId
  rw [PolicyMap.revision, hrecord] at hrevision
  exact ⟨hstored record hrecord, hrevision⟩

end Store

/-! ### An approved policy -/

def ownPress : YardManagementRoleAssignment where
  yardId := "y"
  userId := "ua"
  workspaceId := "w"
  role := .owner
  createdAtMs := 10
  updatedAtMs := 10

/-- The yard `y`, which the user `ua` owns. -/
def ownedPress : Repository :=
  match startPress.run pressProject with
  | .ok s => { s with yardManagementRoles := ⟨[ownPress], List.nodup_singleton _⟩ }
  | .error _ => pressProject

/-- The owner approves the policy of the notes. -/
def approveNotes : PolicyApproval where
  yardId := "y"
  sourceManifestDigest := repeatedDigit 'a'
  policy := notePolicy
  ordered := by decide
  approvedByPrincipal := "owner"
  nowMs := 20
  event := workspaceEvent "approved" "yard.application_policy_set" "yard_application_policy" 20
    [("fromRevision", .null), ("permissionCount", .number 2), ("roleCount", .number 2),
     ("sourceManifestDigest", .string (repeatedDigit 'a')), ("toRevision", .number 1),
     ("yardId", .string "y")]

/-- The record of this approval. -/
def noteApproval : YardApplicationPolicyRecord :=
  approvedRecord none "w" approveNotes ⟨notePolicy, noteClosure⟩

/-- An approval of the same policy without a digest. -/
def approveUnsigned : PolicyApproval := { approveNotes with sourceManifestDigest := "" }

attribute [local instance] compactReader

def ownedStore : PolicyStore where
  repository := ownedPress
  policies := ∅

def ownedMap : PolicyMap where
  repository := ownedPress
  records := fun _ => none

theorem reads_owned : Reads ownedStore ownedMap where
  sound _ hrow := absurd hrow Table.not_mem_empty
  repository := rfl
  records _ := rfl

theorem owned_activeYard :
    (ownedPress.activeYard "y").map WebYardRecord.workspaceId = .ok "w" := by
  decide +kernel

/-- The approval of the notes has what it needs. -/
theorem approvable_notes : ∃ yard, yard.workspaceId = "w" ∧
    Approvable ownedPress none approveNotes yard ⟨notePolicy, noteClosure⟩ := by
  have hactive := owned_activeYard
  cases hyard : ownedPress.activeYard "y" with
  | error e =>
    rw [hyard] at hactive
    cases hactive
  | ok yard =>
    rw [hyard] at hactive
    have hworkspace : yard.workspaceId = "w" := Except.ok.inj hactive
    have hannounced : validatePolicyEvent approveNotes.event "w" approveNotes none 1
        ⟨notePolicy, noteClosure⟩ = .ok () := by
      decide +kernel
    have hrecorded : (ownedPress.insertAudit approveNotes.event).isOk = true := by
      decide +kernel
    refine ⟨yard, hworkspace, by decide, hyard, by decide +kernel, by decide, by decide +kernel,
      notePolicy_ok, hworkspace ▸ hannounced, by decide, ?_⟩
    cases haudit : ownedPress.insertAudit approveNotes.event with
    | error e =>
      rw [haudit] at hrecorded
      cases hrecorded
    | ok r' => exact ⟨r', rfl⟩

/-- The yard is there, an approval without a digest is refused, the one of the notes is accepted,
the yard then reads its record, and a yard that is not there reads none. -/
def noteLabels : List PolicyLabel :=
  [.other ownedPress, .approved approveUnsigned (.error (.error .invalidInput)),
   .approved approveNotes (.ok noteApproval), .read "y" (.ok (some noteApproval)),
   .read "z" (.error (.error .notFound))]

theorem unsigned_refused : ownedStore.setYardApplicationPolicy approveUnsigned =
    .error (.error .invalidInput) := by
  have howner : ownedPress.requireOwner "y" = .ok () := by decide +kernel
  have hactive := owned_activeYard
  cases hyard : ownedPress.activeYard "y" with
  | error e =>
    rw [hyard] at hactive
    cases hactive
  | ok yard =>
    have hyard' : ownedStore.repository.activeYard approveUnsigned.yardId = .ok yard := hyard
    have howner' : ownedStore.repository.requireOwner approveUnsigned.yardId = .ok () := howner
    rw [PolicyStore.setYardApplicationPolicy, hyard', howner']
    rfl

/-- The run of the notes, seen in the map. -/
theorem policies_notes : ∃ s : PolicyStore, s.policyByYard "y" = .ok (some noteApproval) ∧
    ∃ map, Traced policyMap (fun _ _ => True) noteLabels map ∧ map.repository = s.repository ∧
      (∀ yardId, s.policyByYard yardId = .ok (map.records yardId)) ∧
      ∀ yardId record, map.records yardId = some record → Stored record ∧
        record.revision = noteLabels.countP (PolicyLabel.accepts yardId) := by
  obtain ⟨yard, hworkspace, happrovable⟩ := approvable_notes
  obtain ⟨s, map, hset, happroves, hreads⟩ :=
    set_of_approvable reads_owned happrovable
  rw [hworkspace] at hset happroves
  obtain ⟨-, -, -, -, haudit, hrecords⟩ := happroves
  have hrecord : map.records "y" = some noteApproval := by
    rw [hrecords]
    exact Function.update_self ..
  -- the event of the approval leaves the yards as they are
  obtain ⟨audits, hrepository⟩ := Repository.insertAudit_spec haudit
  have hyards : map.repository.webYards = ownedPress.webYards :=
    (congrArg Repository.webYards hrepository).trans rfl
  have hreadY : s.getYardApplicationPolicy "y" = .ok (some noteApproval) := by
    obtain ⟨hyard, hid, hactive⟩ := Repository.activeYard_eq_ok.mp happrovable.active
    rw [← hyards] at hyard
    rw [← hrecord]
    exact get_of_active hreads (by decide) ⟨yard, hyard, hid, hactive⟩
  have hreadZ : s.getYardApplicationPolicy "z" = .error (.error .notFound) := by
    refine get_of_inactive hreads (by decide) ?_
    rintro ⟨other, hother, hid, -⟩
    rw [hyards] at hother
    have hnone : ∀ other ∈ ownedPress.webYards.rows, other.id ≠ "z" := by decide +kernel
    exact hnone other hother hid
  have hother : StoreStep policySystem.init (.other ownedPress) ownedStore :=
    .other fun yard hyard => absurd hyard Table.not_mem_empty
  have htraced : Traced policySystem (fun _ _ => True) noteLabels s :=
    ((((Traced.init.step trivial hother).step trivial (StoreStep.refused unsigned_refused)).step
      trivial (StoreStep.accepted hset)).step trivial (StoreStep.read hreadY)).step trivial
      (StoreStep.read hreadZ)
  exact ⟨s, hrecord ▸ hreads.records "y", policies_law htraced⟩

end YardPolicies

end BlobYard
