/-
Deletion plans from their beginning to their end.

A plan is an operation row with its items.  It is written at once, it never changes while the
operation is pending, and finishing it marks the operation and removes what it names.

* `beginObjectDeletion_cases` — the plan a user deletion works from, and what it writes;
* `PlanStep`, `DeletionRequest.planStep` — what a request does to operations and items;
* `PlanKept` — an operation keeps its items, and changes once, when it is finished;
* `Spared`, `finishDeletion_effect` — what finishing leaves alone.
-/
import BlobYard.Repository.Requests

namespace BlobYard

open Outcome

namespace Repository

variable {s s' s'' : Repository}

/-! ### Plans and their operations -/

/-- The plan of an operation. -/
def planOf (s : Repository) (o : DeletionOperationRow) : DeletionPlan where
  id := o.id
  items := s.operationItems o.id
  complete := o.complete
  actor := o.actor
  requestId := o.requestId

/-- The operation that a new user deletion writes. -/
def operationOf (value : NewObjectDeletion) : DeletionOperationRow where
  id := value.id
  projectId := value.target.projectId
  objectPath := value.target.objectPath
  selectedVersion := value.target.version
  reason := .objectDelete
  complete := false
  actor := value.actor
  requestId := value.requestId
  createdAtMs := value.createdAtMs
  completedAtMs := none

/-- The operation is a user deletion of the target. -/
def ForTarget (target : ObjectDeletionTarget) (o : DeletionOperationRow) : Prop :=
  o.projectId = target.projectId ∧ o.objectPath = target.objectPath ∧ o.reason = .objectDelete ∧
    o.selectedVersion = target.version

theorem deletionPlan_of_mem {o : DeletionOperationRow} (ho : o ∈ s.deletionOperations) :
    s.deletionPlan o.id = .ok (s.planOf o) :=
  deletionPlan_eq_ok.mpr ⟨o, ho, rfl, rfl⟩

theorem planOf_of_deletionPlan {operationId : String} {plan : DeletionPlan}
    {o : DeletionOperationRow} (h : s.deletionPlan operationId = .ok plan)
    (ho : o ∈ s.deletionOperations) (hid : o.id = operationId) : plan = s.planOf o := by
  subst hid
  exact Except.ok.inj (h.symm.trans (deletionPlan_of_mem ho))

theorem pendingOperation_eq_some {target : ObjectDeletionTarget} {o : DeletionOperationRow}
    (h : s.pendingOperation target = some o) :
    o ∈ s.deletionOperations ∧ ForTarget target o ∧ o.complete = false := by
  obtain ⟨ho, hproject, hpath, hreason, hpending, hversion⟩ :=
    Table.mem_select.mp (List.mem_of_head? h)
  exact ⟨ho, ⟨hproject, hpath, hreason, hversion⟩, hpending⟩

theorem pendingOperation_eq_none {target : ObjectDeletionTarget} :
    s.pendingOperation target = none ↔
      ∀ o ∈ s.deletionOperations, ForTarget target o → o.complete = true := by
  rw [pendingOperation, List.head?_eq_none_iff, List.eq_nil_iff_forall_not_mem]
  simp only [targetOperations, Table.mem_select, ForTarget]
  constructor
  · rintro h o ho ⟨hproject, hpath, hreason, hversion⟩
    by_contra hpending
    exact h o ⟨ho, hproject, hpath, hreason, by simpa using hpending, hversion⟩
  · rintro h o ⟨ho, hproject, hpath, hreason, hpending, hversion⟩
    have hcomplete := h o ho ⟨hproject, hpath, hreason, hversion⟩
    rw [hpending] at hcomplete
    cases hcomplete

/-- The time and name by which the newest of several completed operations is found. -/
def completionColumn (o : DeletionOperationRow) : ℕ ×ₗ String :=
  toLex (o.completedAtMs.getD 0, o.id)

/-- The newest of the completed operations of the target. -/
def Newest (s : Repository) (target : ObjectDeletionTarget) (o : DeletionOperationRow) : Prop :=
  ForTarget target o ∧ o.complete = true ∧ ∀ o' ∈ s.deletionOperations, ForTarget target o' →
    o'.complete = true → completionColumn o' ≤ completionColumn o

theorem completedOperation_eq_some {target : ObjectDeletionTarget} {o : DeletionOperationRow}
    (h : s.completedOperation target = some o) : o ∈ s.deletionOperations ∧ s.Newest target o := by
  have hmem := List.mem_of_head? h
  rw [mem_orderBy] at hmem
  obtain ⟨ho, hproject, hpath, hreason, hcomplete, hversion⟩ := Table.mem_select.mp hmem
  refine ⟨ho, ⟨hproject, hpath, hreason, hversion⟩, hcomplete, fun o' ho' htarget hdone => ?_⟩
  obtain ⟨hproject', hpath', hreason', hversion'⟩ := htarget
  have hmem' : o' ∈ s.targetOperations target true :=
    Table.mem_select.mpr ⟨ho', hproject', hpath', hreason', hdone, hversion'⟩
  rw [completedOperation] at h
  obtain ⟨rest, hrest⟩ := List.head?_eq_some_iff.mp h
  -- the operations are in the order of their completion, the newest first
  have hsorted := orderBy_pairwise
    (fun o : DeletionOperationRow =>
      toLex (OrderDual.toDual (o.completedAtMs.getD 0), OrderDual.toDual o.id))
    (s.targetOperations target true)
  rw [← mem_orderBy (f := fun o : DeletionOperationRow =>
    toLex (OrderDual.toDual (o.completedAtMs.getD 0), OrderDual.toDual o.id)), hrest] at hmem'
  rw [hrest] at hsorted
  rcases List.mem_cons.mp hmem' with rfl | hmem'
  · exact le_rfl
  -- the others come after the first, so they completed earlier or have a smaller identifier
  · have hle := (List.pairwise_cons.mp hsorted).1 o' hmem'
    rw [Prod.Lex.toLex_le_toLex] at hle
    rw [completionColumn, completionColumn, Prod.Lex.toLex_le_toLex]
    rcases hle with hlt | ⟨heq, hle⟩
    · exact Or.inl hlt
    · exact Or.inr ⟨(OrderDual.toDual_inj.mp heq).symm, hle⟩

theorem completedOperation_of_mem {target : ObjectDeletionTarget} {o : DeletionOperationRow}
    (ho : o ∈ s.deletionOperations) (htarget : ForTarget target o) (hcomplete : o.complete = true) :
    ∃ newest, s.completedOperation target = some newest := by
  obtain ⟨hproject, hpath, hreason, hversion⟩ := htarget
  have hmem : o ∈ s.targetOperations target true :=
    Table.mem_select.mpr ⟨ho, hproject, hpath, hreason, hcomplete, hversion⟩
  rw [← mem_orderBy (f := fun o : DeletionOperationRow =>
    toLex (OrderDual.toDual (o.completedAtMs.getD 0), OrderDual.toDual o.id))] at hmem
  obtain ⟨newest, rest, hrest⟩ := List.exists_cons_of_ne_nil (List.ne_nil_of_mem hmem)
  exact ⟨newest, by rw [completedOperation, hrest, List.head?_cons]⟩

/-- A user deletion works from the pending plan of its target; or, where nothing is selected, from
the newest completed one; or it writes a plan of its own. -/
theorem beginObjectDeletion_cases {value : NewObjectDeletion} {plan : DeletionPlan}
    (h : s.beginObjectDeletion value = .ok (plan, s')) :
    (∃ o ∈ s.deletionOperations, ForTarget value.target o ∧ o.complete = false ∧ s' = s ∧
      plan = s.planOf o) ∨
    (∃ o ∈ s.deletionOperations, s.Newest value.target o ∧ s' = s ∧ plan = s.planOf o) ∨
    s.pendingOperation value.target = none ∧
      Planned s s' (operationOf value)
        ((s.selectedVersions value.target).filter fun v => v.state = .complete) ∧
      plan = s'.planOf (operationOf value) := by
  simp only [beginObjectDeletion, bind_eq_ok] at h
  obtain ⟨-, -, h⟩ := h
  split at h
  -- a pending plan of the target is resumed
  · rename_i o hpending
    simp only [bind_eq_ok, pure_eq_ok, Prod.mk.injEq] at h
    obtain ⟨_, hplan, rfl, rfl⟩ := h
    obtain ⟨ho, htarget, hopen⟩ := pendingOperation_eq_some hpending
    exact Or.inl ⟨o, ho, htarget, hopen, rfl, planOf_of_deletionPlan hplan ho rfl⟩
  · rename_i hpending
    split at h
    -- nothing is selected any more: the newest completed plan answers again
    · simp only [bind_eq_ok, pure_eq_ok, Prod.mk.injEq, requireRow_eq_ok] at h
      obtain ⟨o, hcompleted, _, hplan, rfl, rfl⟩ := h
      obtain ⟨ho, hnewest⟩ := completedOperation_eq_some hcompleted
      exact Or.inr (Or.inl ⟨o, ho, hnewest, rfl, planOf_of_deletionPlan hplan ho rfl⟩)
    -- a plan of its own, over the complete versions that are selected
    · simp only [bind_eq_ok, pure_eq_ok, Prod.mk.injEq] at h
      obtain ⟨-, -, s₁, hs₁, s₂, hs₂, _, hplan, rfl, rfl⟩ := h
      obtain ⟨operations, rfl, hoperations⟩ := insertOperation_spec hs₁
      obtain ⟨items, rfl, hitems⟩ := insertItems_spec hs₂
      refine Or.inr (Or.inr ⟨hpending, ⟨hoperations, rfl, hitems, fun v hv => ?_⟩,
        planOf_of_deletionPlan hplan hoperations.mem_new rfl⟩)
      obtain ⟨hv, hstate⟩ := List.mem_filter.mp hv
      exact ⟨(mem_selectedVersions.mp hv).1, by simpa using hstate⟩

/-- A valid user deletion finds the pending operation of its target. -/
theorem beginObjectDeletion_of_pending {value : NewObjectDeletion} {o : DeletionOperationRow}
    (hvalid : validateDeletion value = .ok ()) (h : s.pendingOperation value.target = some o) :
    s.beginObjectDeletion value = .ok (s.planOf o, s) := by
  have hplan := deletionPlan_of_mem (pendingOperation_eq_some h).1
  simp only [beginObjectDeletion, bind_eq_ok, h, pure_eq_ok]
  exact ⟨(), hvalid, s.planOf o, hplan, rfl⟩

/-- A valid user deletion that selects nothing finds the newest completed operation. -/
theorem beginObjectDeletion_of_completed {value : NewObjectDeletion} {o : DeletionOperationRow}
    (hvalid : validateDeletion value = .ok ()) (hnone : s.pendingOperation value.target = none)
    (hselected : s.selectedVersions value.target = [])
    (h : s.completedOperation value.target = some o) :
    s.beginObjectDeletion value = .ok (s.planOf o, s) := by
  have hplan := deletionPlan_of_mem (completedOperation_eq_some h).1
  simp only [beginObjectDeletion, bind_eq_ok, hnone, hselected, if_true, pure_eq_ok,
    requireRow_eq_ok]
  exact ⟨(), hvalid, o, h, s.planOf o, hplan, rfl⟩

/-- Finishing a complete operation does nothing, whatever the event. -/
theorem finishDeletion_of_complete {operationId : String} {completedAtMs : ℕ}
    {event : NewAuditEvent} {o : DeletionOperationRow} (htext : ValidText operationId)
    (htime : completedAtMs ≤ i64Max) (ho : o ∈ s.deletionOperations) (hid : o.id = operationId)
    (hcomplete : o.complete = true) :
    s.finishDeletion operationId completedAtMs event = .ok s := by
  subst hid
  simp only [finishDeletion, bind_eq_ok, validateText_eq_ok, toI64_eq_ok, requireRow_eq_ok]
  exact ⟨(), htext, (), htime, o, Table.find?_key ho, by rw [if_pos hcomplete, pure_eq_ok]⟩

/-! ### What a request does to the plans -/

/-- No pending operation stands where the new one goes. -/
structure Vacant (s : Repository) (o : DeletionOperationRow) : Prop where
  target : o.reason = .objectDelete → ∀ o' ∈ s.deletionOperations, o'.reason = .objectDelete →
    o'.projectId = o.projectId → o'.objectPath = o.objectPath →
    o'.selectedVersion = o.selectedVersion → o'.complete = true
  retention : o.reason = .retention → ∀ o' ∈ s.deletionOperations, o'.reason = .retention →
    o'.projectId = o.projectId → o'.complete = true

/-- What a request can do to operations and items. -/
inductive PlanStep (s s' : Repository) : Prop
  | same : SamePlans s s' → PlanStep s s'
  | planned {o : DeletionOperationRow} {versions : List ObjectVersionRecord} :
    Planned s s' o versions → Vacant s o → PlanStep s s'
  | finished {o : DeletionOperationRow} {completedAtMs : ℕ} : Finished s s' o completedAtMs →
    PlanStep s s'

theorem pendingRetention_eq_none {projectId : String} :
    s.pendingRetention projectId = none ↔ ∀ o ∈ s.deletionOperations, o.reason = .retention →
      o.projectId = projectId → o.complete = true := by
  rw [pendingRetention, List.head?_eq_none_iff, List.eq_nil_iff_forall_not_mem]
  simp only [Table.mem_select]
  constructor
  · intro h o ho hreason hproject
    by_contra hpending
    exact h o ⟨ho, hproject, hreason, by simpa using hpending⟩
  · rintro h o ⟨ho, hproject, hreason, hpending⟩
    have hcomplete := h o ho hreason hproject
    rw [hpending] at hcomplete
    cases hcomplete

/-- The operation that a new retention run writes. -/
def retentionOperation (projectId runId actor requestId : String) (startedAtMs : ℕ) :
    DeletionOperationRow where
  id := runId
  projectId := projectId
  objectPath := retentionPath
  selectedVersion := none
  reason := .retention
  complete := false
  actor := actor
  requestId := requestId
  createdAtMs := startedAtMs
  completedAtMs := none

/-- A retention run works from the pending plan of its project, or writes the governed versions
without the newest ones. -/
theorem beginRetention_cases {projectId runId actor requestId : String} {startedAtMs : ℕ}
    {plan : DeletionPlan}
    (h : s.beginRetention projectId runId actor requestId startedAtMs = .ok (plan, s')) :
    (∃ o, s.pendingRetention projectId = some o ∧ SamePlans s s' ∧ plan = s'.planOf o) ∨
    s.pendingRetention projectId = none ∧ ∃ policy,
      s.retentionPolicy projectId = .ok policy ∧
      Planned s s' (retentionOperation projectId runId actor requestId startedAtMs)
        ((s.matchingVersions policy).drop policy.keepLatest) ∧
      plan = s'.planOf (retentionOperation projectId runId actor requestId startedAtMs) := by
  simp only [beginRetention, bind_eq_ok] at h
  obtain ⟨-, -, h⟩ := h
  split at h
  -- a pending plan of the project is resumed
  · rename_i o hpending
    simp only [bind_eq_ok, pure_eq_ok, Prod.mk.injEq] at h
    obtain ⟨_, hplan, rfl, rfl⟩ := h
    have ho := (Table.mem_select.mp (List.mem_of_head? hpending)).1
    exact Or.inl ⟨o, hpending, ⟨rfl, rfl⟩, planOf_of_deletionPlan hplan ho rfl⟩
  -- a new plan: the newest versions are spared, whatever is governed
  · rename_i hpending
    simp only [bind_eq_ok, pure_eq_ok, Prod.mk.injEq] at h
    obtain ⟨policy, hpolicy, -, -, runs, -, s₁, hs₁, s₂, hs₂, _, hplan, rfl, rfl⟩ := h
    obtain ⟨operations, rfl, hoperations⟩ := insertOperation_spec hs₁
    obtain ⟨items, rfl, hitems⟩ := insertItems_spec hs₂
    refine Or.inr ⟨hpending, policy, hpolicy, ⟨hoperations, rfl, hitems, fun v hv => ?_⟩,
      planOf_of_deletionPlan hplan hoperations.mem_new rfl⟩
    obtain ⟨hv, -, hstate⟩ := matchingVersions_complete (List.mem_of_mem_drop hv)
    exact ⟨hv, hstate⟩

theorem vacant_of_cleanup {o : DeletionOperationRow} (h : o.reason = .yardCleanup) :
    Vacant s o where
  target hreason := by
    rw [h] at hreason
    cases hreason
  retention hreason := by
    rw [h] at hreason
    cases hreason

end Repository

theorem DeletionRequest.planStep {s s' : Repository} {request : DeletionRequest}
    (h : request.run s = .ok s') : Repository.PlanStep s s' := by
  cases request with
  | beginObjectDeletion value =>
    obtain ⟨⟨_, _⟩, hrun, rfl⟩ := map_eq_ok.mp h
    rcases Repository.beginObjectDeletion_cases hrun with ⟨_, -, -, -, rfl, -⟩ | ⟨_, -, -, rfl, -⟩ |
      ⟨hnone, hplanned, -⟩
    · exact .same ⟨rfl, rfl⟩
    · exact .same ⟨rfl, rfl⟩
    -- a plan is only written where none is pending for the target
    · refine .planned hplanned ⟨fun _ o' ho' hreason hproject hpath hversion => ?_, fun hreason => ?_⟩
      · exact Repository.pendingOperation_eq_none.mp hnone o' ho' ⟨hproject, hpath, hreason, hversion⟩
      · cases hreason
  | beginRetention projectId runId actor requestId startedAtMs =>
    obtain ⟨⟨_, _⟩, hrun, rfl⟩ := map_eq_ok.mp h
    rcases Repository.beginRetention_cases hrun with ⟨_, -, hsame, -⟩ | ⟨hnone, _, -, hplanned, -⟩
    · exact .same hsame
    -- and a run only where none is pending for the project
    · refine .planned hplanned ⟨fun hreason => ?_, fun _ o' ho' hreason hproject => ?_⟩
      · cases hreason
      · exact Repository.pendingRetention_eq_none.mp hnone o' ho' hreason hproject
  | planYardCleanup deployId createdAtMs =>
    rcases Repository.planYardCleanup_spec h with rfl | ⟨_, _, o, versions, rfl, hreason, hplanned⟩
    · exact .same ⟨rfl, rfl⟩
    · exact .planned hplanned (Repository.vacant_of_cleanup hreason)
  | finishDeletion operationId completedAtMs event =>
    rcases Repository.finishDeletion_spec h with rfl | ⟨o, -, hfinished⟩
    · exact .same ⟨rfl, rfl⟩
    · exact .finished hfinished
  -- the rules and the reports of runs are no plans
  | setRetention policy event =>
    obtain ⟨_, _, rfl⟩ := Repository.setRetention_frame h
    exact .same ⟨rfl, rfl⟩
  | clearRetention projectId updatedAtMs event =>
    obtain ⟨⟨_, _⟩, hrun, rfl⟩ := map_eq_ok.mp h
    obtain ⟨_, _, rfl⟩ := Repository.clearRetention_frame hrun
    exact .same ⟨rfl, rfl⟩
  | failRetention runId completedAtMs =>
    obtain ⟨_, rfl⟩ := Repository.failRetention_frame h
    exact .same ⟨rfl, rfl⟩

namespace Repository

variable {s s' s'' : Repository}

/-! ### Plans from one state to a later one -/

theorem operationItems_congr {operationId : String}
    (h : ∀ row : DeletionItemRow, row.operationId = operationId →
      (row ∈ s'.deletionItems ↔ row ∈ s.deletionItems)) :
    s'.operationItems operationId = s.operationItems operationId := by
  have hnodup : ∀ t : Repository, ((t.deletionItems.select fun row =>
      row.operationId = operationId).map DeletionItemRow.item).Nodup := by
    intro t
    refine List.Nodup.map_on (fun a ha b hb hab => ?_) Table.select_nodup
    obtain ⟨ha, haid⟩ := Table.mem_select.mp ha
    obtain ⟨hb, hbid⟩ := Table.mem_select.mp hb
    exact Table.eq_of_key ha hb (Prod.ext (haid.trans hbid.symm) (congrArg DeletionItem.versionId hab))
  refine orderBy_congr (hnodup s') (hnodup s) (fun a ha b hb hab => ?_) fun item => ?_
  · obtain ⟨ra, hra, rfl⟩ := List.mem_map.mp ha
    obtain ⟨rb, hrb, rfl⟩ := List.mem_map.mp hb
    obtain ⟨hra, haid⟩ := Table.mem_select.mp hra
    obtain ⟨hrb, hbid⟩ := Table.mem_select.mp hrb
    exact congrArg _ (Table.eq_of_key hra hrb (Prod.ext (haid.trans hbid.symm) hab))
  · simp only [List.mem_map, Table.mem_select]
    constructor
    · rintro ⟨row, ⟨hrow, hid⟩, rfl⟩
      exact ⟨row, ⟨(h row hid).mp hrow, hid⟩, rfl⟩
    · rintro ⟨row, ⟨hrow, hid⟩, rfl⟩
      exact ⟨row, ⟨(h row hid).mpr hrow, hid⟩, rfl⟩

/-- An operation keeps its items; its row stays as it is, or is marked complete. -/
def PlanKept (s s' : Repository) (o : DeletionOperationRow) : Prop :=
  s'.operationItems o.id = s.operationItems o.id ∧
    (o ∈ s'.deletionOperations ∨ o.complete = false ∧ ∃ completedAtMs,
      { o with complete := true, completedAtMs := some completedAtMs } ∈ s'.deletionOperations)

theorem PlanStep.kept (h : PlanStep s s') {o : DeletionOperationRow}
    (ho : o ∈ s.deletionOperations) : PlanKept s s' o := by
  cases h with
  | same hsame =>
    refine ⟨?_, Or.inl (hsame.1 ▸ ho)⟩
    rw [operationItems, operationItems, hsame.2]
  | @planned o' versions hplanned hvacant =>
    refine ⟨operationItems_congr fun row hid => ?_, Or.inl (hplanned.operation.mem_of_mem ho)⟩
    refine (hplanned.items row).trans (or_iff_left ?_)
    rintro ⟨v, -, rfl⟩
    exact hplanned.operation.fresh o ho hid.symm
  | @finished o' completedAtMs hfinished =>
    refine ⟨?_, ?_⟩
    · rw [operationItems, operationItems, hfinished.items]
    · by_cases hoo : o = o'
      · subst hoo
        exact Or.inr ⟨hfinished.pending, completedAtMs, hfinished.operation.mem_new⟩
      · exact Or.inl ((hfinished.operation.mem o).mpr (Or.inl ⟨ho, hoo⟩))

theorem PlanKept.trans {o : DeletionOperationRow} (h : PlanKept s s' o)
    (hstep : ∀ o' ∈ s'.deletionOperations, PlanKept s' s'' o') : PlanKept s s'' o := by
  obtain ⟨hitems, ho | ⟨hpending, completedAtMs, ho⟩⟩ := h
  · obtain ⟨hitems', hrow⟩ := hstep o ho
    exact ⟨hitems'.trans hitems, hrow⟩
  · obtain ⟨hitems', hrow | ⟨hopen, -⟩⟩ := hstep _ ho
    · exact ⟨hitems'.trans hitems, Or.inr ⟨hpending, completedAtMs, hrow⟩⟩
    · cases hopen

/-- The items belong to operations, and no two pending operations stand in one place. -/
structure PlansSound (s : Repository) : Prop where
  owned : ∀ row ∈ s.deletionItems, ∃ o ∈ s.deletionOperations, o.id = row.operationId
  targets : ∀ o ∈ s.deletionOperations, ∀ o' ∈ s.deletionOperations, o.reason = .objectDelete →
    o'.reason = .objectDelete → o.complete = false → o'.complete = false →
    o'.projectId = o.projectId → o'.objectPath = o.objectPath →
    o'.selectedVersion = o.selectedVersion → o' = o
  retentions : ∀ o ∈ s.deletionOperations, ∀ o' ∈ s.deletionOperations, o.reason = .retention →
    o'.reason = .retention → o.complete = false → o'.complete = false →
    o'.projectId = o.projectId → o' = o

theorem plansSound_init : PlansSound Repository.empty where
  owned _ h := absurd h Table.not_mem_empty
  targets _ h := absurd h Table.not_mem_empty
  retentions _ h := absurd h Table.not_mem_empty

theorem PlansSound.same (h : PlansSound s) (hsame : SamePlans s s') : PlansSound s' := by
  obtain ⟨hoperations, hitems⟩ := hsame
  refine ⟨?_, ?_, ?_⟩
  · rw [hoperations, hitems]
    exact h.owned
  · rw [hoperations]
    exact h.targets
  · rw [hoperations]
    exact h.retentions

theorem PlansSound.step (h : PlansSound s) (hstep : PlanStep s s') : PlansSound s' := by
  cases hstep with
  | same hsame => exact h.same hsame
  | @planned o versions hplanned hvacant =>
    have hmem := hplanned.operation.mem
    refine ⟨fun row hrow => ?_, ?_, ?_⟩
    -- a new item is owned by the new operation
    · rcases (hplanned.items row).mp hrow with hrow | ⟨v, -, rfl⟩
      · obtain ⟨x, hx, hid⟩ := h.owned row hrow
        exact ⟨x, hplanned.operation.mem_of_mem hx, hid⟩
      · exact ⟨o, hplanned.operation.mem_new, rfl⟩
    -- two pending plans for one target: the second would not have been written
    · intro x hx y hy hxr hyr hxp hyp hproject hpath hversion
      rcases (hmem x).mp hx with hx | rfl <;> rcases (hmem y).mp hy with hy | rfl
      · exact h.targets x hx y hy hxr hyr hxp hyp hproject hpath hversion
      · have hdone := hvacant.target hyr x hx hxr hproject.symm hpath.symm hversion.symm
        rw [hxp] at hdone
        cases hdone
      · have hdone := hvacant.target hxr y hy hyr hproject hpath hversion
        rw [hyp] at hdone
        cases hdone
      · rfl
    -- and likewise for two pending runs of one project
    · intro x hx y hy hxr hyr hxp hyp hproject
      rcases (hmem x).mp hx with hx | rfl <;> rcases (hmem y).mp hy with hy | rfl
      · exact h.retentions x hx y hy hxr hyr hxp hyp hproject
      · have hdone := hvacant.retention hyr x hx hxr hproject.symm
        rw [hxp] at hdone
        cases hdone
      · have hdone := hvacant.retention hxr y hy hyr hproject
        rw [hyp] at hdone
        cases hdone
      · rfl
  | @finished o completedAtMs hfinished =>
    -- what is pending after the end of an operation was so before
    have hpending : ∀ x ∈ s'.deletionOperations, x.complete = false → x ∈ s.deletionOperations := by
      intro x hx hopen
      rcases (hfinished.operation.mem x).mp hx with ⟨hx, -⟩ | rfl
      · exact hx
      · cases hopen
    refine ⟨fun row hrow => ?_, ?_, ?_⟩
    -- its items stay with the operation, which is complete now
    · rw [hfinished.items] at hrow
      obtain ⟨x, hx, hid⟩ := h.owned row hrow
      by_cases hxo : x = o
      · subst hxo
        exact ⟨_, hfinished.operation.mem_new, hid⟩
      · exact ⟨x, (hfinished.operation.mem x).mpr (Or.inl ⟨hx, hxo⟩), hid⟩
    · intro x hx y hy hxr hyr hxp hyp
      exact h.targets x (hpending x hx hxp) y (hpending y hy hyp) hxr hyr hxp hyp
    · intro x hx y hy hxr hyr hxp hyp
      exact h.retentions x (hpending x hx hxp) y (hpending y hy hyp) hxr hyr hxp hyp

/-! ### What a removal spares -/

/-- Rows that hang off no version of `gone` are the same afterwards. -/
structure Spared (s s' : Repository) (gone : String → Prop) : Prop where
  versions : ∀ v ∈ s.objectVersions, ¬gone v.id → v ∈ s'.objectVersions
  reservations : ∀ r ∈ s.uploadReservations, ¬gone r.versionId → r ∈ s'.uploadReservations
  parts : ∀ p ∈ s.uploadParts, (∀ r ∈ s.uploadReservations, r.id = p.uploadId → ¬gone r.versionId) →
    p ∈ s'.uploadParts
  links : ∀ l ∈ s.inboxUploads, (∀ r ∈ s.uploadReservations, r.id = l.uploadId → ¬gone r.versionId) →
    l ∈ s'.inboxUploads
  grants : ∀ g ∈ s.downloadGrants, ¬gone g.versionId → g ∈ s'.downloadGrants
  shares : ∀ row ∈ s.shares, (∀ id ∈ row.share.versionId, ¬gone id) → row ∈ s'.shares
  files : ∀ f ∈ s.yardDeployFiles, (∀ id ∈ f.versionId, ¬gone id) → f ∈ s'.yardDeployFiles
  /-- No reservation appears. -/
  old : ∀ r ∈ s'.uploadReservations, r ∈ s.uploadReservations

variable {gone gone' : String → Prop}

theorem Spared.trans (h : Spared s s' gone) (h' : Spared s' s'' gone) : Spared s s'' gone where
  versions v hv hnot := h'.versions v (h.versions v hv hnot) hnot
  reservations r hr hnot := h'.reservations r (h.reservations r hr hnot) hnot
  parts p hp hnot := h'.parts p (h.parts p hp hnot) fun r hr => hnot r (h.old r hr)
  links l hl hnot := h'.links l (h.links l hl hnot) fun r hr => hnot r (h.old r hr)
  grants g hg hnot := h'.grants g (h.grants g hg hnot) hnot
  shares row hrow hnot := h'.shares row (h.shares row hrow hnot) hnot
  files f hf hnot := h'.files f (h.files f hf hnot) hnot
  old r hr := h.old r (h'.old r hr)

theorem Spared.refl (s : Repository) : Spared s s gone where
  versions _ h _ := h
  reservations _ h _ := h
  parts _ h _ := h
  links _ h _ := h
  grants _ h _ := h
  shares _ h _ := h
  files _ h _ := h
  old _ h := h

/-- Deleting reservations spares what hangs off the others. -/
theorem deleteReservations_spared {p : UploadReservationRow → Prop} [DecidablePred p]
    (h : ∀ r ∈ s.uploadReservations, p r → gone r.versionId) :
    Spared s (s.deleteReservations p) gone where
  versions _ hv _ := hv
  reservations r hr hnot := Table.mem_erase.mpr ⟨hr, fun hp => hnot (h r hr hp)⟩
  parts _ hq hnot := Table.mem_erase.mpr
    ⟨hq, fun ⟨r, hr, hp, hid⟩ => hnot r hr hid (h r hr hp)⟩
  links _ hl hnot := Table.mem_erase.mpr
    ⟨hl, fun ⟨r, hr, hp, hid⟩ => hnot r hr hid (h r hr hp)⟩
  grants _ hg _ := hg
  shares _ hrow _ := hrow
  files _ hf _ := hf
  old _ hr := (Table.mem_erase.mp hr).1

/-- Deleting versions spares the others and what hangs off them. -/
theorem deleteVersions_spared {p : ObjectVersionRecord → Prop} [DecidablePred p]
    (h : ∀ v ∈ s.objectVersions, p v → gone v.id) : Spared s (s.deleteVersions p) gone where
  versions v hv hnot := Table.mem_erase.mpr ⟨hv, fun hp => hnot (h v hv hp)⟩
  reservations _ hr _ := hr
  parts _ hq _ := hq
  links _ hl _ := hl
  grants g hg hnot := Table.mem_erase.mpr
    ⟨hg, fun ⟨v, hv, hp, hid⟩ => hnot (hid ▸ h v hv hp)⟩
  shares row hrow hnot := Table.Mapped.mem_of_fixed Table.mapped_update hrow
    (if_neg fun ⟨v, hv, hp, hid⟩ => hnot v.id hid.symm (h v hv hp))
  files f hf hnot := Table.Mapped.mem_of_fixed Table.mapped_update hf
    (if_neg fun ⟨v, hv, hp, hid⟩ => hnot v.id hid.symm (h v hv hp))
  old _ hr := hr

theorem deleteVersionMetadata_spared {versionId : String} (h : gone versionId) :
    Spared s (s.deleteVersionMetadata versionId) gone := by
  have hgrants : Spared s { s with
      downloadGrants := s.downloadGrants.erase fun g => g.versionId = versionId } gone := by
    refine { Spared.refl s with grants := fun g hg hnot => Table.mem_erase.mpr ⟨hg, ?_⟩ }
    rintro rfl
    exact hnot h
  refine (hgrants.trans (deleteReservations_spared ?_)).trans (deleteVersions_spared ?_)
  · rintro r - rfl
    exact h
  · rintro v - rfl
    exact h

/-- Finishing spares whatever hangs off no version that it removes. -/
theorem deleteSelectedMetadata_spared (s : Repository) (o : DeletionOperationRow) :
    Spared s (s.deleteSelectedMetadata o) (s.RemovesId o) := by
  -- the planned versions go one after the other, and each spares the rest
  have hplanned : ∀ (ids : List String) (t : Repository), (∀ id ∈ ids, s.RemovesId o id) →
      Spared t (ids.foldl deleteVersionMetadata t) (s.RemovesId o) := by
    intro ids
    induction ids with
    | nil => exact fun t _ => Spared.refl t
    | cons id ids ih =>
      intro t hids
      rw [List.foldl_cons]
      exact (deleteVersionMetadata_spared (hids id List.mem_cons_self)).trans
        (ih _ fun i hi => hids i (List.mem_cons_of_mem _ hi))
  have hfirst := hplanned (s.plannedIds o.id) s fun id hid => Or.inl hid
  obtain ⟨-, hversions, -⟩ := foldl_deleteVersionMetadata_spec s (s.plannedIds o.id)
  unfold deleteSelectedMetadata
  -- only a deletion by a user also takes the aborted uploads of its target
  by_cases hreason : o.reason = .objectDelete
  · rw [if_pos hreason]
    have haborted : ∀ v ∈ ((s.plannedIds o.id).foldl deleteVersionMetadata s).objectVersions,
        AbortedTarget o v → s.RemovesId o v.id := fun v hv ha =>
      Or.inr ⟨hreason, v, ((hversions v).mp hv).1, ha, rfl⟩
    refine (hfirst.trans (deleteReservations_spared fun r _ hr => ?_)).trans
      (deleteVersions_spared haborted)
    obtain ⟨v, hv, ha, hid⟩ := hr
    exact hid ▸ haborted v hv ha
  · rw [if_neg hreason]
    exact hfirst

/-- A successful finish finds its operation complete and does nothing, or it marks it complete,
removes the versions to be removed, and spares the rest. -/
theorem finishDeletion_effect {operationId : String} {completedAtMs : ℕ} {event : NewAuditEvent}
    (h : s.finishDeletion operationId completedAtMs event = .ok s') :
    ∃ o ∈ s.deletionOperations, o.id = operationId ∧
      (o.complete = true ∧ s' = s ∨
        o.complete = false ∧
          { o with complete := true, completedAtMs := some completedAtMs } ∈ s'.deletionOperations ∧
          Spared s s' (s.RemovesId o) ∧
          ∀ v ∈ s'.objectVersions, v ∈ s.objectVersions ∧ ¬s.RemovesId o v.id) := by
  have hcases := finishDeletion_cases h
  simp only [finishDeletion, bind_eq_ok, requireRow_eq_ok, Table.find?_eq_some] at h
  obtain ⟨-, -, -, -, o, ⟨ho, rfl⟩, h⟩ := h
  refine ⟨o, ho, rfl, ?_⟩
  -- complete already, or open until now
  split at h
  · rename_i hcomplete
    exact Or.inl ⟨hcomplete, (pure_eq_ok.mp h).symm⟩
  · rename_i hopen
    have hpending : o.complete = false := by simpa using hopen
    simp only [bind_eq_ok] at h
    obtain ⟨-, -, h⟩ := h
    obtain ⟨auditEvents, rfl⟩ := insertAudit_spec h
    obtain ⟨runs, hruns⟩ := completeRun_spec
      ((s.deleteSelectedMetadata o).completeOperation o.id completedAtMs) o completedAtMs
    rw [hruns] at hcases ⊢
    have hspared := deleteSelectedMetadata_spared s o
    -- completing the run of a rule touches nothing but the run
    refine Or.inr ⟨hpending, ?_, ⟨hspared.versions, hspared.reservations, hspared.parts,
      hspared.links, hspared.grants, hspared.shares, hspared.files, hspared.old⟩, fun v hv => ?_⟩
    -- the operation that was open is the one marked complete
    · rcases hcases with ⟨hsame, x, hx, hid, hdone⟩ | ⟨x, hid, hfinished⟩
      · obtain rfl := Table.eq_of_key hx ho hid
        rw [hpending] at hdone
        cases hdone
      · obtain rfl := Table.eq_of_key hfinished.operation.mem_old ho hid
        exact hfinished.operation.mem_new
    -- a version that is left was neither planned nor aborted
    · obtain ⟨hvs, hkept⟩ := ((deleteSelectedMetadata_spec s o).2.1 v).mp hv
      refine ⟨hvs, ?_⟩
      rintro (hplanned | ⟨hreason, w, hw, haborted, hid⟩)
      · exact hkept (Or.inl hplanned)
      · obtain rfl := Table.eq_of_key hw hvs hid
        exact hkept (Or.inr ⟨hreason, haborted⟩)

end Repository

end BlobYard
