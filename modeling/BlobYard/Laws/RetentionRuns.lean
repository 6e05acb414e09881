/-
Retention.

A policy governs the complete versions of its project that lie on paths and branches its globs
mean.  A run plans all of them but the newest, and works from that plan until it is finished,
whatever happens to the versions and the policy in between.

* `globAt_iff` — what a glob means;
* `matchingVersions_spec` — the governed versions, newest first;
* `beginRetention_plan` — what a new run persists;
* `CountsSound.step` — a run deletes at most its candidates;
* `retention_law` — all of it over runs.
-/
import BlobYard.Lib.Glob
import BlobYard.Lib.Run
import BlobYard.Repository.DeletionPlans
import BlobYard.Server.Retention

namespace BlobYard

open Outcome Repository Server

namespace RetentionRuns

/-! ### Globs -/

/-- The places of a retention glob. -/
def globPieces : List Char → List (Glob.Piece Char)
  | [] => []
  | '*' :: '*' :: pattern => .any :: globPieces pattern
  | '*' :: pattern => .inside :: globPieces pattern
  | '?' :: pattern => .one :: globPieces pattern
  | character :: pattern => .letter character :: globPieces pattern

theorem globStar_eq (rest : List Char → Bool) (skip : Char → Bool) :
    globStar rest skip = Glob.skipping rest skip := by
  funext value
  induction value with
  | nil => rfl
  | cons c value ih => rw [globStar, Glob.skipping, ih]

theorem globAt_eq (pattern : List Char) :
    globAt pattern = Glob.matchPieces '/' (globPieces pattern) := by
  fun_induction globPieces pattern with
  | case1 => rfl
  | case2 pattern ih =>
    funext value
    rw [globAt, globStar_eq, ih, Glob.matchPieces]
  | case3 pattern hnot ih =>
    funext value
    rw [globAt, globStar_eq, ih, Glob.matchPieces]
    exact hnot
  | case4 pattern ih =>
    funext value
    cases value with
    | nil => rfl
    | cons c value => rw [globAt, ih, Glob.matchPieces]
  | case5 character pattern hstars hstar hone ih =>
    funext value
    cases value with
    | nil =>
      rw [globAt, Glob.matchPieces]
      all_goals assumption
    | cons c value =>
      rw [globAt, ih, Glob.matchPieces]
      all_goals assumption

/-- The glob means the text: `**` stands for any text, `*` for one without a slash, `?` for one
character that is no slash. -/
def Denotes (glob value : String) : Prop :=
  Glob.PiecesMatch '/' (globPieces glob.toList) value.toList

theorem globMatches_iff {glob value : String} :
    globMatches glob value = true ↔ Denotes glob value := by
  rw [globMatches, globAt_eq, Glob.matchPieces_iff, Denotes]

/-! ### The governed versions -/

/-- The policy governs the version. -/
structure Governs (policy : RetentionPolicyRecord) (v : ObjectVersionRecord) : Prop where
  project : v.projectId = policy.projectId
  complete : v.state = .complete
  /-- Previews and yards look after their own files. -/
  unprotected : ∀ start ∈ [".blobyard-preview/", ".blobyard-yard/"],
    ¬start.toList <+: v.objectPath.toList
  path : ∀ glob ∈ policy.pathGlob, Denotes glob v.objectPath
  /-- A version without a branch fits no branch glob. -/
  branch : ∀ glob ∈ policy.branchGlob, ∃ branch ∈ v.gitBranch, Denotes glob branch

/-- `v` was created after `w`, or at the same time with a larger id. -/
def Newer (v w : ObjectVersionRecord) : Prop :=
  w.createdAtMs < v.createdAtMs ∨ w.createdAtMs = v.createdAtMs ∧ w.id < v.id

/-- The list is that of the governed versions of the repository, newest first. -/
structure NewestFirst (s : Repository) (policy : RetentionPolicyRecord)
    (governed : List ObjectVersionRecord) : Prop where
  mem : ∀ v, v ∈ governed ↔ v ∈ s.objectVersions ∧ Governs policy v
  order : governed.Pairwise Newer

theorem policyMatches_iff {policy : RetentionPolicyRecord} {v : ObjectVersionRecord} :
    policyMatches policy v ↔ (∀ glob ∈ policy.pathGlob, Denotes glob v.objectPath) ∧
      ∀ glob ∈ policy.branchGlob, ∃ branch ∈ v.gitBranch, Denotes glob branch := by
  rw [policyMatches]
  refine and_congr ?_ ?_
  · exact forall₂_congr fun glob _ => globMatches_iff
  · refine forall₂_congr fun glob _ => ?_
    cases hbranch : v.gitBranch with
    | none => simp
    | some branch => simp [globMatches_iff]

theorem protectedPath_iff {path : String} :
    ¬protectedPath path ↔ ∀ start ∈ [".blobyard-preview/", ".blobyard-yard/"],
      ¬start.toList <+: path.toList := by
  simp [protectedPath, hasPrefix, not_or]

theorem matchingVersions_spec (s : Repository) (policy : RetentionPolicyRecord) :
    NewestFirst s policy (s.matchingVersions policy) where
  mem v := by
    rw [matchingVersions, List.mem_filter, mem_orderBy, Table.mem_select, decide_eq_true_eq,
      protectedPath_iff, policyMatches_iff]
    constructor
    · rintro ⟨⟨hv, hproject, hstate⟩, hunprotected, hpath, hbranch⟩
      exact ⟨hv, hproject, hstate, hunprotected, hpath, hbranch⟩
    · rintro ⟨hv, hproject, hstate, hunprotected, hpath, hbranch⟩
      exact ⟨⟨hv, hproject, hstate⟩, hunprotected, hpath, hbranch⟩
  order := by
    refine List.Pairwise.filter _ ?_
    -- the order is strict: two versions of one age differ in their ids
    have hinj : ∀ a ∈ s.objectVersions.select fun v =>
          v.projectId = policy.projectId ∧ v.state = .complete,
        ∀ b ∈ s.objectVersions.select fun v =>
          v.projectId = policy.projectId ∧ v.state = .complete,
        toLex (OrderDual.toDual a.createdAtMs, OrderDual.toDual a.id) =
          toLex (OrderDual.toDual b.createdAtMs, OrderDual.toDual b.id) → a = b := by
      intro a ha b hb hab
      have hid : a.id = b.id := OrderDual.toDual_inj.mp (Prod.ext_iff.mp (toLex_inj.mp hab)).2
      exact Table.eq_of_key (Table.mem_select.mp ha).1 (Table.mem_select.mp hb).1 hid
    refine (orderBy_strict Table.select_nodup hinj).imp fun {a b} hlt => ?_
    rw [Prod.Lex.toLex_lt_toLex] at hlt
    -- newer, or of the same age with the greater id
    rcases hlt with hlt | ⟨heq, hlt⟩
    · exact Or.inl (OrderDual.toDual_lt_toDual.mp hlt)
    · exact Or.inr ⟨(OrderDual.toDual_inj.mp heq).symm, OrderDual.toDual_lt_toDual.mp hlt⟩

/-- There is one list of the governed versions, newest first. -/
theorem NewestFirst.unique {s : Repository} {policy : RetentionPolicyRecord}
    {governed governed' : List ObjectVersionRecord} (h : NewestFirst s policy governed)
    (h' : NewestFirst s policy governed') : governed = governed' := by
  have hasymm : ∀ v w, Newer v w → ¬Newer w v := by
    rintro v w (h₁ | ⟨h₁, h₂⟩) (h₃ | ⟨h₃, h₄⟩)
    · omega
    · omega
    · omega
    · exact lt_asymm h₂ h₄
  have hnodup : ∀ l : List ObjectVersionRecord, l.Pairwise Newer → l.Nodup := by
    intro l hl
    refine hl.imp ?_
    rintro a b hab rfl
    exact hasymm a a hab hab
  refine ((List.perm_ext_iff_of_nodup (hnodup _ h.order) (hnodup _ h'.order)).mpr fun v =>
    (h.mem v).trans (h'.mem v).symm).eq_of_pairwise ?_ h.order h'.order
  exact fun a b _ _ hab hba => absurd hba (hasymm a b hab)

/-! ### A new run -/

section Begun

variable {s s' : Repository} {o : DeletionOperationRow} {versions : List ObjectVersionRecord}

theorem mem_operationItems {operationId : String} {item : DeletionItem} :
    item ∈ s.operationItems operationId ↔ ⟨operationId, item⟩ ∈ s.deletionItems := by
  simp only [operationItems, mem_orderBy, List.mem_map, Table.mem_select]
  constructor
  · rintro ⟨⟨_, _⟩, ⟨hrow, rfl⟩, rfl⟩
    exact hrow
  · intro hrow
    exact ⟨_, ⟨hrow, rfl⟩, rfl⟩

/-- A new operation has the items of its versions. -/
theorem items_of_planned (h : PlansSound s) (hplanned : Planned s s' o versions)
    (item : DeletionItem) :
    item ∈ s'.operationItems o.id ↔ ∃ v ∈ versions, item = deletionItemOf v := by
  rw [mem_operationItems, hplanned.items]
  simp only [DeletionItemRow.mk.injEq, true_and]
  refine or_iff_right fun hold => ?_
  obtain ⟨o', ho', hid⟩ := h.owned _ hold
  exact hplanned.operation.fresh o' ho' hid

theorem operationItems_nodup (s : Repository) (operationId : String) :
    (s.operationItems operationId).Nodup := by
  refine orderBy_nodup (List.Nodup.map_on (fun a ha b hb hab => ?_) Table.select_nodup)
  obtain ⟨-, haid⟩ := Table.mem_select.mp ha
  obtain ⟨-, hbid⟩ := Table.mem_select.mp hb
  cases a
  cases b
  simp_all

/-- It has at most one for each. -/
theorem length_of_planned (h : PlansSound s) (hplanned : Planned s s' o versions) :
    (s'.operationItems o.id).length ≤ versions.length := by
  have hsub : s'.operationItems o.id ⊆ versions.map deletionItemOf := by
    intro item hitem
    obtain ⟨v, hv, rfl⟩ := (items_of_planned h hplanned item).mp hitem
    exact List.mem_map.mpr ⟨v, hv, rfl⟩
  have hle := (List.subperm_of_subset (operationItems_nodup s' o.id) hsub).length_le
  rwa [List.length_map] at hle

variable {projectId runId actor requestId : String} {startedAtMs : ℕ} {plan : DeletionPlan}

/-- A run that is not resumed. -/
structure Started (s s' : Repository) (projectId runId : String) (plan : DeletionPlan)
    (policy : RetentionPolicyRecord) (governed : List ObjectVersionRecord) : Prop where
  enabled : ∃ row ∈ s.retentionPolicies, row.enabled = true ∧ row.policy = policy ∧
    policy.projectId = projectId
  newestFirst : NewestFirst s policy governed
  open_ : plan.id = runId ∧ plan.complete = false
  items : ∀ item, item ∈ plan.items ↔
    ∃ v ∈ governed.drop policy.keepLatest, item = deletionItemOf v
  operation : ∃ o, Planned s s' o (governed.drop policy.keepLatest) ∧ o.reason = .retention ∧
    o.id = runId ∧ o.projectId = projectId
  run : ∃ run, s.retentionRuns.Inserted s'.retentionRuns run ∧ run.id = runId ∧
    run.projectId = projectId ∧ run.candidateCount = governed.length ∧ run.deletedCount = 0

theorem retentionPolicy_eq_ok {policy : RetentionPolicyRecord}
    (h : s.retentionPolicy projectId = .ok policy) :
    ∃ row ∈ s.retentionPolicies, row.enabled = true ∧ row.policy = policy ∧
      policy.projectId = projectId := by
  simp only [retentionPolicy, bind_eq_ok, pure_eq_ok, requireRow_eq_ok,
    Option.filter_eq_some_iff, Table.find?_eq_some] at h
  obtain ⟨-, -, row, ⟨⟨hrow, hproject⟩, henabled⟩, rfl⟩ := h
  exact ⟨row, hrow, henabled, rfl, hproject⟩

/-- The row of a new run. -/
theorem beginRetention_run {policy : RetentionPolicyRecord}
    (hnone : s.pendingRetention projectId = none) (hpolicy : s.retentionPolicy projectId = .ok policy)
    (h : s.beginRetention projectId runId actor requestId startedAtMs = .ok (plan, s')) :
    ∃ run, s.retentionRuns.Inserted s'.retentionRuns run ∧ run.id = runId ∧
      run.projectId = projectId ∧ run.candidateCount = (s.matchingVersions policy).length ∧
      run.deletedCount = 0 := by
  simp only [beginRetention, bind_eq_ok, hnone, hpolicy, pure_eq_ok, Prod.mk.injEq,
    insertRow_eq_ok] at h
  obtain ⟨-, -, _, hsame, -, -, runs, hrun, s₁, hs₁, s₂, hs₂, -, -, -, rfl⟩ := h
  obtain rfl := Except.ok.inj hsame
  obtain ⟨operations, rfl, -⟩ := insertOperation_spec hs₁
  obtain ⟨items, rfl, -⟩ := insertItems_spec hs₂
  exact ⟨_, Table.inserted_of_insert hrun, rfl, rfl, rfl, rfl⟩

theorem beginRetention_plan (hsound : PlansSound s) (hnone : s.pendingRetention projectId = none)
    (h : s.beginRetention projectId runId actor requestId startedAtMs = .ok (plan, s')) :
    ∃ policy governed, Started s s' projectId runId plan policy governed := by
  rcases beginRetention_cases h with ⟨o, hpending, -, -⟩ | ⟨-, policy, hpolicy, hplanned, rfl⟩
  · rw [hnone] at hpending
    cases hpending
  · exact ⟨policy, s.matchingVersions policy,
      { enabled := retentionPolicy_eq_ok hpolicy
        newestFirst := matchingVersions_spec s policy
        open_ := ⟨rfl, rfl⟩
        items := items_of_planned hsound hplanned
        operation := ⟨_, hplanned, rfl, rfl, rfl⟩
        run := beginRetention_run hnone hpolicy h }⟩

end Begun

/-! ### The counts of a run -/

section Counts

variable {s s' : Repository}

/-- No run deletes more than its candidates, and no plan is larger than those of its run. -/
structure CountsSound (s : Repository) : Prop where
  deleted : ∀ run ∈ s.retentionRuns, run.deletedCount ≤ run.candidateCount
  planned : ∀ o ∈ s.deletionOperations, o.reason = .retention →
    ∃ run ∈ s.retentionRuns, run.id = o.id ∧
      (s.operationItems o.id).length ≤ run.candidateCount

/-- What a request can do to the runs. -/
inductive RunsStep (s s' : Repository) : Prop
  /-- A run keeps its candidates; its count is that of a plan that was finished. -/
  | marked {f : RetentionRunRecord → RetentionRunRecord} :
    s.retentionRuns.Mapped s'.retentionRuns f →
    (∀ run, (f run).id = run.id ∧ (f run).candidateCount = run.candidateCount ∧
      ((f run).deletedCount = run.deletedCount ∨
        ∃ o ∈ s.deletionOperations, o.reason = .retention ∧ o.id = run.id ∧
          (f run).deletedCount = (s.operationItems o.id).length)) →
    (∀ o ∈ s'.deletionOperations, o.reason = .retention →
      ∃ o' ∈ s.deletionOperations, o'.id = o.id ∧ o'.reason = .retention) → RunsStep s s'
  | started {o : DeletionOperationRow} {versions : List ObjectVersionRecord}
    {run : RetentionRunRecord} :
    Planned s s' o versions → s.retentionRuns.Inserted s'.retentionRuns run → run.id = o.id →
    versions.length ≤ run.candidateCount → run.deletedCount = 0 → RunsStep s s'

theorem CountsSound.step (h : CountsSound s) (hsound : PlansSound s) (hplan : PlanStep s s')
    (hstep : RunsStep s s') : CountsSound s' := by
  cases hstep with
  -- runs change in their counts only, and a count is set by finishing a plan
  | @marked f hmapped hf hold =>
    refine ⟨fun run hrun => ?_, fun o ho hreason => ?_⟩
    · obtain ⟨run, hold', rfl⟩ := hmapped.mem_iff.mp hrun
      obtain ⟨-, hcandidates, hdeleted⟩ := hf run
      rw [hcandidates]
      -- the plan that was finished has as many items as the run had candidates at most
      rcases hdeleted with hdeleted | ⟨o, ho, hreason, hid, hdeleted⟩
      · rw [hdeleted]
        exact h.deleted run hold'
      · obtain ⟨run', hrun', hid', hle⟩ := h.planned o ho hreason
        obtain rfl := Table.eq_of_key hrun' hold' (hid'.trans hid)
        rw [hdeleted]
        exact hle
    · obtain ⟨o', ho', hid, hreason'⟩ := hold o ho hreason
      obtain ⟨run, hrun, hrunid, hle⟩ := h.planned o' ho' hreason'
      obtain ⟨hfid, hcandidates, -⟩ := hf run
      refine ⟨f run, hmapped.mem_of_mem hrun, hfid.trans (hrunid.trans hid), ?_⟩
      rw [hcandidates, ← hid, (hplan.kept ho').1]
      exact hle
  -- the new run has removed nothing yet, and its plan takes no more than its candidates
  | @started o versions run hplanned hrun hid hcandidates hdeleted =>
    refine ⟨fun x hx => ?_, fun x hx hreason => ?_⟩
    · rcases (hrun.mem x).mp hx with hx | rfl
      · exact h.deleted x hx
      · rw [hdeleted]
        exact Nat.zero_le _
    -- a plan of before, with its own run, or the new plan
    · rcases (hplanned.operation.mem x).mp hx with hx | rfl
      · obtain ⟨run', hrun', hid', hle⟩ := h.planned x hx hreason
        refine ⟨run', hrun.mem_of_mem hrun', hid', ?_⟩
        rw [(hplan.kept hx).1]
        exact hle
      · have hle := length_of_planned hsound hplanned
        exact ⟨run, hrun.mem_new, hid, hle.trans hcandidates⟩

/-- A request that plans no retention and leaves the runs alone. -/
theorem RunsStep.of_same (hruns : s'.retentionRuns = s.retentionRuns)
    (hold : ∀ o ∈ s'.deletionOperations, o.reason = .retention → o ∈ s.deletionOperations) :
    RunsStep s s' := by
  refine .marked (f := id) (hruns ▸ Table.Mapped.refl _)
    (fun run => ⟨rfl, rfl, Or.inl rfl⟩) fun o ho hreason => ?_
  exact ⟨o, hold o ho hreason, rfl, hreason⟩

theorem RunsStep.of_planned {o : DeletionOperationRow} {versions : List ObjectVersionRecord}
    (hruns : s'.retentionRuns = s.retentionRuns) (hplanned : Planned s s' o versions)
    (hreason : o.reason ≠ .retention) : RunsStep s s' := by
  refine .of_same hruns fun x hx hxr => ?_
  rcases (hplanned.operation.mem x).mp hx with hx | rfl
  · exact hx
  · exact absurd hxr hreason

theorem operationItems_length (s : Repository) (operationId : String) :
    (s.operationItems operationId).length =
      s.deletionItems.count fun row => row.operationId = operationId := by
  rw [operationItems, (orderBy_perm _ _).length_eq, List.length_map, Table.select,
    Table.count, List.countP_eq_length_filter]

/-- Finishing a plan marks its run, if it has one. -/
theorem finishDeletion_runsStep {operationId : String} {completedAtMs : ℕ} {event : NewAuditEvent}
    (h : s.finishDeletion operationId completedAtMs event = .ok s') : RunsStep s s' := by
  have hspec := finishDeletion_spec h
  simp only [finishDeletion, bind_eq_ok, requireRow_eq_ok, Table.find?_eq_some] at h
  obtain ⟨-, -, -, -, o, ⟨ho, rfl⟩, h⟩ := h
  -- finishing closes an operation and opens none
  have hold : ∀ x ∈ s'.deletionOperations, x.reason = .retention →
      ∃ x' ∈ s.deletionOperations, x'.id = x.id ∧ x'.reason = .retention := by
    intro x hx hreason
    rcases hspec with rfl | ⟨o', -, hfinished⟩
    · exact ⟨x, hx, rfl, hreason⟩
    · rcases (hfinished.operation.mem x).mp hx with ⟨hx, -⟩ | rfl
      · exact ⟨x, hx, rfl, hreason⟩
      · exact ⟨o', hfinished.operation.mem_old, rfl, hreason⟩
  -- finished before: nothing changes
  split at h
  · obtain rfl := pure_eq_ok.mp h
    exact .of_same rfl fun _ hx _ => hx
  · simp only [bind_eq_ok] at h
    obtain ⟨-, -, h⟩ := h
    obtain ⟨auditEvents, rfl⟩ := insertAudit_spec h
    obtain ⟨⟨_, _, _, _, _, _, _, hframe⟩, -, -⟩ := deleteSelectedMetadata_spec s o
    rw [hframe] at hold ⊢
    -- a plan of a rule marks its run with the number of its items
    by_cases hreason : o.reason = .retention
    · rw [completeRun, if_pos hreason] at hold ⊢
      refine .marked Table.mapped_update (fun run => ?_) hold
      split
      · rename_i hid
        exact ⟨rfl, rfl, Or.inr ⟨o, ho, hreason, hid.symm, (operationItems_length s o.id).symm⟩⟩
      · exact ⟨rfl, rfl, Or.inl rfl⟩
    -- the plan of a user has no run
    · rw [completeRun, if_neg hreason] at hold ⊢
      refine .marked (f := id) (Table.Mapped.refl _) (fun run => ⟨rfl, rfl, Or.inl rfl⟩) hold

theorem beginRetention_runsStep {projectId runId actor requestId : String} {startedAtMs : ℕ}
    {plan : DeletionPlan} (hsound : PlansSound s)
    (h : s.beginRetention projectId runId actor requestId startedAtMs = .ok (plan, s')) :
    RunsStep s s' := by
  cases hpending : s.pendingRetention projectId with
  | none =>
    obtain ⟨policy, governed, hstarted⟩ := beginRetention_plan hsound hpending h
    obtain ⟨o, hplanned, -, hid, -⟩ := hstarted.operation
    obtain ⟨run, hrun, hrunid, -, hcandidates, hdeleted⟩ := hstarted.run
    refine .started hplanned hrun (hrunid.trans hid.symm) ?_ hdeleted
    rw [hcandidates, List.length_drop]
    omega
  | some o =>
    simp only [beginRetention, bind_eq_ok, hpending, pure_eq_ok, Prod.mk.injEq] at h
    obtain ⟨-, -, _, -, -, rfl⟩ := h
    refine .marked Table.mapped_update (fun run => ?_) fun x hx hreason => ⟨x, hx, rfl, hreason⟩
    split <;> exact ⟨rfl, rfl, Or.inl rfl⟩

theorem failRetention_runsStep {runId : String} {completedAtMs : ℕ}
    (h : s.failRetention runId completedAtMs = .ok s') : RunsStep s s' := by
  simp only [failRetention, bind_eq_ok, pure_eq_ok] at h
  obtain ⟨-, -, -, -, -, -, rfl⟩ := h
  refine .marked Table.mapped_update (fun run => ?_) fun x hx hreason => ⟨x, hx, rfl, hreason⟩
  split <;> exact ⟨rfl, rfl, Or.inl rfl⟩

theorem runsStep_of_run {request : DeletionRequest} (hsound : PlansSound s)
    (h : request.run s = .ok s') : RunsStep s s' := by
  cases request with
  | beginObjectDeletion value =>
    obtain ⟨⟨_, _⟩, hrun, rfl⟩ := map_eq_ok.mp h
    rcases beginObjectDeletion_spec hrun with rfl | ⟨_, _, o, rfl, hreason, -, -, hplanned⟩
    · exact .of_same rfl fun _ hx _ => hx
    · exact .of_planned rfl hplanned (by simp [hreason])
  | beginRetention projectId runId actor requestId startedAtMs =>
    obtain ⟨⟨_, _⟩, hrun, rfl⟩ := map_eq_ok.mp h
    exact beginRetention_runsStep hsound hrun
  | planYardCleanup deployId createdAtMs =>
    rcases planYardCleanup_spec h with rfl | ⟨_, _, o, versions, rfl, hreason, hplanned⟩
    · exact .of_same rfl fun _ hx _ => hx
    · exact .of_planned rfl hplanned (by simp [hreason])
  | finishDeletion operationId completedAtMs event => exact finishDeletion_runsStep h
  | setRetention policy event =>
    obtain ⟨_, _, rfl⟩ := setRetention_frame h
    exact .of_same rfl fun _ hx _ => hx
  | clearRetention projectId updatedAtMs event =>
    obtain ⟨⟨_, _⟩, hrun, rfl⟩ := map_eq_ok.mp h
    obtain ⟨_, _, rfl⟩ := clearRetention_frame hrun
    exact .of_same rfl fun _ hx _ => hx
  | failRetention runId completedAtMs => exact failRetention_runsStep h

end Counts

/-! ### Requests and runs -/

/-- The requests on plans and policies, the two halves of an enforcement, or any change of the
tables that hold neither plans nor runs. -/
inductive Request where
  | deletion (request : DeletionRequest)
  | start (projectId : String) (draw : EnforcementDraw)
  | enforce (delete : StorageKey → Except StorageError Unit) (workspaceId : String)
    (plan : DeletionPlan) (draw : EnforcementDraw)
  | environment (other : Repository)

/-- Executes a request; what fails leaves the repository as it was, but for the mark of a failed
run. -/
def exec (s : Repository) : Request → Repository
  | .deletion request =>
    match request.run s with
    | .ok s' => s'
    | .error _ => s
  | .start projectId draw =>
    match enforceStart s projectId draw with
    | .ok (_, s') => s'
    | .error _ => s
  | .enforce delete workspaceId plan draw => (enforcePlan s delete workspaceId plan draw).2
  | .environment other =>
    { other with
      deletionOperations := s.deletionOperations, deletionItems := s.deletionItems
      retentionRuns := s.retentionRuns }

/-- Requests in any order, from an empty repository. -/
def system : System Repository Request where
  init := Repository.empty
  step s request s' := s' = exec s request

variable {s s' s'' : Repository}

/-- A request does nothing to plans and runs, or what one deletion request does. -/
theorem exec_cases (s : Repository) (request : Request) :
    (SamePlans s (exec s request) ∧ (exec s request).retentionRuns = s.retentionRuns) ∨
      ∃ deletion : DeletionRequest, deletion.run s = .ok (exec s request) := by
  cases request with
  | deletion request =>
    simp only [exec]
    -- refused, the request leaves the state as it was
    split
    · rename_i hrun
      exact Or.inr ⟨request, hrun⟩
    · exact Or.inl ⟨⟨rfl, rfl⟩, rfl⟩
  | start projectId draw =>
    simp only [exec]
    -- only the transaction that begins the run may change the state
    split
    · rename_i hrun
      simp only [enforceStart, bind_eq_ok, pure_eq_ok, Prod.mk.injEq] at hrun
      obtain ⟨workspaceId, -, ⟨plan, s₁⟩, hbegin, -, rfl⟩ := hrun
      exact Or.inr ⟨.beginRetention projectId draw.runId "system:retention" draw.requestId
        draw.startedAtMs, map_eq_ok.mpr ⟨_, mapError_eq_ok.mp hbegin, rfl⟩⟩
    · exact Or.inl ⟨⟨rfl, rfl⟩, rfl⟩
  | enforce delete workspaceId plan draw =>
    simp only [exec]
    -- the objects were removed: the plan stays open, fails, or is finished
    rcases enforcePlan_spec s delete workspaceId plan draw with hsame | hfail | ⟨_, _, -, hfinish⟩
    · rw [hsame]
      exact Or.inl ⟨⟨rfl, rfl⟩, rfl⟩
    · exact Or.inr ⟨.failRetention plan.id draw.startedAtMs, hfail⟩
    · exact Or.inr ⟨.finishDeletion plan.id _ _, hfinish⟩
  | environment other => exact Or.inl ⟨⟨rfl, rfl⟩, rfl⟩

theorem exec_planStep (s : Repository) (request : Request) : PlanStep s (exec s request) := by
  rcases exec_cases s request with ⟨hsame, -⟩ | ⟨deletion, hrun⟩
  · exact .same hsame
  · exact deletion.planStep hrun

theorem exec_runsStep (hsound : PlansSound s) (request : Request) :
    RunsStep s (exec s request) := by
  rcases exec_cases s request with ⟨⟨hoperations, -⟩, hruns⟩ | ⟨deletion, hrun⟩
  · exact .of_same hruns fun o ho _ => hoperations ▸ ho
  · exact runsStep_of_run hsound hrun

/-- Plans stand where they may, and the counts are right. -/
def Sound (s : Repository) : Prop := PlansSound s ∧ CountsSound s

theorem sound_init : Sound Repository.empty :=
  ⟨plansSound_init, fun _ h => absurd h Table.not_mem_empty, fun _ h => absurd h Table.not_mem_empty⟩

theorem sound_step (h : Sound s) (request : Request) : Sound (exec s request) :=
  ⟨h.1.step (exec_planStep s request),
    h.2.step h.1 (exec_planStep s request) (exec_runsStep h.1 request)⟩

theorem sound_run (h : Run system (fun _ _ => True) s) : Sound s := by
  refine Run.inv (P := Sound) sound_init ?_ h
  rintro s request _ hs - rfl
  exact sound_step hs request

theorem sound_steps (h : Steps system (fun _ _ => True) s s') (hs : Sound s) : Sound s' := by
  refine h.preserves (P := Sound) ?_ hs
  rintro t request _ ht - rfl
  exact sound_step ht request

theorem kept_of_steps (h : Steps system (fun _ _ => True) s s') {o : DeletionOperationRow}
    (ho : o ∈ s.deletionOperations) : PlanKept s s' o := by
  refine h.preserves (P := fun t => PlanKept s t o) ?_ ⟨rfl, Or.inl ho⟩
  rintro t request _ ht - rfl
  exact ht.trans fun _ ho' => (exec_planStep t request).kept ho'

/-! ### A run that is taken up again -/

section Resumed

variable {projectId runId actor requestId : String} {startedAtMs : ℕ} {plan : DeletionPlan}

/-- The operation that a run works from. -/
theorem operation_of_begin
    (h : s.beginRetention projectId runId actor requestId startedAtMs = .ok (plan, s')) :
    ∃ o ∈ s'.deletionOperations, o.projectId = projectId ∧ o.reason = .retention ∧
      plan = s'.planOf o := by
  rcases beginRetention_cases h with ⟨o, hpending, ⟨hoperations, -⟩, hplan⟩ |
    ⟨-, policy, -, hplanned, hplan⟩
  · obtain ⟨ho, hproject, hreason, -⟩ := Table.mem_select.mp (List.mem_of_head? hpending)
    exact ⟨o, hoperations ▸ ho, hproject, hreason, hplan⟩
  · exact ⟨_, hplanned.operation.mem_new, rfl, rfl, hplan⟩

theorem sound_of_begin (hsound : Sound s)
    (h : s.beginRetention projectId runId actor requestId startedAtMs = .ok (plan, s')) :
    Sound s' := by
  have hrun : (DeletionRequest.beginRetention projectId runId actor requestId startedAtMs).run s =
      .ok s' := map_eq_ok.mpr ⟨_, h, rfl⟩
  exact ⟨hsound.1.step (DeletionRequest.planStep hrun),
    hsound.2.step hsound.1 (DeletionRequest.planStep hrun) (runsStep_of_run hsound.1 hrun)⟩

/-- A pending retention operation is the one that is found. -/
theorem pendingRetention_of_mem (hsound : PlansSound s) {o : DeletionOperationRow}
    (ho : o ∈ s.deletionOperations) (hreason : o.reason = .retention)
    (hpending : o.complete = false) : s.pendingRetention o.projectId = some o := by
  cases hfound : s.pendingRetention o.projectId with
  | none =>
    have hcomplete := pendingRetention_eq_none.mp hfound o ho hreason rfl
    rw [hpending] at hcomplete
    cases hcomplete
  | some o' =>
    obtain ⟨ho', hproject', hreason', hpending'⟩ := Table.mem_select.mp (List.mem_of_head? hfound)
    rw [hsound.retentions o ho o' ho' hreason hreason' hpending hpending' hproject']

/-- Until its operation is finished, a run that is begun again works from the same plan. -/
theorem begin_of_pending (hsound : Sound s)
    (hbegin : s.beginRetention projectId runId actor requestId startedAtMs = .ok (plan, s'))
    (hsteps : Steps system (fun _ _ => True) s' s'')
    (hpending : ∃ o ∈ s''.deletionOperations, o.id = plan.id ∧ o.complete = false)
    {runId' actor' requestId' : String} (startedAtMs' : ℕ)
    (htexts : validateTexts [projectId, runId', actor', requestId'] = .ok ()) :
    ∃ t, s''.beginRetention projectId runId' actor' requestId' startedAtMs' = .ok (plan, t) ∧
      SamePlans s'' t := by
  obtain ⟨o, ho, rfl, hreason, rfl⟩ := operation_of_begin hbegin
  obtain ⟨hitems, hrow⟩ := kept_of_steps hsteps ho
  obtain ⟨x, hx, hid, hopen⟩ := hpending
  have hkept : o ∈ s''.deletionOperations ∧ o.complete = false := by
    rcases hrow with hmem | ⟨-, completedAtMs, hmem⟩
    · obtain rfl := Table.eq_of_key hx hmem hid
      exact ⟨hmem, hopen⟩
    · obtain rfl := Table.eq_of_key hx hmem hid
      cases hopen
  have hsound'' := sound_steps hsteps (sound_of_begin hsound hbegin)
  have hfound := pendingRetention_of_mem hsound''.1 hkept.1 hreason hkept.2
  have hplan : s''.planOf o = s'.planOf o := by rw [planOf, planOf, hitems]
  simp only [beginRetention, bind_eq_ok, hfound, pure_eq_ok]
  refine ⟨_, ⟨(), htexts, s'.planOf o, ?_, rfl⟩, rfl, rfl⟩
  exact hplan ▸ deletionPlan_of_mem (s := { s'' with retentionRuns := _ }) hkept.1

/-- A plan is never larger than the candidates of its run, now and later. -/
theorem run_of_begin (hsound : Sound s)
    (hbegin : s.beginRetention projectId runId actor requestId startedAtMs = .ok (plan, s'))
    (hsteps : Steps system (fun _ _ => True) s' s'') :
    ∃ run ∈ s''.retentionRuns, run.id = plan.id ∧ plan.items.length ≤ run.candidateCount := by
  obtain ⟨o, ho, -, hreason, rfl⟩ := operation_of_begin hbegin
  obtain ⟨hitems, hrow⟩ := kept_of_steps hsteps ho
  have hcounts := (sound_steps hsteps (sound_of_begin hsound hbegin)).2
  have hkept : ∃ x ∈ s''.deletionOperations, x.id = o.id ∧ x.reason = .retention := by
    rcases hrow with hmem | ⟨-, completedAtMs, hmem⟩
    · exact ⟨o, hmem, rfl, hreason⟩
    · exact ⟨_, hmem, rfl, hreason⟩
  obtain ⟨x, hx, hid, hxreason⟩ := hkept
  obtain ⟨run, hrun, hrunid, hle⟩ := hcounts.planned x hx hxreason
  refine ⟨run, hrun, hrunid.trans hid, ?_⟩
  rw [hid, hitems] at hle
  exact hle

end Resumed

/-! ### The policy while a run is pending -/

/-- A pending run of the project refuses a new policy. -/
theorem setRetention_refused {policy : RetentionPolicyRecord} (event : NewAuditEvent)
    (hpending : s.pendingRetention policy.projectId ≠ none) :
    (∀ s', s.setRetention policy event ≠ .ok s') ∧
      (validatePolicy policy = .ok () →
        s.assertProjectEvent policy.projectId event "retention.policy_set" = .ok () →
        s.setRetention policy event = .error .conflict) := by
  refine ⟨fun s' h => ?_, fun hvalid hevent => ?_⟩
  · simp only [setRetention, bind_eq_ok, ensure_eq_ok] at h
    obtain ⟨-, -, -, -, -, hnone, -⟩ := h
    exact hpending hnone
  · simp only [setRetention, bind_eq_error, hvalid, hevent, ensure_eq_error]
    exact Or.inr ⟨(), trivial, Or.inr ⟨(), trivial, Or.inl ⟨hpending, trivial⟩⟩⟩

/-- It refuses to have the policy cleared. -/
theorem clearRetention_refused {projectId : String} (updatedAtMs : ℕ) (event : NewAuditEvent)
    (hpending : s.pendingRetention projectId ≠ none) :
    (∀ result, s.clearRetention projectId updatedAtMs event ≠ .ok result) ∧
      (ValidText projectId →
        s.assertProjectEvent projectId event "retention.policy_cleared" = .ok () →
        s.clearRetention projectId updatedAtMs event = .error .conflict) := by
  refine ⟨fun result h => ?_, fun hvalid hevent => ?_⟩
  · simp only [clearRetention, bind_eq_ok, ensure_eq_ok] at h
    obtain ⟨-, -, -, -, -, hnone, -⟩ := h
    exact hpending hnone
  · simp only [clearRetention, bind_eq_error, hevent, ensure_eq_error]
    exact Or.inr ⟨(), validateText_eq_ok.mpr hvalid,
      Or.inr ⟨(), trivial, Or.inl ⟨hpending, trivial⟩⟩⟩

/-! ### The law over runs -/

structure Lawful (s : Repository) : Prop where
  /-- A run that is not resumed plans the governed versions but the newest ones. -/
  planned : ∀ projectId runId actor requestId startedAtMs plan s',
    s.beginRetention projectId runId actor requestId startedAtMs = .ok (plan, s') →
    (∀ o ∈ s.deletionOperations, o.reason = .retention → o.projectId = projectId →
      o.complete = true) →
    ∃ policy governed, Started s s' projectId runId plan policy governed
  /-- A run works from its plan until its operation is finished. -/
  resumed : ∀ projectId runId actor requestId startedAtMs plan s',
    s.beginRetention projectId runId actor requestId startedAtMs = .ok (plan, s') →
    ∀ s'', Steps system (fun _ _ => True) s' s'' →
      (∃ o ∈ s''.deletionOperations, o.id = plan.id ∧ o.complete = false) →
      ∀ runId' actor' requestId' startedAtMs',
        validateTexts [projectId, runId', actor', requestId'] = .ok () →
        ∃ t, s''.beginRetention projectId runId' actor' requestId' startedAtMs' = .ok (plan, t) ∧
          SamePlans s'' t
  /-- While it is pending, the policy is neither set nor cleared. -/
  refused : ∀ o ∈ s.deletionOperations, o.reason = .retention → o.complete = false →
    (∀ policy : RetentionPolicyRecord, policy.projectId = o.projectId → ∀ event,
      (∀ s', s.setRetention policy event ≠ .ok s') ∧
        (validatePolicy policy = .ok () →
          s.assertProjectEvent policy.projectId event "retention.policy_set" = .ok () →
          s.setRetention policy event = .error .conflict)) ∧
    ∀ updatedAtMs event,
      (∀ result, s.clearRetention o.projectId updatedAtMs event ≠ .ok result) ∧
        (ValidText o.projectId →
          s.assertProjectEvent o.projectId event "retention.policy_cleared" = .ok () →
          s.clearRetention o.projectId updatedAtMs event = .error .conflict)
  deleted : ∀ run ∈ s.retentionRuns, run.deletedCount ≤ run.candidateCount
  /-- Nor does the event of its end count more than the candidates. -/
  reported : ∀ projectId runId actor requestId startedAtMs plan s',
    s.beginRetention projectId runId actor requestId startedAtMs = .ok (plan, s') →
    ∀ s'', Steps system (fun _ _ => True) s' s'' →
      ∃ run ∈ s''.retentionRuns, run.id = plan.id ∧ ∀ delete workspaceId draw,
        (enforcePlan s'' delete workspaceId plan draw).2 = s'' ∨
        s''.failRetention plan.id draw.startedAtMs =
          .ok (enforcePlan s'' delete workspaceId plan draw).2 ∨
        ∃ deletedCount completedAtMs, deletedCount ≤ run.candidateCount ∧
          s''.finishDeletion plan.id completedAtMs
              (retentionEvent workspaceId plan deletedCount draw.eventId completedAtMs) =
            .ok (enforcePlan s'' delete workspaceId plan draw).2

theorem retention_law (h : Run system (fun _ _ => True) s) : Lawful s where
  planned projectId runId actor requestId startedAtMs plan s' hbegin hnone :=
    beginRetention_plan (sound_run h).1 (pendingRetention_eq_none.mpr hnone) hbegin
  resumed projectId runId actor requestId startedAtMs plan s' hbegin s'' hsteps hpending runId'
      actor' requestId' startedAtMs' htexts :=
    begin_of_pending (sound_run h) hbegin hsteps hpending startedAtMs' htexts
  refused o ho hreason hpending := by
    have hfound := pendingRetention_of_mem (sound_run h).1 ho hreason hpending
    have hsome : s.pendingRetention o.projectId ≠ none := by
      rw [hfound]
      exact Option.some_ne_none o
    refine ⟨fun policy hproject event => ?_, fun updatedAtMs event => ?_⟩
    · exact setRetention_refused event (hproject ▸ hsome)
    · exact clearRetention_refused updatedAtMs event hsome
  deleted := (sound_run h).2.deleted
  reported projectId runId actor requestId startedAtMs plan s' hbegin s'' hsteps := by
    obtain ⟨run, hrun, hid, hle⟩ := run_of_begin (sound_run h) hbegin hsteps
    refine ⟨run, hrun, hid, fun delete workspaceId draw => ?_⟩
    rcases enforcePlan_spec s'' delete workspaceId plan draw with hsame | hfail |
      ⟨deletedCount, completedAtMs, hcount, hfinish⟩
    · exact Or.inl hsame
    · exact Or.inr (Or.inl hfail)
    · exact Or.inr (Or.inr ⟨deletedCount, completedAtMs, hcount.trans hle, hfinish⟩)

/-! ### Two versions of a path -/

/-- The upload of one byte at `log.txt` is completed. -/
def uploaded (id : String) (digit : Char) (createdAtMs : ℕ) : List UploadRequest :=
  [.reserveUpload
    { id, projectId := "p", objectPath := "log.txt", filename := "log.txt"
      contentType := "text/plain", expectedSize := 1, expectedChecksum := repeatedDigit 'd'
      storageKey := "versions/p/" ++ id, capabilityHash := repeatedDigit digit
      expiresAtMs := createdAtMs + 60, createdAtMs, source := .cli, gitRepository := none
      gitCommit := none, gitBranch := some "main", strategy := .single, partSize := none
      partCount := none },
   .recordUploadedBytes id 1 (repeatedDigit 'd'),
   .completeUpload id]

/-- A repository with two versions of the path. -/
def logged : Repository :=
  let requests : List UploadRequest :=
    [.createWorkspace { id := "w", name := "Mill", slug := ⟨"mill", by decide⟩ },
     .createProject
       { id := "p", workspaceId := "w", name := "Logs", slug := ⟨"logs", by decide⟩ }]
  (requests ++ uploaded "u1" '1' 1 ++ uploaded "u2" '2' 1).foldl
    (fun s request =>
      match request.run s with
      | .ok (_, s') => s'
      | .error _ => s)
    Repository.empty

/-- The project keeps one version of each log, and a run is begun. -/
def retained : List Request :=
  [.environment logged,
   .deletion (.setRetention
     { projectId := "p", keepLatest := 1, pathGlob := some "**.txt", branchGlob := some "ma?n"
       createdAtMs := 2, updatedAtMs := 2 }
     { id := "e", workspaceId := "w", actor := "owner", action := "retention.policy_set"
       requestId := "r", targetType := "retention_policy", metadata := [], createdAtMs := 2 }),
   .start "p" { runId := "n", requestId := "q", startedAtMs := 3, eventId := "f"
                completedAtMs := some 4 }]

/-- The older of the two versions is planned, and the state is lawful. -/
theorem lawful_retained :
    ((retained.foldl exec Repository.empty).plannedIds "n" = ["u1"] ∧
      (retained.foldl exec Repository.empty).retentionRuns.rows.map
        RetentionRunRecord.candidateCount = [2]) ∧
      Lawful (retained.foldl exec Repository.empty) :=
  ⟨by decide +kernel, retention_law (Run.ofList_true (fun _ _ => rfl) Run.init _)⟩

end RetentionRuns

end BlobYard
