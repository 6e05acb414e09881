/-
The deploy state machine of a yard.

A yard row names its current deploy while each deploy row carries its own status, and
one transaction may rewrite the statuses of several deploys.  This file runs the deploy
operations in any order and shows what they keep in common:

* `Consistent` — the invariant that couples the yard rows with their deploy rows;
* `Consistent.settle`, `Consistent.takeOver` — the two ways in which the deploys of a yard
  change: without touching the live one, or by handing over to another;
* `terminalCount_pruneHistory` — pruning leaves at most `historyDepth` terminal deploys;
* `status_of_late_finalise` — when a deploy that is finalised late is pruned at once;
* `deploy_law` — the state machine over runs;
* `late_finalise_is_pruned` — a deploy that is finalised after many newer ones were started
  never becomes superseded.
-/
import BlobYard.Lib.Run
import BlobYard.Repository.Requests
import BlobYard.Repository.YardDeploys

namespace BlobYard

open Outcome Repository

namespace YardDeploys

/-! ### Requests and runs -/

/-- The requests on deploys, or any other change of the remaining tables. -/
inductive Request where
  | start (yard : NewWebYard) (deploy : NewYardDeploy) (event : NewAuditEvent)
  | finalise (deployId : String) (files : List NewYardFile) (finalisedAtMs : ℕ)
    (event : NewAuditEvent)
  | fail (deployId code message : String) (failedAtMs : ℕ)
  | rollback (yardId : String) (deployId : Option String) (rolledBackAtMs : ℕ)
    (event : NewAuditEvent)
  | delete (yardId : String) (deletedAtMs : ℕ) (event : NewAuditEvent)
  | environment (other : Repository)

def Request.run (s : Repository) : Request → Except RepositoryError Repository
  | .start yard deploy event => Prod.snd <$> s.startYardDeploy yard deploy event
  | .finalise deployId files finalisedAtMs event =>
    Prod.snd <$> s.finaliseYardDeploy deployId files finalisedAtMs event
  | .fail deployId code message failedAtMs =>
    Prod.snd <$> s.failYardDeploy deployId code message failedAtMs
  | .rollback yardId deployId rolledBackAtMs event =>
    Prod.snd <$> s.rollbackWebYard yardId deployId rolledBackAtMs event
  | .delete yardId deletedAtMs event => Prod.snd <$> s.deleteWebYard yardId deletedAtMs event
  | .environment other => .ok { other with webYards := s.webYards, yardDeploys := s.yardDeploys }

/-- A request that fails leaves everything as it was. -/
def exec (s : Repository) (request : Request) : Repository :=
  match request.run s with
  | .ok s' => s'
  | .error _ => s

/-- Requests in any order, from an empty repository. -/
def system : System Repository Request where
  init := Repository.empty
  step s request s' := s' = exec s request

/-! ### The invariant -/

variable {yards yards' : Table WebYardRecord.id} {deploys deploys' : Table YardDeployRow.id}

/-- The yard rows agree with the deploy rows: the live deploy of a yard is its current one,
the current deploy is live, a deleted yard has only pruned deploys, and an active yard with a
finalised deploy has a current one. -/
structure Consistent (yards : Table WebYardRecord.id) (deploys : Table YardDeployRow.id) :
    Prop where
  owned : ∀ d ∈ deploys, ∃ y ∈ yards, y.id = d.yardId
  live : ∀ d ∈ deploys, d.status = .live →
    ∃ y ∈ yards, y.id = d.yardId ∧ y.currentDeployId = some d.id
  current : ∀ y ∈ yards, ∀ id, y.currentDeployId = some id →
    ∃ d ∈ deploys, d.id = id ∧ d.yardId = y.id ∧ d.status = .live
  deleted : ∀ y ∈ yards, y.status = .deleted → ∀ d ∈ deploys, d.yardId = y.id →
    d.status = .pruned
  finalised : ∀ y ∈ yards, y.status = .active → ∀ d ∈ deploys, d.yardId = y.id →
    d.finalisedAtMs ≠ none → y.currentDeployId ≠ none

/-- A deploy that has reached a terminal state and has not been pruned. -/
def Terminal (d : YardDeployRow) : Prop :=
  d.status = .live ∨ d.status = .failed ∨ d.status = .superseded

instance (d : YardDeployRow) : Decidable (Terminal d) :=
  inferInstanceAs (Decidable (_ ∨ _ ∨ _))

/-- The number of unpruned terminal deploys of a yard. -/
def terminalCount (deploys : Table YardDeployRow.id) (yardId : String) : ℕ :=
  deploys.sumBy fun d => if Terminal d ∧ d.yardId = yardId then 1 else 0

/-- The invariant. -/
structure Hosted (s : Repository) : Prop where
  consistent : Consistent s.webYards s.yardDeploys
  depth : ∀ yardId, terminalCount s.yardDeploys yardId ≤ historyDepth

theorem hosted_init : Hosted Repository.empty where
  consistent :=
    { owned := fun _ h => absurd h Table.not_mem_empty
      live := fun _ h => absurd h Table.not_mem_empty
      current := fun _ h => absurd h Table.not_mem_empty
      deleted := fun _ h => absurd h Table.not_mem_empty
      finalised := fun _ h => absurd h Table.not_mem_empty }
  depth _ := Nat.zero_le _

/-! ### Consistent changes -/

/-- A change that moves no deploy into or out of the live state. -/
theorem Consistent.settle (h : Consistent yards deploys) {f : YardDeployRow → YardDeployRow}
    (hf : deploys.Mapped deploys' f) (hyard : ∀ d ∈ deploys, (f d).yardId = d.yardId)
    (hlive : ∀ d ∈ deploys, (f d).status = .live ↔ d.status = .live)
    (hpruned : ∀ d ∈ deploys, d.status = .pruned → (f d).status = .pruned)
    (hfinalised : ∀ d ∈ deploys, (f d).finalisedAtMs ≠ none → d.finalisedAtMs ≠ none ∨
      ∀ y ∈ yards, y.id = d.yardId → y.currentDeployId ≠ none) :
    Consistent yards deploys' where
  owned x hx := by
    obtain ⟨d, hd, rfl⟩ := hf.mem_iff.mp hx
    rw [hyard d hd]
    exact h.owned d hd
  live x hx hstatus := by
    obtain ⟨d, hd, rfl⟩ := hf.mem_iff.mp hx
    rw [hyard d hd, hf.key_eq d hd]
    exact h.live d hd ((hlive d hd).mp hstatus)
  current y hy id hid := by
    obtain ⟨d, hd, rfl, hd', hstatus⟩ := h.current y hy id hid
    exact ⟨f d, hf.mem_of_mem hd, hf.key_eq d hd, (hyard d hd).trans hd', (hlive d hd).mpr hstatus⟩
  deleted y hy hstatus x hx hx' := by
    obtain ⟨d, hd, rfl⟩ := hf.mem_iff.mp hx
    exact hpruned d hd (h.deleted y hy hstatus d hd ((hyard d hd).symm.trans hx'))
  -- a deploy that was finalised before, or one that is finalised now
  finalised y hy hstatus x hx hx' hfin := by
    obtain ⟨d, hd, rfl⟩ := hf.mem_iff.mp hx
    have hd' : d.yardId = y.id := (hyard d hd).symm.trans hx'
    rcases hfinalised d hd hfin with hfin | hcurrent
    · exact h.finalised y hy hstatus d hd hd' hfin
    · exact hcurrent y hy hd'.symm

/-- The deploy `x` becomes the live one in place of the current deploy of its yard. -/
theorem Consistent.takeOver (h : Consistent yards deploys) {f : YardDeployRow → YardDeployRow}
    {yard yard' : WebYardRecord} {x : YardDeployRow} (hf : deploys.Mapped deploys' f)
    (hyards : yards.Replaced yards' yard yard') (hactive : yard'.status = .active)
    (hcurrent : yard'.currentDeployId = some x.id) (hx : x ∈ deploys) (hxyard : x.yardId = yard.id)
    (hxlive : (f x).status = .live) (hyard : ∀ d ∈ deploys, (f d).yardId = d.yardId)
    (hsame : ∀ d ∈ deploys, d.yardId ≠ yard.id → f d = d)
    (hother : ∀ d ∈ deploys, d ≠ x → (f d).status = .live →
      d.status = .live ∧ yard.currentDeployId ≠ some d.id) :
    Consistent yards' deploys' := by
  have hid : yard'.id = yard.id := hyards.key_eq
  -- a yard afterwards is the one that was taken over, or another one that was there before
  have hcases : ∀ y ∈ yards', y = yard' ∨ (y ∈ yards ∧ y.id ≠ yard.id) := by
    intro y hy
    rcases (hyards.mem y).mp hy with ⟨hy, hne⟩ | rfl
    · exact Or.inr ⟨hy, fun he => hne (Table.eq_of_key hy hyards.mem_old he)⟩
    · exact Or.inl rfl
  have hkeep : ∀ y ∈ yards, y ≠ yard → y ∈ yards' := fun y hy hne =>
    (hyards.mem y).mpr (Or.inl ⟨hy, hne⟩)
  refine ⟨fun z hz => ?_, fun z hz hstatus => ?_, fun y hy id hid' => ?_,
    fun y hy hstatus z hz hz' => ?_, fun y hy hstatus z hz hz' hfin => ?_⟩
  · obtain ⟨d, hd, rfl⟩ := hf.mem_iff.mp hz
    rw [hyard d hd]
    obtain ⟨y, hy, hyd⟩ := h.owned d hd
    by_cases hne : y = yard
    · exact ⟨yard', hyards.mem_new, hid.trans (hne ▸ hyd)⟩
    · exact ⟨y, hkeep y hy hne, hyd⟩
  · obtain ⟨d, hd, rfl⟩ := hf.mem_iff.mp hz
    rw [hyard d hd, hf.key_eq d hd]
    by_cases hdx : d = x
    · subst hdx
      exact ⟨yard', hyards.mem_new, hid.trans hxyard.symm, hcurrent⟩
    · obtain ⟨hlive, hnot⟩ := hother d hd hdx hstatus
      obtain ⟨y, hy, hyd, hyc⟩ := h.live d hd hlive
      refine ⟨y, hkeep y hy ?_, hyd, hyc⟩
      rintro rfl
      exact hnot hyc
  · rcases hcases y hy with rfl | ⟨hy, hne⟩
    · rw [hcurrent, Option.some.injEq] at hid'
      subst hid'
      exact ⟨f x, hf.mem_of_mem hx, hf.key_eq x hx, (hyard x hx).trans (hxyard.trans hid.symm),
        hxlive⟩
    · obtain ⟨d, hd, rfl, hd', hstatus⟩ := h.current y hy id hid'
      have hfd : f d = d := hsame d hd fun he => hne (hd'.symm.trans he)
      exact ⟨d, hfd ▸ hf.mem_of_mem hd, rfl, hd', hstatus⟩
  · obtain ⟨d, hd, rfl⟩ := hf.mem_iff.mp hz
    rcases hcases y hy with rfl | ⟨hy, hne⟩
    · rw [hactive] at hstatus
      cases hstatus
    · have hd' : d.yardId = y.id := (hyard d hd).symm.trans hz'
      rw [hsame d hd fun he => hne (hd'.symm.trans he)]
      exact h.deleted y hy hstatus d hd hd'
  · obtain ⟨d, hd, rfl⟩ := hf.mem_iff.mp hz
    rcases hcases y hy with rfl | ⟨hy, hne⟩
    · rw [hcurrent]
      exact Option.some_ne_none _
    · have hd' : d.yardId = y.id := (hyard d hd).symm.trans hz'
      rw [hsame d hd fun he => hne (hd'.symm.trans he)] at hfin
      exact h.finalised y hy hstatus d hd hd' hfin

/-- A deleted yard loses its current deploy, and all of its deploys are pruned. -/
theorem Consistent.delete (h : Consistent yards deploys) {f : YardDeployRow → YardDeployRow}
    {yard yard' : WebYardRecord} (hf : deploys.Mapped deploys' f)
    (hyards : yards.Replaced yards' yard yard') (hdeleted : yard'.status = .deleted)
    (hcurrent : yard'.currentDeployId = none) (hyard : ∀ d ∈ deploys, (f d).yardId = d.yardId)
    (hpruned : ∀ d ∈ deploys, d.yardId = yard.id → (f d).status = .pruned)
    (hsame : ∀ d ∈ deploys, d.yardId ≠ yard.id → f d = d) : Consistent yards' deploys' := by
  have hid : yard'.id = yard.id := hyards.key_eq
  -- every other yard is as it was
  have hcases : ∀ y ∈ yards', y = yard' ∨ (y ∈ yards ∧ y.id ≠ yard.id) := by
    intro y hy
    rcases (hyards.mem y).mp hy with ⟨hy, hne⟩ | rfl
    · exact Or.inr ⟨hy, fun he => hne (Table.eq_of_key hy hyards.mem_old he)⟩
    · exact Or.inl rfl
  refine ⟨fun z hz => ?_, fun z hz hstatus => ?_, fun y hy id hid' => ?_,
    fun y hy hstatus z hz hz' => ?_, fun y hy hstatus z hz hz' hfin => ?_⟩
  · obtain ⟨d, hd, rfl⟩ := hf.mem_iff.mp hz
    rw [hyard d hd]
    obtain ⟨y, hy, hyd⟩ := h.owned d hd
    by_cases hne : y = yard
    · exact ⟨yard', hyards.mem_new, hid.trans (hne ▸ hyd)⟩
    · exact ⟨y, (hyards.mem y).mpr (Or.inl ⟨hy, hne⟩), hyd⟩
  -- no deploy of the deleted yard is live any more
  · obtain ⟨d, hd, rfl⟩ := hf.mem_iff.mp hz
    by_cases hd' : d.yardId = yard.id
    · rw [hpruned d hd hd'] at hstatus
      cases hstatus
    · rw [hsame d hd hd'] at hstatus ⊢
      obtain ⟨y, hy, hyd, hyc⟩ := h.live d hd hstatus
      refine ⟨y, (hyards.mem y).mpr (Or.inl ⟨hy, ?_⟩), hyd, hyc⟩
      rintro rfl
      exact hd' hyd.symm
  -- the deleted yard has no current deploy
  · rcases hcases y hy with rfl | ⟨hy, hne⟩
    · rw [hcurrent] at hid'
      cases hid'
    · obtain ⟨d, hd, rfl, hd', hstatus⟩ := h.current y hy id hid'
      have hfd : f d = d := hsame d hd fun he => hne (hd'.symm.trans he)
      exact ⟨d, hfd ▸ hf.mem_of_mem hd, rfl, hd', hstatus⟩
  · obtain ⟨d, hd, rfl⟩ := hf.mem_iff.mp hz
    have hd' : d.yardId = y.id := (hyard d hd).symm.trans hz'
    rcases hcases y hy with rfl | ⟨hy, hne⟩
    · exact hpruned d hd (hd'.trans hid)
    · rw [hsame d hd fun he => hne (hd'.symm.trans he)]
      exact h.deleted y hy hstatus d hd hd'
  -- the deleted yard is not active
  · obtain ⟨d, hd, rfl⟩ := hf.mem_iff.mp hz
    have hd' : d.yardId = y.id := (hyard d hd).symm.trans hz'
    rcases hcases y hy with rfl | ⟨hy, hne⟩
    · rw [hdeleted] at hstatus
      cases hstatus
    · rw [hsame d hd fun he => hne (hd'.symm.trans he)] at hfin
      exact h.finalised y hy hstatus d hd hd' hfin

/-- A new deploy is uploading, into a known active yard or into a new one. -/
theorem Consistent.start (h : Consistent yards deploys) {selected : WebYardRecord}
    {row : YardDeployRow} (hactive : selected.status = .active) (hrow : row.yardId = selected.id)
    (hstatus : row.status = .uploading) (hfin : row.finalisedAtMs = none)
    (hdeploys : deploys.Inserted deploys' row)
    (hyards : (selected ∈ yards ∧ yards' = yards) ∨
      (selected.currentDeployId = none ∧ yards.Inserted yards' selected)) :
    Consistent yards' deploys' := by
  have hold : ∀ y ∈ yards, y ∈ yards' := by
    intro y hy
    rcases hyards with ⟨-, rfl⟩ | ⟨-, hinserted⟩
    · exact hy
    · exact hinserted.mem_of_mem hy
  have hselected : selected ∈ yards' := by
    rcases hyards with ⟨hmem, rfl⟩ | ⟨-, hinserted⟩
    · exact hmem
    · exact hinserted.mem_new
  -- a yard that was not there before serves nothing and owns no earlier deploy
  have hnew : ∀ y ∈ yards', y ∈ yards ∨
      (y = selected ∧ y.currentDeployId = none ∧ ∀ d ∈ deploys, d.yardId ≠ y.id) := by
    intro y hy
    rcases hyards with ⟨-, rfl⟩ | ⟨hnone, hinserted⟩
    · exact Or.inl hy
    · rcases (hinserted.mem y).mp hy with hy | rfl
      · exact Or.inl hy
      · refine Or.inr ⟨rfl, hnone, fun d hd hd' => ?_⟩
        obtain ⟨y', hy', hy''⟩ := h.owned d hd
        exact hinserted.fresh y' hy' (hy''.trans hd')
  refine ⟨fun d hd => ?_, fun d hd hlive => ?_, fun y hy id hid => ?_,
    fun y hy hdeleted d hd hd' => ?_, fun y hy hyactive d hd hd' hfin' => ?_⟩
  · rcases (hdeploys.mem d).mp hd with hd | rfl
    · obtain ⟨y, hy, hyd⟩ := h.owned d hd
      exact ⟨y, hold y hy, hyd⟩
    · exact ⟨selected, hselected, hrow.symm⟩
  · rcases (hdeploys.mem d).mp hd with hd | rfl
    · obtain ⟨y, hy, hyd, hyc⟩ := h.live d hd hlive
      exact ⟨y, hold y hy, hyd, hyc⟩
    · rw [hstatus] at hlive
      cases hlive
  · rcases hnew y hy with hy | ⟨-, hnone, -⟩
    · obtain ⟨d, hd, hd'⟩ := h.current y hy id hid
      exact ⟨d, hdeploys.mem_of_mem hd, hd'⟩
    · rw [hnone] at hid
      cases hid
  · rcases (hdeploys.mem d).mp hd with hd | rfl
    · rcases hnew y hy with hy | ⟨-, -, hnone⟩
      · exact h.deleted y hy hdeleted d hd hd'
      · exact absurd hd' (hnone d hd)
    · obtain rfl := Table.eq_of_key hselected hy (hrow.symm.trans hd')
      rw [hactive] at hdeleted
      cases hdeleted
  · rcases (hdeploys.mem d).mp hd with hd | rfl
    · rcases hnew y hy with hy | ⟨-, -, hnone⟩
      · exact h.finalised y hy hyactive d hd hd' hfin'
      · exact absurd hd' (hnone d hd)
    · exact absurd hfin hfin'

/-! ### What the operations do to a row -/

section Rows

variable (ids : List String) (atMs fileCount totalBytes : ℕ) (id code message : String)
  (status : YardDeployStatus) (current : Option String) (d : YardDeployRow)

@[simp] theorem prunedRow_yardId : (prunedRow ids atMs d).yardId = d.yardId := by
  unfold prunedRow
  split <;> rfl

@[simp] theorem prunedRow_finalisedAtMs :
    (prunedRow ids atMs d).finalisedAtMs = d.finalisedAtMs := by
  unfold prunedRow
  split <;> rfl

@[simp] theorem finalisedRow_yardId :
    (finalisedRow id status atMs fileCount totalBytes d).yardId = d.yardId := by
  unfold finalisedRow
  split <;> rfl

@[simp] theorem finalisedRow_order :
    deployOrder (finalisedRow id status atMs fileCount totalBytes d) = deployOrder d := by
  unfold finalisedRow
  split <;> rfl

@[simp] theorem finalisedRow_id :
    (finalisedRow id status atMs fileCount totalBytes d).id = d.id := by
  unfold finalisedRow
  split <;> rfl

@[simp] theorem failedRow_yardId : (failedRow id code message d).yardId = d.yardId := by
  unfold failedRow
  split <;> rfl

@[simp] theorem failedRow_finalisedAtMs :
    (failedRow id code message d).finalisedAtMs = d.finalisedAtMs := by
  unfold failedRow
  split <;> rfl

@[simp] theorem supersededRow_yardId : (supersededRow current d).yardId = d.yardId := by
  unfold supersededRow
  split <;> rfl

@[simp] theorem supersededRow_id : (supersededRow current d).id = d.id := by
  unfold supersededRow
  split <;> rfl

@[simp] theorem restoredRow_yardId : (restoredRow id d).yardId = d.yardId := by
  unfold restoredRow
  split <;> rfl

end Rows

theorem not_live_of_inProgress {d : YardDeployRow} (h : InProgress d) : d.status ≠ .live := by
  rcases h with h | h <;> rw [h] <;> nofun

theorem not_pruned_of_inProgress {d : YardDeployRow} (h : InProgress d) : d.status ≠ .pruned := by
  rcases h with h | h <;> rw [h] <;> nofun

/-! ### Pruning the history -/

/-- An expired deploy is a terminal one of the yard, other than the current one. -/
theorem mem_expiredIds {yardId : String} {current : Option String} {d : YardDeployRow}
    (hd : d ∈ deploys) (h : d.id ∈ expiredIds deploys yardId current) :
    d.yardId = yardId ∧ some d.id ≠ current ∧ Terminal d := by
  obtain ⟨x, hx, hid⟩ := List.mem_map.mp h
  obtain ⟨hx, hterminal⟩ := List.mem_filter.mp hx
  obtain ⟨hx, hcurrent⟩ := List.mem_filter.mp (List.mem_of_mem_drop hx)
  obtain ⟨hx, hyard⟩ := mem_listCandidates.mp hx
  obtain rfl := Table.eq_of_key hx hd hid
  exact ⟨hyard, by simpa using hcurrent, by simpa [Terminal] using hterminal⟩

/-- Pruning the history of a yard keeps its current deploy. -/
theorem Consistent.prune (h : Consistent yards deploys) {yard : WebYardRecord} {prunedAtMs : ℕ}
    (hyard : yard ∈ yards) (hf : deploys.Mapped deploys'
      (prunedRow (expiredIds deploys yard.id yard.currentDeployId) prunedAtMs)) :
    Consistent yards deploys' := by
  refine h.settle hf (fun d _ => by simp) (fun d hd => ?_) (fun d _ hpruned => ?_)
    fun d _ hfin => Or.inl (by simpa using hfin)
  · unfold prunedRow
    split
    · rename_i hexpired
      -- a live deploy is the current one of its yard, which is never expired
      obtain ⟨hyardId, hcurrent, -⟩ := mem_expiredIds hd hexpired.1
      refine iff_of_false nofun fun hlive => ?_
      obtain ⟨y, hy, hyd, hyc⟩ := h.live d hd hlive
      obtain rfl := Table.eq_of_key hy hyard (hyd.trans hyardId)
      exact hcurrent hyc.symm
    · exact Iff.rfl
  · rw [prunedRow, if_neg fun hg => hg.2 hpruned]
    exact hpruned

/-- The number of deploys that are counted can only go down with the rows that count. -/
theorem terminalCount_le {f : YardDeployRow → YardDeployRow} (hf : deploys.Mapped deploys' f)
    {yardId : String} (h : ∀ d ∈ deploys, Terminal (f d) ∧ (f d).yardId = yardId →
      Terminal d ∧ d.yardId = yardId) :
    terminalCount deploys' yardId ≤ terminalCount deploys yardId := by
  rw [terminalCount, hf.sum]
  refine Table.sumBy_le fun d hd => ?_
  by_cases hd' : Terminal (f d) ∧ (f d).yardId = yardId
  · rw [if_pos hd', if_pos (h d hd hd')]
  · rw [if_neg hd']
    exact Nat.zero_le _

theorem terminal_of_prunedRow {ids : List String} {atMs : ℕ} {d : YardDeployRow}
    (h : Terminal (prunedRow ids atMs d)) : d.id ∉ ids ∧ prunedRow ids atMs d = d := by
  unfold prunedRow at h ⊢
  split at h
  · rcases h with h | h | h <;> cases h
  · rename_i hg
    refine ⟨fun hid => hg ⟨hid, ?_⟩, if_neg hg⟩
    rcases h with h | h | h <;> rw [h] <;> nofun

theorem terminalCount_prune_le {ids : List String} {atMs : ℕ}
    (hf : deploys.Mapped deploys' (prunedRow ids atMs)) (yardId : String) :
    terminalCount deploys' yardId ≤ terminalCount deploys yardId := by
  refine terminalCount_le hf fun d _ hd => ?_
  rw [(terminal_of_prunedRow hd.1).2] at hd
  exact hd

/-- **Pruning the history of a yard leaves at most `historyDepth` terminal deploys**: the
current one and the newest others. -/
theorem terminalCount_pruneHistory {yardId : String} {current : Option String} {prunedAtMs : ℕ}
    (hf : deploys.Mapped deploys' (prunedRow (expiredIds deploys yardId current) prunedAtMs)) :
    terminalCount deploys' yardId ≤ historyDepth := by
  rw [terminalCount, Table.sumBy_indicator]
  set retained := if current.isSome then historyDepth - 1 else historyDepth with hretained
  set others := (listCandidates deploys yardId).filter fun d =>
    decide (some d.id ≠ current) with hothers
  -- what survives is the current deploy or one of the retained others
  have hsubset : ((deploys'.select fun d => Terminal d ∧ d.yardId = yardId).map
      YardDeployRow.id) ⊆ current.toList ++ (others.take retained).map YardDeployRow.id := by
    intro id hid
    obtain ⟨x, hx, rfl⟩ := List.mem_map.mp hid
    obtain ⟨hx, hterminal, hyardId⟩ := Table.mem_select.mp hx
    obtain ⟨d, hd, rfl⟩ := hf.mem_iff.mp hx
    obtain ⟨hkept, hsame⟩ := terminal_of_prunedRow hterminal
    rw [hsame] at hterminal hyardId ⊢
    by_cases hcurrent : some d.id = current
    · exact List.mem_append_left _ (by simp [← hcurrent])
    · have hother : d ∈ others :=
        List.mem_filter.mpr ⟨mem_listCandidates.mpr ⟨hd, hyardId⟩, by simpa using hcurrent⟩
      rw [← List.take_append_drop retained others, List.mem_append] at hother
      rcases hother with htake | hdrop
      · exact List.mem_append_right _ (List.mem_map.mpr ⟨d, htake, rfl⟩)
      · refine absurd (List.mem_map.mpr ⟨d, ?_, rfl⟩) hkept
        exact List.mem_filter.mpr ⟨hdrop, by simpa [Terminal] using hterminal⟩
  have hnodup : ((deploys'.select fun d => Terminal d ∧ d.yardId = yardId).map
      YardDeployRow.id).Nodup := deploys'.unique.sublist (List.filter_sublist.map _)
  have hlength := (List.subperm_of_subset hnodup hsubset).length_le
  rw [List.length_map, List.length_append, List.length_map] at hlength
  have htake : (others.take retained).length ≤ retained := List.length_take_le _ _
  have hcurrent : current.toList.length + retained ≤ historyDepth := by
    rw [hretained]
    cases current <;> simp [historyDepth]
  omega

/-! ### The operations keep the invariant -/

variable {s s' : Repository}

/-- A row that a change leaves alone keeps the counts of the other yards. -/
private theorem terminalCount_other {f : YardDeployRow → YardDeployRow}
    (hf : deploys.Mapped deploys' f) (hyard : ∀ d ∈ deploys, (f d).yardId = d.yardId)
    {yardId other : String} (hsame : ∀ d ∈ deploys, d.yardId ≠ yardId → f d = d)
    (hne : other ≠ yardId) : terminalCount deploys' other ≤ terminalCount deploys other := by
  refine terminalCount_le hf fun d hd ⟨hterminal, hother⟩ => ?_
  have hd' : d.yardId = other := (hyard d hd).symm.trans hother
  rw [hsame d hd (by rw [hd']; exact hne)] at hterminal
  exact ⟨hterminal, hd'⟩

theorem hosted_finalise {deployId : String} {files : List NewYardFile} {finalisedAtMs : ℕ}
    {event : NewAuditEvent} {record : YardDeploymentRecord} (h : Hosted s)
    (hrun : s.finaliseYardDeploy deployId files finalisedAtMs event = .ok (record, s')) :
    Hosted s' := by
  obtain ⟨deploy, hdeploy, yard, hyard, rfl, hid, hactive, hrest⟩ := finaliseYardDeploy_spec hrun
  rcases hrest with ⟨-, rfl⟩ |
    ⟨hprogress, hnewer, hyards, finished, fileCount, totalBytes, hfinished, hpruned⟩ |
    ⟨hprogress, hnewer, hyards, promoted, finished, fileCount, totalBytes, hpromoted, hfinished,
      hpruned⟩
  · exact h
  -- superseded: no deploy enters or leaves the live state
  · have hsettled : Consistent s.webYards finished := by
      refine h.consistent.settle hfinished (fun d _ => by simp) (fun d _ => ?_)
        (fun d _ hstatus => ?_) fun d hd hfin => ?_
      · unfold finalisedRow
        split
        · rename_i hg
          exact iff_of_false nofun (not_live_of_inProgress hg.2)
        · exact Iff.rfl
      · rw [finalisedRow, if_neg fun hg => not_pruned_of_inProgress hg.2 hstatus]
        exact hstatus
      · unfold finalisedRow at hfin
        split at hfin
        · rename_i hg
          -- the newer deploy was finalised, so the yard has a current one
          obtain rfl := Table.eq_of_key hd hdeploy hg.1
          obtain ⟨x, hx, hxyard, hxfin, -⟩ := hnewer
          refine Or.inr fun y hy hyd => ?_
          obtain rfl := Table.eq_of_key hy hyard (hyd.trans hid.symm)
          exact h.consistent.finalised y hy hactive x hx (hxyard.trans hid.symm) hxfin
        · exact Or.inl hfin
    refine ⟨hyards ▸ hsettled.prune hyard hpruned, fun other => ?_⟩
    by_cases hother : other = yard.id
    · subst hother
      exact terminalCount_pruneHistory hpruned
    · refine (terminalCount_prune_le hpruned other).trans (le_trans ?_ (h.depth other))
      refine terminalCount_other hfinished (fun d _ => by simp) (fun d hd hd' => if_neg ?_) hother
      rintro ⟨hd'', -⟩
      exact hd' (Table.eq_of_key hd hdeploy hd'' ▸ hid.symm)
  -- live: the deploy takes over
  · have hmapped := hpromoted.trans hfinished
    have hselfSame : supersededRow yard.currentDeployId deploy = deploy :=
      if_neg fun hg => not_live_of_inProgress hprogress hg.2
    have hkeep : ∀ d ∈ s.yardDeploys, d.yardId ≠ yard.id →
        finalisedRow deploy.id .live finalisedAtMs fileCount totalBytes
          (supersededRow yard.currentDeployId d) = d := by
      intro d hd hd'
      have hnotCurrent : ¬(some d.id = yard.currentDeployId ∧ d.status = .live) := by
        rintro ⟨hc, -⟩
        obtain ⟨x, hx, hxid, hxyard, -⟩ := h.consistent.current yard hyard d.id hc.symm
        exact hd' (Table.eq_of_key hx hd hxid ▸ hxyard)
      have hnotSelf : d.id ≠ deploy.id := fun he =>
        hd' (Table.eq_of_key hd hdeploy he ▸ hid.symm)
      rw [supersededRow, if_neg hnotCurrent, finalisedRow, if_neg fun hg => hnotSelf hg.1]
    have hover : Consistent s'.webYards finished := by
      refine h.consistent.takeOver (x := deploy) hmapped hyards hactive rfl hdeploy hid.symm ?_
        (fun d _ => by simp) hkeep fun d hd hne hlive => ?_
      · rw [hselfSame, finalisedRow, if_pos ⟨rfl, hprogress⟩]
      · have hnotSelf : d.id ≠ deploy.id := fun he => hne (Table.eq_of_key hd hdeploy he)
        rw [finalisedRow, if_neg fun hg => hnotSelf (by simpa using hg.1)] at hlive
        unfold supersededRow at hlive
        split at hlive
        · cases hlive
        · rename_i hg
          exact ⟨hlive, fun hc => hg ⟨hc.symm, hlive⟩⟩
    have hpruned' := hover.prune hyards.mem_new hpruned
    refine ⟨hpruned', fun other => ?_⟩
    by_cases hother : other = yard.id
    · subst hother
      exact terminalCount_pruneHistory hpruned
    · refine (terminalCount_prune_le hpruned other).trans (le_trans ?_ (h.depth other))
      exact terminalCount_other hmapped (fun d _ => by simp) hkeep hother

theorem hosted_fail {deployId code message : String} {failedAtMs : ℕ} {record : YardDeployRow}
    (h : Hosted s) (hrun : s.failYardDeploy deployId code message failedAtMs = .ok (record, s')) :
    Hosted s' := by
  rcases failYardDeploy_spec hrun with
    rfl | ⟨deploy, hdeploy, yard, hyard, rfl, hid, -, hyards, failed, hfailed, hpruned⟩
  · exact h
  · have hsettled : Consistent s.webYards failed := by
      refine h.consistent.settle hfailed (fun d _ => by simp) (fun d _ => ?_)
        (fun d _ hstatus => ?_) fun d _ hfin => Or.inl (by simpa using hfin)
      · unfold failedRow
        split
        · rename_i hg
          exact iff_of_false nofun (not_live_of_inProgress hg.2)
        · exact Iff.rfl
      · rw [failedRow, if_neg fun hg => not_pruned_of_inProgress hg.2 hstatus]
        exact hstatus
    refine ⟨hyards ▸ hsettled.prune hyard hpruned, fun other => ?_⟩
    by_cases hother : other = yard.id
    · subst hother
      exact terminalCount_pruneHistory hpruned
    · refine (terminalCount_prune_le hpruned other).trans (le_trans ?_ (h.depth other))
      refine terminalCount_other hfailed (fun d _ => by simp) (fun d hd hd' => if_neg ?_) hother
      rintro ⟨hd'', -⟩
      exact hd' (Table.eq_of_key hd hdeploy hd'' ▸ hid.symm)

theorem hosted_rollback {yardId : String} {deployId : Option String} {rolledBackAtMs : ℕ}
    {event : NewAuditEvent} {record : YardDeploymentRecord} (h : Hosted s)
    (hrun : s.rollbackWebYard yardId deployId rolledBackAtMs event = .ok (record, s')) :
    Hosted s' := by
  obtain ⟨yard, hyard, target, htarget, rfl, hactive, htyard, hstatus, -, hcurrent, hyards,
    hmapped⟩ := rollbackWebYard_spec hrun
  -- a rollback makes no deploy terminal
  have hterminal : ∀ d, Terminal (restoredRow target.id (supersededRow yard.currentDeployId d)) →
      Terminal d := by
    intro d hd
    unfold restoredRow supersededRow at hd
    split at hd <;> split at hd <;> simp_all [Terminal]
  -- the target is not the current deploy, so it is restored and not superseded
  have htargetSame : supersededRow yard.currentDeployId target = target :=
    if_neg fun hg => hcurrent hg.1
  refine ⟨?_, fun other => ?_⟩
  -- the target takes the place of the current deploy
  · refine h.consistent.takeOver (x := target) hmapped hyards hactive rfl htarget htyard ?_
      (fun d _ => by simp) (fun d hd hd' => ?_) fun d hd hne hlive => ?_
    · rw [htargetSame, restoredRow, if_pos ⟨rfl, hstatus⟩]
    -- a deploy of another yard is neither of the two
    · have hnotCurrent : ¬(some d.id = yard.currentDeployId ∧ d.status = .live) := by
        rintro ⟨hc, -⟩
        obtain ⟨x, hx, hxid, hxyard, -⟩ := h.consistent.current yard hyard d.id hc.symm
        exact hd' (Table.eq_of_key hx hd hxid ▸ hxyard)
      have hnotSelf : d.id ≠ target.id := fun he =>
        hd' (Table.eq_of_key hd htarget he ▸ htyard)
      rw [supersededRow, if_neg hnotCurrent, restoredRow, if_neg fun hg => hnotSelf hg.1]
    · have hnotSelf : d.id ≠ target.id := fun he => hne (Table.eq_of_key hd htarget he)
      rw [restoredRow, if_neg fun hg => hnotSelf (by simpa using hg.1)] at hlive
      unfold supersededRow at hlive
      split at hlive
      · cases hlive
      · rename_i hg
        exact ⟨hlive, fun hc => hg ⟨hc.symm, hlive⟩⟩
  -- the history gets no longer
  · refine le_trans (terminalCount_le hmapped fun d _ hd => ?_) (h.depth other)
    exact ⟨hterminal d hd.1, by simpa using hd.2⟩

theorem hosted_delete {yardId : String} {deletedAtMs : ℕ} {event : NewAuditEvent}
    {deleted : Bool} (h : Hosted s)
    (hrun : s.deleteWebYard yardId deletedAtMs event = .ok (deleted, s')) : Hosted s' := by
  rcases deleteWebYard_spec hrun with rfl | ⟨yard, -, rfl, hyards, hmapped⟩
  · exact h
  · refine ⟨h.consistent.delete hmapped hyards rfl rfl (fun d _ => ?_) (fun d _ hd => ?_)
      fun d _ hd => if_neg fun hg => hd hg.1, fun other => ?_⟩
    · split <;> rfl
    · by_cases hpruned : d.status = .pruned
      · rw [if_neg fun hg => hg.2 hpruned]
        exact hpruned
      · rw [if_pos ⟨hd, hpruned⟩]
    · refine le_trans (terminalCount_le hmapped fun d _ hd => ?_) (h.depth other)
      by_cases hg : d.yardId = yard.id ∧ d.status ≠ .pruned
      · rw [if_pos hg] at hd
        rcases hd.1 with ht | ht | ht <;> cases ht
      · rwa [if_neg hg] at hd

/-! ### One request -/

/-- One request keeps the invariant. -/
theorem hosted_exec {s : Repository} {request : Request} (h : Hosted s) :
    Hosted (exec s request) := by
  unfold exec
  cases hrun : request.run s with
  | error e => exact h
  | ok s' =>
    -- each request is one of the changes above
    cases request with
    | start yard deploy event =>
      simp only [Request.run, map_eq_ok] at hrun
      obtain ⟨⟨_, _⟩, hrun, rfl⟩ := hrun
      rcases startYardDeploy_spec hrun with
        rfl | ⟨selected, row, hactive, hrow, hstatus, hfin, -, hdeploys, hyards⟩
      · exact h
      · have hyards' := hyards.imp_right fun hnew => And.intro hnew.1 hnew.2.2
        refine ⟨h.consistent.start hactive hrow hstatus hfin hdeploys hyards', fun yardId => ?_⟩
        -- a deploy that starts is not terminal
        have hnot : ¬(Terminal row ∧ row.yardId = yardId) := by
          rintro ⟨hterminal, -⟩
          rcases hterminal with ht | ht | ht <;> rw [hstatus] at ht <;> cases ht
        rw [terminalCount, hdeploys.sum, if_neg hnot]
        exact h.depth yardId
    | finalise deployId files finalisedAtMs event =>
      simp only [Request.run, map_eq_ok] at hrun
      obtain ⟨⟨_, _⟩, hrun, rfl⟩ := hrun
      exact hosted_finalise h hrun
    | fail deployId code message failedAtMs =>
      simp only [Request.run, map_eq_ok] at hrun
      obtain ⟨⟨_, _⟩, hrun, rfl⟩ := hrun
      exact hosted_fail h hrun
    | rollback yardId deployId rolledBackAtMs event =>
      simp only [Request.run, map_eq_ok] at hrun
      obtain ⟨⟨_, _⟩, hrun, rfl⟩ := hrun
      exact hosted_rollback h hrun
    | delete yardId deletedAtMs event =>
      simp only [Request.run, map_eq_ok] at hrun
      obtain ⟨⟨_, _⟩, hrun, rfl⟩ := hrun
      exact hosted_delete h hrun
    | environment other =>
      simp only [Request.run, Except.ok.injEq] at hrun
      subst hrun
      exact ⟨h.consistent, h.depth⟩

/-! ### Failed and pruned deploys -/

/-- A deploy that has failed or has been pruned. -/
def Gone (d : YardDeployRow) : Prop := d.status = .failed ∨ d.status = .pruned

instance (d : YardDeployRow) : Decidable (Gone d) := inferInstanceAs (Decidable (_ ∨ _))

theorem gone_prunedRow {ids : List String} {atMs : ℕ} {d : YardDeployRow} (h : Gone d) :
    Gone (prunedRow ids atMs d) := by
  unfold prunedRow
  split
  · exact Or.inr rfl
  · exact h

theorem gone_finalisedRow {id : String} {status : YardDeployStatus}
    {atMs fileCount totalBytes : ℕ} {d : YardDeployRow} (h : Gone d) :
    Gone (finalisedRow id status atMs fileCount totalBytes d) := by
  rw [finalisedRow, if_neg]
  · exact h
  · rintro ⟨-, hprogress⟩
    rcases h with h | h <;> rcases hprogress with hp | hp <;> rw [h] at hp <;> cases hp

theorem gone_failedRow {id code message : String} {d : YardDeployRow} (h : Gone d) :
    Gone (failedRow id code message d) := by
  unfold failedRow
  split
  · exact Or.inl rfl
  · exact h

theorem gone_supersededRow {current : Option String} {d : YardDeployRow} (h : Gone d) :
    Gone (supersededRow current d) := by
  rw [supersededRow, if_neg]
  · exact h
  · rintro ⟨-, hlive⟩
    rcases h with h | h <;> rw [h] at hlive <;> cases hlive

theorem gone_restoredRow {id : String} {d : YardDeployRow} (h : Gone d) :
    Gone (restoredRow id d) := by
  rw [restoredRow, if_neg]
  · exact h
  · rintro ⟨-, hsuperseded⟩
    rcases h with h | h <;> rw [h] at hsuperseded <;> cases hsuperseded

/-- The deploy `id` is there and has failed or has been pruned. -/
def GoneIn (deploys : Table YardDeployRow.id) (id : String) : Prop :=
  ∃ d ∈ deploys, d.id = id ∧ Gone d

theorem GoneIn.mapped {id : String} (h : GoneIn deploys id) {f : YardDeployRow → YardDeployRow}
    (hf : deploys.Mapped deploys' f) (hgone : ∀ d, Gone d → Gone (f d)) : GoneIn deploys' id := by
  obtain ⟨d, hd, rfl, hd'⟩ := h
  exact ⟨f d, hf.mem_of_mem hd, hf.key_eq d hd, hgone d hd'⟩

/-- No request brings a failed or pruned deploy back. -/
theorem goneIn_exec {request : Request} {id : String} (h : GoneIn s.yardDeploys id) :
    GoneIn (exec s request).yardDeploys id := by
  unfold exec
  cases hrun : request.run s with
  | error e => exact h
  | ok s' =>
    -- every row update keeps a deploy that is gone among the gone ones
    cases request with
    | start yard deploy event =>
      simp only [Request.run, map_eq_ok] at hrun
      obtain ⟨⟨_, _⟩, hrun, rfl⟩ := hrun
      rcases startYardDeploy_spec hrun with rfl | ⟨_, _, -, -, -, -, -, hdeploys, -⟩
      · exact h
      · obtain ⟨d, hd, hd'⟩ := h
        exact ⟨d, hdeploys.mem_of_mem hd, hd'⟩
    | finalise deployId files finalisedAtMs event =>
      simp only [Request.run, map_eq_ok] at hrun
      obtain ⟨⟨_, _⟩, hrun, rfl⟩ := hrun
      obtain ⟨_, -, _, -, -, -, -, ⟨-, rfl⟩ | ⟨-, -, -, _, _, _, hfinished, hpruned⟩ |
        ⟨-, -, -, _, _, _, _, hpromoted, hfinished, hpruned⟩⟩ := finaliseYardDeploy_spec hrun
      · exact h
      · exact (h.mapped hfinished fun _ => gone_finalisedRow).mapped hpruned
          fun _ => gone_prunedRow
      · exact ((h.mapped hpromoted fun _ => gone_supersededRow).mapped hfinished
          fun _ => gone_finalisedRow).mapped hpruned fun _ => gone_prunedRow
    | fail deployId code message failedAtMs =>
      simp only [Request.run, map_eq_ok] at hrun
      obtain ⟨⟨_, _⟩, hrun, rfl⟩ := hrun
      rcases failYardDeploy_spec hrun with rfl | ⟨_, -, _, -, -, -, -, -, _, hfailed, hpruned⟩
      · exact h
      · exact (h.mapped hfailed fun _ => gone_failedRow).mapped hpruned fun _ => gone_prunedRow
    | rollback yardId deployId rolledBackAtMs event =>
      simp only [Request.run, map_eq_ok] at hrun
      obtain ⟨⟨_, _⟩, hrun, rfl⟩ := hrun
      obtain ⟨_, -, _, -, -, -, -, -, -, -, -, hmapped⟩ := rollbackWebYard_spec hrun
      exact h.mapped hmapped fun _ hd => gone_restoredRow (gone_supersededRow hd)
    | delete yardId deletedAtMs event =>
      simp only [Request.run, map_eq_ok] at hrun
      obtain ⟨⟨_, _⟩, hrun, rfl⟩ := hrun
      rcases deleteWebYard_spec hrun with rfl | ⟨_, -, -, -, hmapped⟩
      · exact h
      · refine h.mapped hmapped fun d hd => ?_
        split
        · exact Or.inr rfl
        · exact hd
    | environment other =>
      simp only [Request.run, Except.ok.injEq] at hrun
      subst hrun
      exact h

/-! ### Late finalisation -/

/-- The deploys of the same yard, other than the current one, that are newer. -/
def newerOthers (deploys : Table YardDeployRow.id) (current : Option String)
    (deploy : YardDeployRow) : ℕ :=
  deploys.count fun d =>
    d.yardId = deploy.yardId ∧ some d.id ≠ current ∧ deployOrder deploy < deployOrder d

/-- A terminal deploy is expired exactly when enough other deploys of its yard are newer. -/
theorem mem_expiredIds_iff {current : String} {d : YardDeployRow} (hd : d ∈ deploys)
    (hterminal : Terminal d) (hne : some d.id ≠ some current) :
    d.id ∈ expiredIds deploys d.yardId (some current) ↔
      historyDepth - 1 ≤ newerOthers deploys (some current) d := by
  -- the other deploys of the yard, the newest first and none of them twice
  set others := (listCandidates deploys d.yardId).filter fun x =>
    decide (some x.id ≠ some current) with hothers
  have hmem : d ∈ others :=
    List.mem_filter.mpr ⟨mem_listCandidates.mpr ⟨hd, rfl⟩, by simpa using hne⟩
  have hstrict : others.Pairwise fun a b =>
      OrderDual.toDual (deployOrder a) < OrderDual.toDual (deployOrder b) := by
    refine (orderBy_strict Table.select_nodup fun a ha b hb he => ?_).filter _
    have hid : a.id = b.id := congrArg (fun p => (ofLex (OrderDual.ofDual p)).2) he
    exact Table.eq_of_key (Table.mem_select.mp ha).1 (Table.mem_select.mp hb).1 hid
  -- those in front of the deploy are the newer ones
  have hcount : (others.countP fun a =>
      decide (OrderDual.toDual (deployOrder a) < OrderDual.toDual (deployOrder d))) =
      newerOthers deploys (some current) d := by
    rw [hothers, List.countP_filter, listCandidates, (orderBy_perm _ _).countP_eq, Table.select,
      List.countP_filter, newerOthers, Table.count]
    refine List.countP_congr fun x _ => ?_
    simp only [Bool.and_eq_true, decide_eq_true_eq, OrderDual.toDual_lt_toDual]
    constructor
    · rintro ⟨⟨hlt, hx⟩, hy⟩
      exact ⟨hy, hx, hlt⟩
    · rintro ⟨hy, hx, hlt⟩
      exact ⟨⟨hlt, hx⟩, hy⟩
  -- so the deploy is dropped exactly when there are enough of them
  rw [← hcount, ← mem_drop_iff hstrict hmem]
  constructor
  · intro hid
    obtain ⟨x, hx, hxid⟩ := List.mem_map.mp hid
    obtain ⟨hx, -⟩ := List.mem_filter.mp hx
    have hx' : x ∈ others := List.mem_of_mem_drop hx
    obtain ⟨hcandidate, -⟩ := List.mem_filter.mp hx'
    rwa [Table.eq_of_key (mem_listCandidates.mp hcandidate).1 hd hxid] at hx
  · intro hdrop
    exact List.mem_map.mpr ⟨d, List.mem_filter.mpr ⟨hdrop, by simpa [Terminal] using hterminal⟩, rfl⟩

/-- A deploy in progress that is finalised after a newer one leaves the yards alone.  It is
superseded, or pruned at once when the retained history has no place for it. -/
theorem status_of_late_finalise {deployId : String} {files : List NewYardFile}
    {finalisedAtMs : ℕ} {event : NewAuditEvent} {record : YardDeploymentRecord} (h : Hosted s)
    (hrun : s.finaliseYardDeploy deployId files finalisedAtMs event = .ok (record, s'))
    {deploy : YardDeployRow} (hdeploy : deploy ∈ s.yardDeploys) (hid : deploy.id = deployId)
    (hnewer : s.NewerFinalised deploy) :
    s'.webYards = s.webYards ∧ (InProgress deploy →
      ∃ yard ∈ s.webYards, yard.id = deploy.yardId ∧ ∃ d ∈ s'.yardDeploys, d.id = deployId ∧
        d.status = if historyDepth - 1 ≤ newerOthers s.yardDeploys yard.currentDeployId deploy
          then .pruned else .superseded) := by
  obtain ⟨deploy', hdeploy', yard, hyard, hid', hyid, hactive, hrest⟩ :=
    finaliseYardDeploy_spec hrun
  obtain rfl := Table.eq_of_key hdeploy' hdeploy (hid'.trans hid.symm)
  subst hid
  rcases hrest with ⟨hstatus, rfl⟩ |
    ⟨hprogress, -, hyards, finished, fileCount, totalBytes, hfinished, hpruned⟩ |
    ⟨-, hnot, -⟩
  · refine ⟨rfl, fun hprogress => ?_⟩
    rcases hstatus with hs | hs <;> rcases hprogress with hp | hp <;> rw [hs] at hp <;> cases hp
  · refine ⟨hyards, fun _ => ⟨yard, hyard, hyid, ?_⟩⟩
    -- the yard has a current deploy, which is live and so is not this one
    obtain ⟨x, hx, hxyard, hxfin, -⟩ := hnewer
    obtain ⟨current, hcurrent⟩ := Option.ne_none_iff_exists'.mp
      (h.consistent.finalised yard hyard hactive x hx (hxyard.trans hyid.symm) hxfin)
    have hne : some deploy'.id ≠ some current := by
      intro he
      obtain ⟨c, hc, hcid, -, hlive⟩ := h.consistent.current yard hyard current hcurrent
      rw [Option.some.injEq] at he
      obtain rfl := Table.eq_of_key hc hdeploy (hcid.trans he.symm)
      exact not_live_of_inProgress hprogress hlive
    set row := finalisedRow deploy'.id .superseded finalisedAtMs fileCount totalBytes deploy'
      with hrow
    have hstatus : row.status = .superseded := by
      rw [hrow, finalisedRow, if_pos ⟨rfl, hprogress⟩]
    have hrowId : row.id = deploy'.id := finalisedRow_id ..
    have hrowNe : some row.id ≠ some current := by rwa [hrowId]
    have hexpired : row.id ∈ expiredIds finished yard.id (some current) ↔
        historyDepth - 1 ≤ newerOthers s.yardDeploys (some current) deploy' := by
      have hyardId : row.yardId = yard.id := (finalisedRow_yardId ..).trans hyid.symm
      rw [← hyardId, mem_expiredIds_iff (hfinished.mem_of_mem hdeploy) (Or.inr (Or.inr hstatus))
        hrowNe, newerOthers, newerOthers, hfinished.count]
      simp only [finalisedRow_yardId, finalisedRow_id, finalisedRow_order]
    refine ⟨_, hpruned.mem_of_mem (hfinished.mem_of_mem hdeploy), ?_, ?_⟩
    · exact (hpruned.key_eq _ (hfinished.mem_of_mem hdeploy)).trans hrowId
    · rw [hcurrent, ← hrow, prunedRow]
      by_cases hmany : historyDepth - 1 ≤ newerOthers s.yardDeploys (some current) deploy'
      · rw [if_pos hmany, if_pos ⟨hexpired.mpr hmany, by simp [hstatus]⟩]
      · rw [if_neg hmany, if_neg fun hg => hmany (hexpired.mp hg.1)]
        exact hstatus
  · exact absurd hnewer hnot

/-! ### The law over runs -/

/-- What holds of the yards and deploys of one state. -/
structure Lawful (s : Repository) : Prop where
  oneLive : ∀ d ∈ s.yardDeploys, ∀ d' ∈ s.yardDeploys, d.status = .live → d'.status = .live →
    d.yardId = d'.yardId → d = d'
  current : ∀ y ∈ s.webYards, y.status = .active → ∀ id, y.currentDeployId = some id →
    ∀ d ∈ s.yardDeploys, d.id = id ↔ d.yardId = y.id ∧ d.status = .live
  currentExists : ∀ y ∈ s.webYards, ∀ id, y.currentDeployId = some id →
    ∃ d ∈ s.yardDeploys, d.id = id ∧ d.status ≠ .pruned
  depth : ∀ yardId, (s.yardDeploys.select fun d => Terminal d ∧ d.yardId = yardId).length ≤
    historyDepth
  deleted : ∀ y ∈ s.webYards, y.status = .deleted → ∀ d ∈ s.yardDeploys, d.yardId = y.id →
    d.status = .pruned

theorem Hosted.lawful (h : Hosted s) : Lawful s where
  oneLive d hd d' hd' hlive hlive' hyard := by
    obtain ⟨y, hy, hyd, hyc⟩ := h.consistent.live d hd hlive
    obtain ⟨y', hy', hyd', hyc'⟩ := h.consistent.live d' hd' hlive'
    obtain rfl := Table.eq_of_key hy hy' (hyd.trans (hyard.trans hyd'.symm))
    exact Table.eq_of_key hd hd' (Option.some.inj (hyc.symm.trans hyc'))
  current y hy _ id hid d hd := by
    obtain ⟨x, hx, hxid, hxyard, hxlive⟩ := h.consistent.current y hy id hid
    constructor
    · intro hdid
      obtain rfl := Table.eq_of_key hx hd (hxid.trans hdid.symm)
      exact ⟨hxyard, hxlive⟩
    · rintro ⟨hdyard, hdlive⟩
      obtain ⟨y', hy', hyd', hyc'⟩ := h.consistent.live d hd hdlive
      obtain rfl := Table.eq_of_key hy' hy (hyd'.trans hdyard)
      exact Option.some.inj (hyc'.symm.trans hid)
  currentExists y hy id hid := by
    obtain ⟨d, hd, hdid, -, hlive⟩ := h.consistent.current y hy id hid
    exact ⟨d, hd, hdid, by rw [hlive]; nofun⟩
  depth yardId := by
    have hdepth := h.depth yardId
    rwa [terminalCount, Table.sumBy_indicator] at hdepth
  deleted y hy hstatus d hd hyard := h.consistent.deleted y hy hstatus d hd hyard

/-- **Deploy state machine**: in every state reached by requests in any order, at any times and
with any other change of the remaining tables in between, the yards and deploys are lawful; a
failed or pruned deploy is never anything else later; and finalising a deploy after a newer one
leaves the yards alone and makes the deploy superseded, or prunes it at once when as many newer
deploys as the history retains stand before it. -/
theorem deploy_law (h : Run system (fun _ _ => True) s) :
    Lawful s ∧
    (∀ s', Steps system (fun _ _ => True) s s' → ∀ d ∈ s.yardDeploys, Gone d →
      ∀ d' ∈ s'.yardDeploys, d'.id = d.id → Gone d') ∧
    ∀ deployId files finalisedAtMs event record s',
      s.finaliseYardDeploy deployId files finalisedAtMs event = .ok (record, s') →
      ∀ deploy ∈ s.yardDeploys, deploy.id = deployId → s.NewerFinalised deploy →
        s'.webYards = s.webYards ∧ (InProgress deploy →
          ∃ yard ∈ s.webYards, yard.id = deploy.yardId ∧ ∃ d ∈ s'.yardDeploys, d.id = deployId ∧
            d.status = if historyDepth - 1 ≤ newerOthers s.yardDeploys yard.currentDeployId deploy
              then .pruned else .superseded) := by
  have hhosted : Hosted s := by
    refine Run.inv (P := Hosted) hosted_init ?_ h
    rintro s request _ hs - rfl
    exact hosted_exec hs
  refine ⟨hhosted.lawful, fun s' hsteps d hd hgone d' hd' hid => ?_, ?_⟩
  · have hin : GoneIn s'.yardDeploys d.id := by
      refine hsteps.preserves (P := fun s => GoneIn s.yardDeploys d.id) ?_ ⟨d, hd, rfl, hgone⟩
      rintro s request _ hs - rfl
      exact goneIn_exec hs
    obtain ⟨x, hx, hxid, hxgone⟩ := hin
    exact Table.eq_of_key hx hd' (hxid.trans hid.symm) ▸ hxgone
  · intro deployId files finalisedAtMs event record s' hrun deploy hdeploy hid hnewer
    exact status_of_late_finalise hhosted hrun hdeploy hid hnewer

/-! ### A yard with many deploys -/

/-- A project with one complete object of one byte. -/
def uploadedObject : Repository :=
  [UploadRequest.createWorkspace { id := "w", name := "Yard", slug := ⟨"yard", by decide⟩ },
   .createProject { id := "p", workspaceId := "w", name := "Home", slug := ⟨"home", by decide⟩ },
   .reserveUpload
     { id := "u", projectId := "p", objectPath := "index.html", filename := "index.html",
       contentType := "text/html", expectedSize := 1, expectedChecksum := repeatedDigit 'c',
       storageKey := "versions/p/u", capabilityHash := repeatedDigit 'a', expiresAtMs := 50,
       createdAtMs := 1, source := .web, gitRepository := none, gitCommit := none,
       gitBranch := none, strategy := .single, partSize := none, partCount := none },
   .recordUploadedBytes "u" 1 (repeatedDigit 'c'), .completeUpload "u"].foldl
    (fun s request => match request.run s with | .ok (_, s') => s' | .error _ => s)
    Repository.empty

def yardEvent (id action targetType : String) (metadata : List (String × AuditValue))
    (createdAtMs : ℕ) : NewAuditEvent where
  id := id
  workspaceId := "w"
  actor := "owner"
  action := action
  requestId := "r"
  targetType := targetType
  metadata := metadata
  createdAtMs := createdAtMs

/-- Starts the deploy named by a letter at the given time. -/
def startRequest (letter : Char) (createdAtMs : ℕ) : Request :=
  .start
    { id := "y", workspaceId := "w", projectId := "p", name := ⟨"main", by decide⟩,
      hostLabel := "main-yard", createdAtMs := 10 }
    { id := String.ofList ['d', letter], yardId := "y", workspaceId := "w", projectId := "p",
      clientDeployId := String.ofList (List.replicate 16 letter),
      manifestRoot := manifestRootOf "y" (String.ofList (List.replicate 16 letter)),
      deploymentHostLabel := String.ofList [letter, '-', 'd'], spa := false, cleanUrls := false,
      createdAtMs }
    (yardEvent "e1" "yard.created" "web_yard" [("yardId", .string "y")] 10)

/-- Finalises the deploy named by a letter with the one object as its index. -/
def finaliseRequest (letter : Char) (eventId status : String) (finalisedAtMs : ℕ) : Request :=
  .finalise (String.ofList ['d', letter])
    [{ normalizedPath := "index.html", versionId := "u", byteSize := 1 }] finalisedAtMs
    (yardEvent eventId "yard.deployed" "yard_deploy"
      [("deployId", .string (String.ofList ['d', letter])), ("fileCount", .number 1),
       ("status", .string status), ("totalBytes", .number 1)] finalisedAtMs)

/-- Eleven deploys are started and the newest is finalised. -/
def manyDeploys : Repository :=
  ([.environment uploadedObject, startRequest 'a' 11, startRequest 'b' 12, startRequest 'c' 13,
    startRequest 'd' 14, startRequest 'e' 15, startRequest 'f' 16, startRequest 'g' 17,
    startRequest 'h' 18, startRequest 'i' 19, startRequest 'j' 20, startRequest 'k' 21,
    finaliseRequest 'k' "e2" "live" 30] : List Request).foldl exec Repository.empty

/-- The newest deploy is live and the state is lawful. -/
theorem lawful_manyDeploys :
    (∃ d ∈ manyDeploys.yardDeploys, d.status = .live) ∧ Lawful manyDeploys :=
  ⟨by decide +kernel, (deploy_law (Run.ofList_true (fun _ _ => rfl) Run.init _)).1⟩

/-- The oldest of the eleven deploys, finalised after the newest, is pruned and never becomes
superseded. -/
theorem late_finalise_is_pruned :
    Run system (fun _ _ => True) manyDeploys ∧
      (∃ deploy ∈ manyDeploys.yardDeploys,
        deploy.id = "da" ∧ InProgress deploy ∧ manyDeploys.NewerFinalised deploy) ∧
      ∃ d ∈ (exec manyDeploys (finaliseRequest 'a' "e3" "superseded" 31)).yardDeploys,
        d.id = "da" ∧ d.status = .pruned :=
  ⟨Run.ofList_true (fun _ _ => rfl) Run.init _, by decide +kernel⟩

end YardDeploys

end BlobYard
