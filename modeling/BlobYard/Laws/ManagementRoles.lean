/-
Owners of a yard.

The last owner assignment of a yard is neither revoked nor changed to another role.  Users are
deactivated by another component, which does not look at assignments; so an owner assignment may
outlive its user, and then the last assignment that counts may go as well.

* `Governed` — the invariant: every yard with assignments has an owner who is an active user;
* `KeepsOwner` — the requests that leave such an owner;
* `governed_exec` — those requests keep the invariant;
* `owned_of_keeps_owner` — the law over their runs;
* `deactivation_orphans_yard` — without the condition, two requests and a deactivation break it.
-/
import BlobYard.Lib.Run
import BlobYard.Repository.LocalUsers
import BlobYard.Repository.YardRequests
import BlobYard.Repository.YardRoles

namespace BlobYard

open Outcome Repository

namespace ManagementRoles

/-! ### Requests and runs -/

/-- The requests on users, roles and yards, or any other change of the remaining tables. -/
inductive Request where
  | createUser (user : LocalUserRecord) (key : LocalUserLoginKeyRecord) (event : NewAuditEvent)
  | resetKey (key : LocalUserLoginKeyRecord) (nowMs : ℕ) (event : NewAuditEvent)
  | authenticateUser (secretHash : String) (nowMs : ℕ)
  | deactivateUser (userId : String) (nowMs : ℕ) (event : NewAuditEvent)
  | setRole (yardId userId : String) (role : YardManagementRole) (nowMs : ℕ)
    (event : NewAuditEvent)
  | revokeRole (yardId userId : String) (nowMs : ℕ) (event : NewAuditEvent)
  | yard (request : YardRequest)
  | environment (other : Repository)

section Requests

variable [Unicode]

def Request.run (s : Repository) : Request → Except RepositoryError Repository
  | .createUser user key event => s.createLocalUser user key event
  | .resetKey key nowMs event => s.resetLocalUserLoginKey key nowMs event
  | .authenticateUser secretHash nowMs => Prod.snd <$> s.authenticateLocalUserKey secretHash nowMs
  | .deactivateUser userId nowMs event => s.deactivateLocalUser userId nowMs event
  | .setRole yardId userId role nowMs event =>
    Prod.snd <$> s.setYardManagementRole yardId userId role nowMs event
  | .revokeRole yardId userId nowMs event => s.revokeYardManagementRole yardId userId nowMs event
  | .yard request => request.run s
  | .environment other =>
    .ok { other with
      webYards := s.webYards, localUsers := s.localUsers
      yardManagementRoles := s.yardManagementRoles }

/-- A request that fails leaves everything as it was. -/
def exec (s : Repository) (request : Request) : Repository :=
  match request.run s with
  | .ok s' => s'
  | .error _ => s

/-- Requests in any order, from an empty repository. -/
def system : System Repository Request where
  init := Repository.empty
  step s request s' := s' = exec s request

end Requests

/-! ### The condition -/

/-- An active user other than `userId` holds an owner assignment of the yard. -/
def OwnedBesides (s : Repository) (yardId userId : String) : Prop :=
  ∃ a ∈ s.yardManagementRoles, a.yardId = yardId ∧ a.role = .owner ∧ a.userId ≠ userId ∧
    s.ActiveUser a.workspaceId a.userId

instance (s : Repository) (yardId userId : String) : Decidable (OwnedBesides s yardId userId) :=
  inferInstanceAs (Decidable (∃ a ∈ s.yardManagementRoles, _))

/-- When the owner assignment of `userId` is one of several, another one is held by an active
user.  (A sole owner assignment is protected by the operations themselves.) -/
def Dispensable (s : Repository) (yardId userId : String) : Prop :=
  (∃ a ∈ s.yardManagementRoles, a.yardId = yardId ∧ a.userId = userId ∧ a.role = .owner) →
    (∃ b ∈ s.yardManagementRoles, b.yardId = yardId ∧ b.role = .owner ∧ b.userId ≠ userId) →
      OwnedBesides s yardId userId

instance (s : Repository) (yardId userId : String) : Decidable (Dispensable s yardId userId) :=
  inferInstanceAs (Decidable ((∃ a ∈ s.yardManagementRoles, _) →
    (∃ b ∈ s.yardManagementRoles, _) → _))

/-- The request takes no owner away from a yard unless an active owner is left: neither by
deactivating the user, nor by revoking or changing the assignment. -/
def KeepsOwner (s : Repository) : Request → Prop
  | .deactivateUser userId _ _ =>
    (∃ u ∈ s.localUsers, u.id = userId ∧ u.status = .active) →
      ∀ a ∈ s.yardManagementRoles, a.userId = userId → a.role = .owner →
        OwnedBesides s a.yardId userId
  | .setRole yardId userId role _ _ => role ≠ .owner → Dispensable s yardId userId
  | .revokeRole yardId userId _ _ => Dispensable s yardId userId
  | _ => True

instance (s : Repository) : (request : Request) → Decidable (KeepsOwner s request)
  | .deactivateUser userId _ _ =>
    inferInstanceAs (Decidable ((∃ u ∈ s.localUsers, u.id = userId ∧ u.status = .active) →
      ∀ a ∈ s.yardManagementRoles, a.userId = userId → a.role = .owner →
        OwnedBesides s a.yardId userId))
  | .setRole yardId userId role _ _ =>
    inferInstanceAs (Decidable (role ≠ .owner → Dispensable s yardId userId))
  | .revokeRole yardId userId _ _ => inferInstanceAs (Decidable (Dispensable s yardId userId))
  | .createUser .. | .resetKey .. | .authenticateUser .. | .yard _ | .environment _ =>
    inferInstanceAs (Decidable True)

/-! ### The invariant -/

/-- Every assignment is one of an existing yard, a yard with assignments has an owner who is an
active user, and it has at most 500 assignments. -/
structure Governed (s : Repository) : Prop where
  placed : ∀ a ∈ s.yardManagementRoles,
    ∃ y ∈ s.webYards, y.id = a.yardId ∧ y.workspaceId = a.workspaceId
  owned : ∀ a ∈ s.yardManagementRoles, ∃ o ∈ s.yardManagementRoles, o.yardId = a.yardId ∧
    o.role = .owner ∧ s.ActiveUser o.workspaceId o.userId
  bounded : ∀ yardId, (s.rolesOf yardId).length ≤ maximumYardManagementRoles

theorem governed_init : Governed Repository.empty where
  placed _ h := absurd h Table.not_mem_empty
  owned _ h := absurd h Table.not_mem_empty
  bounded _ := Nat.zero_le _

variable {s s' : Repository}

/-- The number of assignments of a yard as a sum over the table. -/
theorem length_rolesOf (yardId : String) : (s.rolesOf yardId).length =
    s.yardManagementRoles.sumBy fun a => if a.yardId = yardId then 1 else 0 :=
  Table.sumBy_indicator.symm

/-- An owner of the yard who is someone else than `userId` is an owner besides `userId`. -/
theorem ownedBesides_of_owner {o : YardManagementRoleAssignment} {yardId userId : String}
    (ho : o ∈ s.yardManagementRoles) (hyard : o.yardId = yardId) (howner : o.role = .owner)
    (hactive : s.ActiveUser o.workspaceId o.userId) (hne : o.userId ≠ userId) :
    OwnedBesides s yardId userId :=
  ⟨o, ho, hyard, howner, hne, hactive⟩

/-- Whether a user is active is a matter of the table of users alone. -/
theorem activeUser_congr (hu : s'.localUsers = s.localUsers) {workspaceId userId : String}
    (h : s.ActiveUser workspaceId userId) : s'.ActiveUser workspaceId userId := by
  unfold ActiveUser at h ⊢
  rwa [hu]

/-- Users come without harm to the owners. -/
theorem governed_createUser {user : LocalUserRecord} {users : Table LocalUserRecord.id}
    (h : Governed s) (husers : s.localUsers.Inserted users user)
    (hs : s'.localUsers = users ∧ s'.yardManagementRoles = s.yardManagementRoles ∧
      s'.webYards = s.webYards) : Governed s' := by
  obtain ⟨hu, hr, hy⟩ := hs
  refine ⟨?_, ?_, ?_⟩
  · rw [hr, hy]
    exact h.placed
  · rw [hr]
    intro a ha
    obtain ⟨o, ho, hyard, howner, u, hmem, hactive⟩ := h.owned a ha
    exact ⟨o, ho, hyard, howner, u, hu ▸ husers.mem_of_mem hmem, hactive⟩
  · intro yardId
    rw [rolesOf, hr]
    exact h.bounded yardId

/-- A user may go when an active owner is left on each of its yards. -/
theorem governed_deactivateUser {user : LocalUserRecord} {users : Table LocalUserRecord.id}
    {nowMs : ℕ} (h : Governed s)
    (husers : s.localUsers.Replaced users user
      { user with status := .deactivated, deactivatedAtMs := some nowMs })
    (hs : s'.localUsers = users ∧ s'.yardManagementRoles = s.yardManagementRoles ∧
      s'.webYards = s.webYards)
    (hkeeps : ∀ a ∈ s.yardManagementRoles, a.userId = user.id → a.role = .owner →
      OwnedBesides s a.yardId user.id) : Governed s' := by
  obtain ⟨hu, hr, hy⟩ := hs
  refine ⟨?_, ?_, ?_⟩
  · rw [hr, hy]
    exact h.placed
  · rw [hr]
    intro a ha
    -- an owner of the yard who is not the user that goes
    have hother : OwnedBesides s a.yardId user.id := by
      obtain ⟨o, ho, hyard, howner, hactive⟩ := h.owned a ha
      by_cases hgone : o.userId = user.id
      · exact hyard ▸ hkeeps o ho hgone howner
      · exact ownedBesides_of_owner ho hyard howner hactive hgone
    obtain ⟨o, ho, hyard, howner, hne, u, hmem, huid, huworkspace, hustatus⟩ := hother
    refine ⟨o, ho, hyard, howner, u, ?_, huid, huworkspace, hustatus⟩
    rw [hu, husers.mem]
    refine Or.inl ⟨hmem, ?_⟩
    rintro rfl
    exact hne huid.symm
  · intro yardId
    rw [rolesOf, hr]
    exact h.bounded yardId

/-- A new assignment below the limit, which is an owner when it is the first. -/
theorem governed_insertRole {yard : WebYardRecord} {a : YardManagementRoleAssignment}
    {roles : Table fun a : YardManagementRoleAssignment => (a.yardId, a.userId)} (h : Governed s)
    (hroles : s.yardManagementRoles.Inserted roles a) (hyard : yard ∈ s.webYards)
    (hid : yard.id = a.yardId) (hworkspace : a.workspaceId = yard.workspaceId)
    (huser : s.ActiveUser yard.workspaceId a.userId)
    (hlimit : (s.rolesOf a.yardId).length < maximumYardManagementRoles)
    (hfirst : (s.rolesOf a.yardId).length = 0 → a.role = .owner)
    (hs : s'.localUsers = s.localUsers ∧ s'.yardManagementRoles = roles ∧
      s'.webYards = s.webYards) : Governed s' := by
  obtain ⟨hu, hr, hy⟩ := hs
  refine ⟨?_, ?_, ?_⟩
  -- the new assignment is in the yard of its workspace
  · rw [hr, hy]
    intro b hb
    rcases (hroles.mem b).mp hb with hb | rfl
    · exact h.placed b hb
    · exact ⟨yard, hyard, hid, hworkspace.symm⟩
  -- a yard that had assignments had an owner, who stays
  · rw [hr]
    intro b hb
    have hold : ∀ c ∈ s.yardManagementRoles, c.yardId = b.yardId →
        ∃ o ∈ roles, o.yardId = b.yardId ∧ o.role = .owner ∧
          s'.ActiveUser o.workspaceId o.userId := by
      intro c hc hcb
      obtain ⟨o, ho, hoc, howner, hactive⟩ := h.owned c hc
      exact ⟨o, hroles.mem_of_mem ho, hoc.trans hcb, howner, activeUser_congr hu hactive⟩
    -- the first assignment of a yard is its owner
    rcases (hroles.mem b).mp hb with hbs | rfl
    · exact hold b hbs rfl
    · rcases Nat.eq_zero_or_pos (s.rolesOf b.yardId).length with hzero | hpos
      · exact ⟨b, hb, rfl, hfirst hzero, activeUser_congr hu (hworkspace ▸ huser)⟩
      · obtain ⟨c, hc⟩ := List.exists_mem_of_length_pos hpos
        exact hold c (mem_rolesOf.mp hc).1 (mem_rolesOf.mp hc).2
  -- one more, below the limit
  · intro yardId
    have hsum := hroles.sum fun b => if b.yardId = yardId then 1 else 0
    have hbound := h.bounded yardId
    rw [length_rolesOf] at hbound hlimit ⊢
    rw [hr, hsum]
    by_cases hyardId : a.yardId = yardId
    · rw [hyardId] at hlimit
      rw [if_pos hyardId]
      exact hlimit
    · rw [if_neg hyardId]
      exact hbound

/-- An assignment whose role changes, where an active owner besides it is left or it is one. -/
theorem governed_changeRole {previous a : YardManagementRoleAssignment}
    {roles : Table fun a : YardManagementRoleAssignment => (a.yardId, a.userId)} (h : Governed s)
    (hroles : s.yardManagementRoles.Replaced roles previous a)
    (hworkspace : a.workspaceId = previous.workspaceId)
    (huser : s.ActiveUser a.workspaceId a.userId)
    (hkeeps : previous.role = .owner → a.role ≠ .owner → OwnedBesides s a.yardId a.userId)
    (hs : s'.localUsers = s.localUsers ∧ s'.yardManagementRoles = roles ∧
      s'.webYards = s.webYards) : Governed s' := by
  obtain ⟨hu, hr, hy⟩ := hs
  obtain ⟨hyardId, huserId⟩ := Prod.ext_iff.mp hroles.key_eq
  simp only at hyardId huserId
  -- an owner besides the assignment is still there afterwards
  have hothers : OwnedBesides s a.yardId a.userId → ∃ o ∈ roles, o.yardId = a.yardId ∧
      o.role = .owner ∧ s'.ActiveUser o.workspaceId o.userId := by
    rintro ⟨o, ho, hoy, howner, hne, hactive⟩
    refine ⟨o, (hroles.mem o).mpr (Or.inl ⟨ho, ?_⟩), hoy, howner, activeUser_congr hu hactive⟩
    rintro rfl
    exact hne huserId.symm
  refine ⟨?_, ?_, ?_⟩
  · rw [hr, hy]
    intro b hb
    rcases (hroles.mem b).mp hb with ⟨hb, -⟩ | rfl
    · exact h.placed b hb
    · rw [hyardId, hworkspace]
      exact h.placed previous hroles.mem_old
  · rw [hr]
    intro b hb
    obtain ⟨c, hc, hcb⟩ : ∃ c ∈ s.yardManagementRoles, c.yardId = b.yardId := by
      rcases (hroles.mem b).mp hb with ⟨hb, -⟩ | rfl
      · exact ⟨b, hb, rfl⟩
      · exact ⟨previous, hroles.mem_old, hyardId.symm⟩
    obtain ⟨o, ho, hoc, howner, hactive⟩ := h.owned c hc
    by_cases hprevious : o = previous
    · subst hprevious
      have hsame : a.yardId = b.yardId := hyardId.trans (hoc.trans hcb)
      rw [← hsame]
      by_cases hrole : a.role = .owner
      · exact ⟨a, hroles.mem_new, rfl, hrole, activeUser_congr hu huser⟩
      · exact hothers (hkeeps howner hrole)
    · exact ⟨o, (hroles.mem o).mpr (Or.inl ⟨ho, hprevious⟩), hoc.trans hcb, howner,
        activeUser_congr hu hactive⟩
  · intro yardId
    have hsum := hroles.sum fun b => if b.yardId = yardId then 1 else 0
    have hbound := h.bounded yardId
    rw [length_rolesOf] at hbound ⊢
    rw [hyardId] at hsum
    rw [hr]
    omega

/-- An assignment that goes, where an active owner besides it is left if it is one. -/
theorem governed_removeRole {previous : YardManagementRoleAssignment} {yardId userId : String}
    (h : Governed s) (hmem : previous ∈ s.yardManagementRoles) (hyard : previous.yardId = yardId)
    (huser : previous.userId = userId)
    (hkeeps : previous.role = .owner → OwnedBesides s yardId userId)
    (hs : s'.localUsers = s.localUsers ∧
      s'.yardManagementRoles = (s.yardManagementRoles.erase fun a =>
        a.yardId = yardId ∧ a.userId = userId) ∧ s'.webYards = s.webYards) : Governed s' := by
  obtain ⟨hu, hr, hy⟩ := hs
  have hmem' : ∀ b, b ∈ s'.yardManagementRoles ↔
      b ∈ s.yardManagementRoles ∧ ¬(b.yardId = yardId ∧ b.userId = userId) := by
    intro b
    rw [hr, Table.mem_erase]
  refine ⟨?_, ?_, ?_⟩
  -- the assignments that are left are in their yards
  · rw [hy]
    intro b hb
    exact h.placed b ((hmem' b).mp hb).1
  -- the owner of before is left, or was the one that goes; then there was another
  · intro b hb
    obtain ⟨o, ho, hob, howner, hactive⟩ := h.owned b ((hmem' b).mp hb).1
    by_cases hgone : o.yardId = yardId ∧ o.userId = userId
    · have hprevious : o = previous :=
        Table.eq_of_key ho hmem (Prod.ext (hgone.1.trans hyard.symm) (hgone.2.trans huser.symm))
      obtain ⟨o', ho', hoy', howner', hne, hactive'⟩ := hkeeps (hprevious ▸ howner)
      exact ⟨o', (hmem' o').mpr ⟨ho', fun hg => hne hg.2⟩, hoy'.trans (hgone.1.symm.trans hob),
        howner', activeUser_congr hu hactive'⟩
    · exact ⟨o, (hmem' o).mpr ⟨ho, hgone⟩, hob, howner, activeUser_congr hu hactive⟩
  -- and there are no more of them
  · intro yardId'
    refine le_trans (List.Sublist.length_le ?_) (h.bounded yardId')
    rw [rolesOf, hr]
    exact List.filter_sublist.filter _

/-! ### One request -/

section Runs

variable [Unicode] {request : Request}

/-- A request that keeps an active owner keeps the invariant. -/
theorem governed_exec (h : Governed s) (hkeeps : KeepsOwner s request) :
    Governed (exec s request) := by
  unfold exec
  cases hrun : request.run s with
  | error e => exact h
  | ok s' =>
    -- creating, resetting and authenticating a user leaves the roles
    cases request with
    | createUser user key event =>
      obtain ⟨_, _, _, _, rfl, -, husers, -, -⟩ := createLocalUser_spec hrun
      exact governed_createUser h husers ⟨rfl, rfl, rfl⟩
    | resetKey key nowMs event =>
      obtain ⟨_, _, rfl, -⟩ := resetLocalUserLoginKey_spec hrun
      exact ⟨h.placed, h.owned, h.bounded⟩
    | authenticateUser secretHash nowMs =>
      simp only [Request.run, map_eq_ok] at hrun
      obtain ⟨⟨_, _⟩, hrun, rfl⟩ := hrun
      obtain ⟨_, rfl⟩ := authenticateLocalUserKey_spec hrun
      exact ⟨h.placed, h.owned, h.bounded⟩
    -- a user who owns a yard goes only when another owner is left
    | deactivateUser userId nowMs event =>
      obtain ⟨user, _, _, _, _, _, rfl, rfl, hactive, husers, -, -⟩ := deactivateLocalUser_spec hrun
      exact governed_deactivateUser h husers ⟨rfl, rfl, rfl⟩
        (hkeeps ⟨user, husers.mem_old, rfl, hactive⟩)
    | setRole yardId userId role nowMs event =>
      simp only [Request.run, map_eq_ok] at hrun
      obtain ⟨⟨a, _⟩, hrun, rfl⟩ := hrun
      obtain ⟨yard, _, _, rfl, hyard, rfl, huser, -, hayard, rfl, rfl, hcases⟩ :=
        setYardManagementRole_spec hrun
      -- a new assignment, or a changed one
      rcases hcases with ⟨hroles, hworkspace, hlimit, hfirst⟩ | ⟨previous, hroles, hworkspace, hother⟩
      · rw [← hayard] at hlimit hfirst
        exact governed_insertRole h hroles hyard hayard.symm hworkspace huser hlimit hfirst
          ⟨rfl, rfl, rfl⟩
      · obtain ⟨hyardId, huserId⟩ := Prod.ext_iff.mp hroles.key_eq
        simp only at hyardId huserId
        -- the changed one stays in the workspace of its yard
        have hsame : a.workspaceId = yard.workspaceId := by
          obtain ⟨y, hy, hyid, hyworkspace⟩ := h.placed previous hroles.mem_old
          have hyy : y = yard :=
            Table.eq_of_key hy hyard (hyid.trans (hyardId.symm.trans hayard))
          exact hworkspace.trans (hyworkspace.symm.trans (congrArg _ hyy))
        refine governed_changeRole h hroles hworkspace (hsame ▸ huser) (fun howner hrole => ?_)
          ⟨rfl, rfl, rfl⟩
        rw [hayard]
        exact hkeeps hrole ⟨previous, hroles.mem_old, hyardId.symm.trans hayard, huserId.symm, howner⟩
          (hother howner hrole)
    | revokeRole yardId userId nowMs event =>
      obtain ⟨previous, _, rfl, hmem, hyard, huser, hother, -⟩ := revokeYardManagementRole_spec hrun
      exact governed_removeRole h hmem hyard huser
        (fun howner => hkeeps ⟨previous, hmem, hyard, huser, howner⟩ (hother howner))
        ⟨rfl, rfl, rfl⟩
    -- the yards may change, but not their ids and workspaces
    | yard request =>
      have hkept := YardRequest.yardsKept hrun
      obtain ⟨_, _, _, _, _, _, _, rfl, -⟩ := YardRequest.hosting hrun
      refine ⟨fun a ha => ?_, h.owned, h.bounded⟩
      obtain ⟨y, hy, hid, hworkspace⟩ := h.placed a ha
      obtain ⟨y', hy', hid', hworkspace', -⟩ := hkept y hy
      exact ⟨y', hy', hid'.trans hid, hworkspace'.trans hworkspace⟩
    | environment other =>
      simp only [Request.run, Except.ok.injEq] at hrun
      subst hrun
      exact ⟨h.placed, h.owned, h.bounded⟩

/-! ### The law over runs -/

/-- A yard with assignments has an owner assignment held by an active user of its workspace, and
at most 500 assignments. -/
structure Lawful (s : Repository) : Prop where
  owned : ∀ y ∈ s.webYards, (∃ a ∈ s.yardManagementRoles, a.yardId = y.id) →
    ∃ a ∈ s.yardManagementRoles, a.yardId = y.id ∧ a.role = .owner ∧
      s.ActiveUser y.workspaceId a.userId
  bounded : ∀ yardId, (s.yardManagementRoles.select fun a => a.yardId = yardId).length ≤
    maximumYardManagementRoles

omit [Unicode] in
theorem Governed.lawful (h : Governed s) : Lawful s where
  owned y hy := by
    rintro ⟨a, ha, hay⟩
    obtain ⟨o, ho, hoa, howner, hactive⟩ := h.owned a ha
    obtain ⟨y', hy', hid, hworkspace⟩ := h.placed o ho
    have hyy : y' = y := Table.eq_of_key hy' hy (hid.trans (hoa.trans hay))
    exact ⟨o, ho, hoa.trans hay, howner, by rw [← hyy, hworkspace]; exact hactive⟩
  bounded := h.bounded

/-- **Management roles**: in every run whose requests leave an active owner wherever they take
an owner away, a yard with assignments has an owner who is an active user of its workspace, and
at most 500 assignments; and whatever the state, a request that fails changes nothing. -/
theorem owned_of_keeps_owner (h : Run system KeepsOwner s) :
    Lawful s ∧ ∀ (s₀ : Repository) (request : Request) (e : RepositoryError),
      request.run s₀ = .error e → exec s₀ request = s₀ := by
  refine ⟨Governed.lawful ?_, fun s₀ request e hrun => ?_⟩
  · refine Run.inv (P := Governed) governed_init ?_ h
    rintro s request _ hs hguard rfl
    exact governed_exec hs hguard
  · rw [exec, hrun]

end Runs

/-! ### A yard with two owners -/

attribute [local instance] asciiUnicode

/-- Creates a user named by a letter, with a login key. -/
def createUserRequest (letter : Char) : Request :=
  let id := String.ofList ['u', letter]
  .createUser
    { id, workspaceId := "w", displayName := id, email := none, status := .active,
      createdAtMs := 5, deactivatedAtMs := none }
    { id := id ++ "-key", userId := id, tokenPrefix := "key", secretHash := repeatedDigit letter,
      createdAtMs := 5, expiresAtMs := 900, lastUsedAtMs := none, revokedAtMs := none }
    (workspaceEvent (id ++ "-created") "user.created" "local_user" 5 [("userId", .string id)])

/-- Makes the user named by a letter an owner of the yard. -/
def setOwnerRequest (letter : Char) : Request :=
  let id := String.ofList ['u', letter]
  .setRole "y" id .owner 20
    (workspaceEvent (id ++ "-owner") "yard.management_role_set" "yard_management_role" 20
      [("from", .null), ("to", .string "owner"), ("userId", .string id), ("yardId", .string "y")])

/-- Deactivates the user named by a letter. -/
def deactivateRequest (letter : Char) : Request :=
  let id := String.ofList ['u', letter]
  .deactivateUser id 30
    (workspaceEvent (id ++ "-gone") "user.deactivated" "local_user" 30 [("userId", .string id)])

/-- Two users own the yard and one of them is deactivated. -/
def twoOwners : List Request :=
  [.environment pressProject, .yard startPress, createUserRequest 'a', createUserRequest 'b',
    setOwnerRequest 'a', setOwnerRequest 'b', deactivateRequest 'a']

/-- The other owner is still there. -/
theorem lawful_twoOwners :
    (∃ u ∈ (twoOwners.foldl exec Repository.empty).localUsers, u.status = .deactivated) ∧
      Lawful (twoOwners.foldl exec Repository.empty) :=
  ⟨by decide +kernel,
    (owned_of_keeps_owner (Run.ofList (fun _ _ => rfl) Run.init (by decide +kernel))).1⟩

/-- One user owns the yard and is deactivated. -/
def soleOwner : List Request :=
  [.environment pressProject, .yard startPress, createUserRequest 'a', setOwnerRequest 'a',
    deactivateRequest 'a']

/-- Deactivating the sole owner of a yard leaves it with an assignment and without an owner. -/
theorem deactivation_orphans_yard :
    Run system (fun _ _ => True) (soleOwner.foldl exec Repository.empty) ∧
      (∃ a ∈ (soleOwner.foldl exec Repository.empty).yardManagementRoles, a.yardId = "y") ∧
      ¬∃ a ∈ (soleOwner.foldl exec Repository.empty).yardManagementRoles, a.yardId = "y" ∧
        a.role = .owner ∧ (soleOwner.foldl exec Repository.empty).ActiveUser "w" a.userId :=
  ⟨Run.ofList_true (fun _ _ => rfl) Run.init _, by decide +kernel⟩

end ManagementRoles

end BlobYard
