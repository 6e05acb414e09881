/-
The authority that an application sees.

A session comes with the roles of its grants, and some of them may be gone from the policy by
now.  The stored closure turns those that are left, and the default role, into roles and
permissions.

* `AuthorityOf` — the closure of the assigned roles and the default role;
* `authority_spec`, `AuthorityOf.unique` — the code computes it, and there is only one;
* `applicationAuthority_law` — the authority, its growth with the assigned roles, and what it
  does not depend on.
-/
import BlobYard.Laws.PolicyClosures
import BlobYard.Repository.YardIdentity

namespace BlobYard

namespace PolicyAuthorities

open ApplicationPolicy

/-- The stored closure is the one that the stored graph has. -/
def Stored (policy : YardApplicationPolicyRecord) : Prop :=
  canonicalizeApplicationPolicy policy.policy = .ok ⟨policy.policy, policy.effective⟩

/-- The role is assigned, or everybody has it. -/
def Assigned (policy : YardApplicationPolicyRecord) (roles : List String) (role : String) : Prop :=
  role ∈ roles ∨ policy.policy.defaultRole = some role

/-- The policy declares the role. -/
def Declared (policy : YardApplicationPolicyRecord) (role : String) : Prop :=
  ∃ definition, role? policy.policy role = some definition

/-- The roles and the permissions that are reached from the assigned roles, as far as the policy
declares them, each once and in order. -/
structure AuthorityOf (policy : YardApplicationPolicyRecord) (roles : List String)
    (authority : List String × List String) : Prop where
  roles_sorted : authority.1.Pairwise (· < ·)
  permissions_sorted : authority.2.Pairwise (· < ·)
  mem_roles : ∀ role, role ∈ authority.1 ↔
    Declared policy role ∧ ∃ assigned, Assigned policy roles assigned ∧
      Reaches policy.policy assigned role
  mem_permissions : ∀ permission, permission ∈ authority.2 ↔
    ∃ assigned, Assigned policy roles assigned ∧ Grants policy.policy assigned permission

variable {policy : YardApplicationPolicyRecord} {roles roles' : List String}

/-! ### The stored closure -/

theorem Stored.closure (h : Stored policy) : ClosureOf policy.policy policy.effective :=
  (policyClosure_spec h).1

theorem Stored.parents (h : Stored policy) : ParentsDeclared policy.policy :=
  parentsDeclared (valid_iff.mp (canonicalize_eq_ok.mp h).1).2.1

theorem mem_of_lookup {entries : List (String × List String)} {role : String}
    {values : List String} (h : entries.lookup role = some values) : (role, values) ∈ entries := by
  obtain ⟨before, after, heq, -⟩ := List.lookup_eq_some_iff.mp h
  rw [heq]
  simp

theorem declared_iff_mem {role : String} :
    Declared policy role ↔ role ∈ policy.policy.roles.map Prod.fst := by
  rw [Declared, ← Option.isSome_iff_exists, role?_isSome, List.mem_map]
  constructor
  · rintro ⟨definition, hrole⟩
    exact ⟨_, hrole, rfl⟩
  · rintro ⟨⟨_, definition⟩, hrole, rfl⟩
    exact ⟨definition, hrole⟩

/-- The declared roles have an entry. -/
theorem lookup_of_names {entries : List (String × List String)}
    (hnames : entries.map Prod.fst = policy.policy.roles.map Prod.fst) {role : String} :
    (∃ values, entries.lookup role = some values) ↔ Declared policy role := by
  rw [declared_iff_mem, ← hnames]
  constructor
  · rintro ⟨values, hvalues⟩
    exact List.mem_map.mpr ⟨_, mem_of_lookup hvalues, rfl⟩
  · intro hrole
    obtain ⟨⟨_, values⟩, hentry, rfl⟩ := List.mem_map.mp hrole
    rw [← Option.ne_none_iff_exists']
    intro hnone
    exact absurd rfl (bne_iff_ne.mp (List.lookup_eq_none_iff.mp hnone _ hentry))

/-- A role leads to declared roles if it is declared itself, and to no other role if not. -/
theorem declared_iff_of_reaches (h : Stored policy) {assigned role : String}
    (hreaches : Reaches policy.policy assigned role) :
    Declared policy assigned ↔ Declared policy role := by
  induction hreaches with
  | refl => exact Iff.rfl
  | tail _ hstep ih =>
    obtain ⟨definition, hdefinition, hparent⟩ := hstep
    exact ih.trans ⟨fun _ => h.parents _ definition hdefinition _ hparent,
      fun _ => ⟨definition, hdefinition⟩⟩

theorem declared_of_grants (h : Stored policy) {assigned permission : String}
    (hgrants : Grants policy.policy assigned permission) : Declared policy assigned := by
  obtain ⟨other, definition, hreaches, hother, -⟩ := hgrants
  exact (declared_iff_of_reaches h hreaches).mpr ⟨definition, hother⟩

/-! ### The authority -/

theorem mem_assignedRoles {role : String} :
    role ∈ assignedRoles policy roles ↔ Assigned policy roles role := by
  simp only [assignedRoles, mem_orderedTexts, List.mem_append, Option.mem_toList, Assigned]

theorem orderedTexts_strict (texts : List String) : (orderedTexts texts).Pairwise (· < ·) :=
  orderBy_strict (List.nodup_dedup texts) fun _ _ _ _ h => h

/-- The lookup in the stored map of roles. -/
theorem lookup_roles (h : Stored policy) {assigned : String} {expanded : List String}
    (hlookup : policy.effective.effectiveRoles.lookup assigned = some expanded) (role : String) :
    role ∈ expanded ↔ Reaches policy.policy assigned role :=
  h.closure.mem_roles _ (mem_of_lookup hlookup) role

/-- The lookup in the stored map of permissions. -/
theorem lookup_permissions (h : Stored policy) {assigned : String} (hassigned : Declared policy assigned)
    (permission : String) :
    permission ∈ (policy.effective.effectivePermissions.lookup assigned).getD [] ↔
      Grants policy.policy assigned permission := by
  obtain ⟨expanded, hexpanded⟩ := (lookup_of_names h.closure.permissionNames).mpr hassigned
  rw [hexpanded]
  exact h.closure.mem_permissions _ (mem_of_lookup hexpanded) permission

/-- The expansions are those of the declared roles among the assigned ones. -/
theorem mem_expandedRoles {expansion : List String × List String} :
    expansion ∈ expandedRoles policy roles ↔ ∃ assigned, Assigned policy roles assigned ∧
      policy.effective.effectiveRoles.lookup assigned = some expansion.1 ∧
      expansion.2 = (policy.effective.effectivePermissions.lookup assigned).getD [] := by
  simp only [expandedRoles, List.mem_filterMap, mem_assignedRoles, Option.map_eq_some_iff]
  constructor
  · rintro ⟨assigned, hassigned, expanded, hexpanded, rfl⟩
    exact ⟨assigned, hassigned, hexpanded, rfl⟩
  · rintro ⟨assigned, hassigned, hexpanded, hpermissions⟩
    exact ⟨assigned, hassigned, _, hexpanded, by rw [← hpermissions]⟩

/-- The code computes it. -/
theorem authority_spec (h : Stored policy) (roles : List String) :
    AuthorityOf policy roles (effectiveApplicationAuthority (some policy) roles) where
  roles_sorted := orderedTexts_strict _
  permissions_sorted := orderedTexts_strict _
  mem_roles role := by
    rw [effectiveApplicationAuthority, mem_orderedTexts, List.mem_flatMap]
    constructor
    · rintro ⟨expansion, hexpansion, hrole⟩
      obtain ⟨assigned, hassigned, hlookup, -⟩ := mem_expandedRoles.mp hexpansion
      have hreaches := (lookup_roles h hlookup role).mp hrole
      have hdeclared := (lookup_of_names h.closure.roleNames).mp ⟨_, hlookup⟩
      exact ⟨(declared_iff_of_reaches h hreaches).mp hdeclared, assigned, hassigned, hreaches⟩
    · rintro ⟨hdeclared, assigned, hassigned, hreaches⟩
      obtain ⟨expanded, hlookup⟩ := (lookup_of_names h.closure.roleNames).mpr
        ((declared_iff_of_reaches h hreaches).mpr hdeclared)
      exact ⟨(expanded, _), mem_expandedRoles.mpr ⟨assigned, hassigned, hlookup, rfl⟩,
        (lookup_roles h hlookup role).mpr hreaches⟩
  mem_permissions permission := by
    rw [effectiveApplicationAuthority, mem_orderedTexts, List.mem_flatMap]
    constructor
    · rintro ⟨expansion, hexpansion, hpermission⟩
      obtain ⟨assigned, hassigned, hlookup, hpermissions⟩ := mem_expandedRoles.mp hexpansion
      have hdeclared := (lookup_of_names h.closure.roleNames).mp ⟨_, hlookup⟩
      rw [hpermissions] at hpermission
      exact ⟨assigned, hassigned, (lookup_permissions h hdeclared permission).mp hpermission⟩
    · rintro ⟨assigned, hassigned, hgrants⟩
      have hdeclared := declared_of_grants h hgrants
      obtain ⟨expanded, hlookup⟩ := (lookup_of_names h.closure.roleNames).mpr hdeclared
      exact ⟨(expanded, _), mem_expandedRoles.mpr ⟨assigned, hassigned, hlookup, rfl⟩,
        (lookup_permissions h hdeclared permission).mpr hgrants⟩

/-- There is only one. -/
theorem AuthorityOf.unique {authority authority' : List String × List String}
    (h : AuthorityOf policy roles authority) (h' : AuthorityOf policy roles authority') :
    authority = authority' := by
  refine Prod.ext (eq_of_sorted h.roles_sorted h'.roles_sorted fun role => ?_)
    (eq_of_sorted h.permissions_sorted h'.permissions_sorted fun permission => ?_)
  · rw [h.mem_roles, h'.mem_roles]
  · rw [h.mem_permissions, h'.mem_permissions]

/-- More roles give no less. -/
theorem AuthorityOf.mono {authority authority' : List String × List String}
    (h : AuthorityOf policy roles authority) (h' : AuthorityOf policy roles' authority')
    (hsub : roles ⊆ roles') : authority.1 ⊆ authority'.1 ∧ authority.2 ⊆ authority'.2 := by
  have hassigned : ∀ role, Assigned policy roles role → Assigned policy roles' role :=
    fun role hrole => hrole.imp_left fun hmem => hsub hmem
  constructor
  · intro role hrole
    obtain ⟨hdeclared, assigned, hfrom, hreaches⟩ := (h.mem_roles role).mp hrole
    exact (h'.mem_roles role).mpr ⟨hdeclared, assigned, hassigned assigned hfrom, hreaches⟩
  · intro permission hpermission
    obtain ⟨assigned, hfrom, hgrants⟩ := (h.mem_permissions permission).mp hpermission
    exact (h'.mem_permissions permission).mpr ⟨assigned, hassigned assigned hfrom, hgrants⟩

/-- Only the set of the assigned roles counts. -/
theorem AuthorityOf.congr {authority : List String × List String}
    (h : AuthorityOf policy roles authority) (hsame : ∀ role, role ∈ roles ↔ role ∈ roles') :
    AuthorityOf policy roles' authority := by
  have hassigned : ∀ role, Assigned policy roles role ↔ Assigned policy roles' role :=
    fun role => or_congr_left (hsame role)
  exact {
    roles_sorted := h.roles_sorted
    permissions_sorted := h.permissions_sorted
    mem_roles := fun role => by simp only [h.mem_roles, hassigned]
    mem_permissions := fun permission => by simp only [h.mem_permissions, hassigned] }

/-- The authority is the closure of the assigned roles and the default role within the policy,
and nothing without a policy; it grows with the assigned roles and depends on their set only. -/
theorem applicationAuthority_law (policy : YardApplicationPolicyRecord) (h : Stored policy)
    (roles : List String) :
    AuthorityOf policy roles (effectiveApplicationAuthority (some policy) roles) ∧
      effectiveApplicationAuthority none roles = ([], []) ∧
      (∀ roles', roles ⊆ roles' →
        (effectiveApplicationAuthority (some policy) roles).1 ⊆
            (effectiveApplicationAuthority (some policy) roles').1 ∧
          (effectiveApplicationAuthority (some policy) roles).2 ⊆
            (effectiveApplicationAuthority (some policy) roles').2) ∧
      ∀ roles', (∀ role, role ∈ roles ↔ role ∈ roles') →
        effectiveApplicationAuthority (some policy) roles' =
          effectiveApplicationAuthority (some policy) roles :=
  ⟨authority_spec h roles, rfl,
    fun roles' hsub => (authority_spec h roles).mono (authority_spec h roles') hsub,
    fun roles' hsame => (authority_spec h roles').unique ((authority_spec h roles).congr hsame)⟩

/-- The small policy as it is stored. -/
def noteRecord : YardApplicationPolicyRecord where
  yardId := "yard"
  workspaceId := "workspace"
  revision := 1
  sourceManifestDigest := ""
  policy := notePolicy
  effective := noteClosure
  approvedAtMs := 0
  approvedByPrincipal := "owner"

/-- A role that the policy dropped adds nothing, in whatever order the roles come. -/
theorem applicationAuthority_note :
    effectiveApplicationAuthority (some noteRecord) ["editor", "dropped", "editor"] =
        (["editor", "viewer"], ["notes.read", "notes.write"]) ∧
      AuthorityOf noteRecord ["dropped", "editor"]
        (["editor", "viewer"], ["notes.read", "notes.write"]) := by
  have heditor : effectiveApplicationAuthority (some noteRecord) ["dropped", "editor"] =
      (["editor", "viewer"], ["notes.read", "notes.write"]) := by decide
  obtain ⟨hauthority, -, -, hcongr⟩ :=
    applicationAuthority_law noteRecord notePolicy_ok ["dropped", "editor"]
  rw [heditor] at hauthority hcongr
  refine ⟨hcongr _ fun role => ?_, hauthority⟩
  simp only [List.mem_cons, List.not_mem_nil, or_false]
  tauto

end PolicyAuthorities

end BlobYard
