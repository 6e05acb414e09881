/-
The closure of an application policy.

An accepted graph comes back with sorted arrays and with what every role reaches through its
parents.

* `ClosureOf` — the roles and the permissions that every role of a graph reaches;
* `expand_spec`, `ClosureOf.unique` — the code computes the closure, and there is only one;
* `canonicalize_congr` — only the sorted arrays of a graph count;
* `policyClosure_law` — the closure of an accepted graph, its canonical form once more, and its
  parts in any other order.
-/
import BlobYard.Core.ApplicationPolicy
import BlobYard.Lib.SortedMap

namespace BlobYard

namespace ApplicationPolicy

open GraphSearch Outcome

variable {graph graph' : ApplicationPolicyGraph}

/-! ### What a role reaches -/

/-- The role names the parent. -/
def Inherits (graph : ApplicationPolicyGraph) (name parent : String) : Prop :=
  ∃ definition, role? graph name = some definition ∧ parent ∈ definition.inherits

/-- Zero or more steps to a parent lead from the role to the other one. -/
def Reaches (graph : ApplicationPolicyGraph) : String → String → Prop :=
  Relation.ReflTransGen (Inherits graph)

/-- The role reaches one that has the permission. -/
def Grants (graph : ApplicationPolicyGraph) (name permission : String) : Prop :=
  ∃ other definition, Reaches graph name other ∧ role? graph other = some definition ∧
    permission ∈ definition.permissions

/-- The effective policy has for every role of the graph the roles that it reaches and the
permissions that it grants, each once and in order. -/
structure ClosureOf (graph : ApplicationPolicyGraph) (effective : EffectiveApplicationPolicy) :
    Prop where
  roleNames : effective.effectiveRoles.map Prod.fst = graph.roles.map Prod.fst
  permissionNames : effective.effectivePermissions.map Prod.fst = graph.roles.map Prod.fst
  roles_sorted : ∀ entry ∈ effective.effectiveRoles, entry.2.Pairwise (· < ·)
  permissions_sorted : ∀ entry ∈ effective.effectivePermissions, entry.2.Pairwise (· < ·)
  mem_roles : ∀ entry ∈ effective.effectiveRoles, ∀ role,
    role ∈ entry.2 ↔ Reaches graph entry.1 role
  mem_permissions : ∀ entry ∈ effective.effectivePermissions, ∀ permission,
    permission ∈ entry.2 ↔ Grants graph entry.1 permission

theorem edge_eq_inherits : Edge (parentGraph graph) = Inherits graph := by
  funext name parent
  exact propext edge_iff

theorem sortedSet_strict (values : List String) : (sortedSet values).Pairwise (· < ·) :=
  orderBy_strict (List.nodup_dedup values) fun _ _ _ _ h => h

/-! ### The code computes it -/

theorem inheritedClosure_strict {name : String} {roles : List String}
    (h : inheritedClosure name graph = .ok roles) : roles.Pairwise (· < ·) := by
  simp only [inheritedClosure, bind_eq_ok] at h
  obtain ⟨definition, -, h⟩ := h
  split at h
  · obtain rfl := Except.ok.inj h
    exact sortedSet_strict _
  · cases h
  · cases h

theorem expandRole_name {role : String × ApplicationRoleDefinition}
    {closure : String × List String × List String} (h : expandRole graph role = .ok closure) :
    closure.1 = role.1 := by
  simp only [expandRole, bind_eq_ok, pure_eq_ok] at h
  obtain ⟨roles, -, permissions, -, rfl⟩ := h
  rfl

/-- One turn of the loop. -/
theorem expandRole_spec (hparents : ParentsDeclared graph)
    {role : String × ApplicationRoleDefinition} (hrole : role ∈ graph.roles)
    {closure : String × List String × List String} (h : expandRole graph role = .ok closure) :
    closure.1 = role.1 ∧ closure.2.1.Pairwise (· < ·) ∧ closure.2.2.Pairwise (· < ·) ∧
      (∀ other, other ∈ closure.2.1 ↔ Reaches graph closure.1 other) ∧
      ∀ permission, permission ∈ closure.2.2 ↔ Grants graph closure.1 permission := by
  obtain ⟨definition, hdefinition⟩ := exists_role? hrole
  obtain ⟨roles, hroles, hmem⟩ := inheritedClosure_spec hparents hdefinition
  rw [edge_eq_inherits] at hmem
  have hstrict : roles.Pairwise (· < ·) := inheritedClosure_strict hroles
  simp only [expandRole, hroles, effectivePermissions, bind_eq_ok, pure_eq_ok, Except.ok.injEq,
    exists_eq_left'] at h
  obtain ⟨permissions, ⟨definitions, hdefinitions, rfl⟩, rfl⟩ := h
  refine ⟨rfl, hstrict, sortedSet_strict _, hmem, fun permission => ?_⟩
  rw [mem_sortedSet, List.mem_flatMap]
  -- indexing the roles of the closure finds their definitions
  have hindex : ∀ d, d ∈ definitions ↔ ∃ other ∈ roles, role? graph other = some d := by
    intro d
    rw [mem_of_mapM hdefinitions]
    simp only [index, ofOption_eq_ok]
  constructor
  · rintro ⟨d, hd, hpermission⟩
    obtain ⟨other, hother, hd⟩ := (hindex d).mp hd
    exact ⟨other, d, (hmem other).mp hother, hd, hpermission⟩
  · rintro ⟨other, d, hother, hd, hpermission⟩
    exact ⟨d, (hindex d).mpr ⟨other, (hmem other).mpr hother, hd⟩, hpermission⟩

theorem expand_spec (hparents : ParentsDeclared graph) {effective : EffectiveApplicationPolicy}
    (h : expand graph = .ok effective) : ClosureOf graph effective := by
  simp only [expand, bind_eq_ok, pure_eq_ok] at h
  obtain ⟨closures, hclosures, rfl⟩ := h
  -- each role has its closure, in the order of the graph
  have hnames : closures.map Prod.fst = graph.roles.map Prod.fst := by
    rw [← List.forall₂_eq_eq_eq, List.forall₂_map_left_iff, List.forall₂_map_right_iff]
    exact (mapM_forall₂ hclosures).flip.imp fun closure role h => expandRole_name h
  have hspec : ∀ closure ∈ closures, closure.2.1.Pairwise (· < ·) ∧
      closure.2.2.Pairwise (· < ·) ∧ (∀ other, other ∈ closure.2.1 ↔ Reaches graph closure.1 other) ∧
      ∀ permission, permission ∈ closure.2.2 ↔ Grants graph closure.1 permission := by
    intro closure hclosure
    obtain ⟨role, hrole, h⟩ := (mem_of_mapM hclosures).mp hclosure
    exact (expandRole_spec hparents hrole h).2
  exact {
    roleNames := by
      rw [← hnames, List.map_map]
      rfl
    permissionNames := by
      rw [← hnames, List.map_map]
      rfl
    roles_sorted := by
      intro entry hentry
      obtain ⟨closure, hclosure, rfl⟩ := List.mem_map.mp hentry
      exact (hspec closure hclosure).1
    permissions_sorted := by
      intro entry hentry
      obtain ⟨closure, hclosure, rfl⟩ := List.mem_map.mp hentry
      exact (hspec closure hclosure).2.1
    mem_roles := by
      intro entry hentry
      obtain ⟨closure, hclosure, rfl⟩ := List.mem_map.mp hentry
      exact (hspec closure hclosure).2.2.1
    mem_permissions := by
      intro entry hentry
      obtain ⟨closure, hclosure, rfl⟩ := List.mem_map.mp hentry
      exact (hspec closure hclosure).2.2.2 }

/-- Sorted lists with the same elements are the same. -/
theorem eq_of_sorted {values values' : List String} (h : values.Pairwise (· < ·))
    (h' : values'.Pairwise (· < ·)) (hmem : ∀ value, value ∈ values ↔ value ∈ values') :
    values = values' := by
  have hperm := (List.perm_ext_iff_of_nodup (h.imp ne_of_lt) (h'.imp ne_of_lt)).mpr hmem
  exact hperm.eq_of_pairwise (fun _ _ _ _ hab hba => absurd hab (lt_asymm hba)) h h'

/-- Entries with the same names and a value for each name are the same. -/
theorem eq_of_names {entries entries' : List (String × List String)}
    (hnames : entries.map Prod.fst = entries'.map Prod.fst)
    (hvalues : ∀ entry ∈ entries, ∀ entry' ∈ entries', entry.1 = entry'.1 → entry.2 = entry'.2) :
    entries = entries' := by
  induction entries generalizing entries' with
  | nil => exact (List.map_eq_nil_iff.mp hnames.symm).symm
  | cons entry entries ih =>
    cases entries' with
    | nil => cases hnames
    | cons entry' entries' =>
      rw [List.map_cons, List.map_cons, List.cons.injEq] at hnames
      have hvalue := hvalues entry List.mem_cons_self entry' List.mem_cons_self hnames.1
      rw [Prod.ext hnames.1 hvalue, ih hnames.2 fun other hother other' hother' =>
        hvalues other (List.mem_cons_of_mem _ hother) other' (List.mem_cons_of_mem _ hother')]

/-- There is only one closure. -/
theorem ClosureOf.unique {effective effective' : EffectiveApplicationPolicy}
    (h : ClosureOf graph effective) (h' : ClosureOf graph effective') : effective = effective' := by
  have hroles : effective.effectiveRoles = effective'.effectiveRoles := by
    refine eq_of_names (h.roleNames.trans h'.roleNames.symm) fun entry hentry entry' hentry' heq => ?_
    refine eq_of_sorted (h.roles_sorted entry hentry) (h'.roles_sorted entry' hentry') fun role => ?_
    rw [h.mem_roles entry hentry, h'.mem_roles entry' hentry', heq]
  have hpermissions : effective.effectivePermissions = effective'.effectivePermissions := by
    refine eq_of_names (h.permissionNames.trans h'.permissionNames.symm)
      fun entry hentry entry' hentry' heq => ?_
    refine eq_of_sorted (h.permissions_sorted entry hentry)
      (h'.permissions_sorted entry' hentry') fun permission => ?_
    rw [h.mem_permissions entry hentry, h'.mem_permissions entry' hentry', heq]
  cases effective
  cases effective'
  rw [EffectiveApplicationPolicy.mk.injEq]
  exact ⟨hroles, hpermissions⟩

/-! ### Only the sorted arrays count -/

theorem orderBy_idem (values : List String) :
    orderBy id (orderBy id values) = orderBy id values :=
  (orderBy_perm id _).eq_of_pairwise (fun _ _ _ _ => le_antisymm) (orderBy_pairwise id _)
    (orderBy_pairwise id _)

theorem orderBy_eq_of_perm {values values' : List String} (h : values.Perm values') :
    orderBy id values = orderBy id values' :=
  (((orderBy_perm id _).trans h).trans (orderBy_perm id _).symm).eq_of_pairwise
    (fun _ _ _ _ => le_antisymm) (orderBy_pairwise id _) (orderBy_pairwise id _)

/-- The definition with its arrays sorted. -/
def sortedDefinition (definition : ApplicationRoleDefinition) : ApplicationRoleDefinition where
  inherits := orderBy id definition.inherits
  permissions := orderBy id definition.permissions

theorem canonicalizeDirectArrays_roles (graph : ApplicationPolicyGraph) :
    (canonicalizeDirectArrays graph).roles =
      graph.roles.map fun role => (role.1, sortedDefinition role.2) :=
  rfl

theorem role?_canonical {name : String} :
    role? (canonicalizeDirectArrays graph) name = (role? graph name).map sortedDefinition :=
  role?_canonicalizeDirectArrays

theorem canonicalizeDirectArrays_idem (graph : ApplicationPolicyGraph) :
    canonicalizeDirectArrays (canonicalizeDirectArrays graph) = canonicalizeDirectArrays graph := by
  have hroles : (canonicalizeDirectArrays (canonicalizeDirectArrays graph)).roles =
      (canonicalizeDirectArrays graph).roles := by
    rw [canonicalizeDirectArrays_roles, canonicalizeDirectArrays_roles, List.map_map]
    refine List.map_congr_left fun role _ => ?_
    show (role.1, sortedDefinition (sortedDefinition role.2)) = (role.1, sortedDefinition role.2)
    rw [sortedDefinition, sortedDefinition, orderBy_idem, orderBy_idem]
  exact congrArg (ApplicationPolicyGraph.mk graph.defaultRole) hroles

theorem inherits_canonical : Inherits (canonicalizeDirectArrays graph) = Inherits graph := by
  funext name parent
  refine propext ⟨?_, ?_⟩
  · rintro ⟨definition, hrole, hparent⟩
    rw [role?_canonical, Option.map_eq_some_iff] at hrole
    obtain ⟨d, hd, rfl⟩ := hrole
    exact ⟨d, hd, mem_orderBy.mp hparent⟩
  · rintro ⟨definition, hrole, hparent⟩
    exact ⟨sortedDefinition definition, by rw [role?_canonical, hrole]; rfl,
      mem_orderBy.mpr hparent⟩

theorem reaches_canonical : Reaches (canonicalizeDirectArrays graph) = Reaches graph := by
  rw [Reaches, Reaches, inherits_canonical]

theorem grants_canonical {name permission : String} :
    Grants (canonicalizeDirectArrays graph) name permission ↔ Grants graph name permission := by
  rw [Grants, Grants, reaches_canonical]
  refine exists_congr fun other => ?_
  rw [role?_canonical]
  constructor
  · rintro ⟨definition, hreaches, hrole, hpermission⟩
    obtain ⟨d, hd, rfl⟩ := Option.map_eq_some_iff.mp hrole
    exact ⟨d, hreaches, hd, mem_orderBy.mp hpermission⟩
  · rintro ⟨definition, hreaches, hrole, hpermission⟩
    exact ⟨sortedDefinition definition, hreaches, by rw [hrole]; rfl, mem_orderBy.mpr hpermission⟩

theorem ClosureOf.of_canonical {effective : EffectiveApplicationPolicy}
    (h : ClosureOf (canonicalizeDirectArrays graph) effective) : ClosureOf graph effective where
  roleNames := by
    rw [h.roleNames, canonicalizeDirectArrays_roles, List.map_map]
    rfl
  permissionNames := by
    rw [h.permissionNames, canonicalizeDirectArrays_roles, List.map_map]
    rfl
  roles_sorted := h.roles_sorted
  permissions_sorted := h.permissions_sorted
  mem_roles entry hentry role := by rw [h.mem_roles entry hentry, reaches_canonical]
  mem_permissions entry hentry permission := by
    rw [h.mem_permissions entry hentry, grants_canonical]

theorem cyclic_canonical {name : String} :
    Cyclic (canonicalizeDirectArrays graph) name ↔ Cyclic graph name := by
  rw [Cyclic, Cyclic, edge_eq_inherits, edge_eq_inherits, inherits_canonical]

theorem declared_canonical {name : String} :
    (∃ d, (name, d) ∈ (canonicalizeDirectArrays graph).roles) ↔ ∃ d, (name, d) ∈ graph.roles := by
  rw [← role?_isSome, role?_canonical, Option.isSome_map, role?_isSome]

/-- What the checks say about the sorted roles. -/
theorem forall_canonical {p : String × ApplicationRoleDefinition → Prop} :
    (∀ role ∈ (canonicalizeDirectArrays graph).roles, p role) ↔
      ∀ role ∈ graph.roles, p (role.1, sortedDefinition role.2) := by
  rw [canonicalizeDirectArrays_roles, List.forall_mem_map]

/-- Sorting the arrays changes no check. -/
theorem valid_canonical : Valid (canonicalizeDirectArrays graph) ↔ Valid graph := by
  have hlength : ∀ values : List String, (orderBy id values).length = values.length :=
    fun values => (orderBy_perm id values).length_eq
  have hnodup : ∀ values : List String, (orderBy id values).Nodup ↔ values.Nodup :=
    fun values => (orderBy_perm id values).nodup_iff
  constructor
  · intro h
    exact {
      roles_le := by simpa only [canonicalizeDirectArrays_roles, List.length_map] using h.roles_le
      default_declared := fun role hrole => declared_canonical.mp (h.default_declared role hrole)
      name := forall_canonical.mp h.name
      inherits_le := fun role hrole =>
        (hlength _).symm.trans_le (forall_canonical.mp h.inherits_le role hrole)
      permissions_le := fun role hrole =>
        (hlength _).symm.trans_le (forall_canonical.mp h.permissions_le role hrole)
      inherits_nodup := fun role hrole =>
        (hnodup _).mp (forall_canonical.mp h.inherits_nodup role hrole)
      permissions_nodup := fun role hrole =>
        (hnodup _).mp (forall_canonical.mp h.permissions_nodup role hrole)
      inherits_declared := fun role hrole parent hparent => declared_canonical.mp
        (forall_canonical.mp h.inherits_declared role hrole parent (mem_orderBy.mpr hparent))
      permission := fun role hrole permission hpermission =>
        forall_canonical.mp h.permission role hrole permission (mem_orderBy.mpr hpermission)
      acyclic := fun role hrole hcyclic =>
        forall_canonical.mp h.acyclic role hrole (cyclic_canonical.mpr hcyclic) }
  · intro h
    exact {
      roles_le := by simpa only [canonicalizeDirectArrays_roles, List.length_map] using h.roles_le
      default_declared := fun role hrole => declared_canonical.mpr (h.default_declared role hrole)
      name := forall_canonical.mpr h.name
      inherits_le := forall_canonical.mpr fun role hrole =>
        (hlength _).trans_le (h.inherits_le role hrole)
      permissions_le := forall_canonical.mpr fun role hrole =>
        (hlength _).trans_le (h.permissions_le role hrole)
      inherits_nodup := forall_canonical.mpr fun role hrole =>
        (hnodup _).mpr (h.inherits_nodup role hrole)
      permissions_nodup := forall_canonical.mpr fun role hrole =>
        (hnodup _).mpr (h.permissions_nodup role hrole)
      inherits_declared := forall_canonical.mpr fun role hrole parent hparent =>
        declared_canonical.mpr (h.inherits_declared role hrole parent (mem_orderBy.mp hparent))
      permission := forall_canonical.mpr fun role hrole permission hpermission =>
        h.permission role hrole permission (mem_orderBy.mp hpermission)
      acyclic := forall_canonical.mpr fun role hrole hcyclic =>
        h.acyclic role hrole (cyclic_canonical.mp hcyclic) }

theorem canonicalize_eq_ok {canonical : CanonicalApplicationPolicy} :
    canonicalizeApplicationPolicy graph = .ok canonical ↔
      Valid graph ∧ canonical.graph = canonicalizeDirectArrays graph ∧
        expand (canonicalizeDirectArrays graph) = .ok canonical.effective := by
  rw [← validateGraph_ok]
  simp only [canonicalizeApplicationPolicy, bind_eq_ok, pure_eq_ok]
  constructor
  · rintro ⟨_, hvalid, effective, heffective, rfl⟩
    exact ⟨hvalid, rfl, heffective⟩
  · rintro ⟨hvalid, hgraph, heffective⟩
    exact ⟨(), hvalid, canonical.effective, heffective, by rw [← hgraph]⟩

theorem canonicalize_congr {canonical : CanonicalApplicationPolicy}
    (h : canonicalizeApplicationPolicy graph = .ok canonical)
    (hsame : canonicalizeDirectArrays graph' = canonicalizeDirectArrays graph) :
    canonicalizeApplicationPolicy graph' = .ok canonical := by
  obtain ⟨hvalid, hgraph, heffective⟩ := canonicalize_eq_ok.mp h
  refine canonicalize_eq_ok.mpr ⟨?_, hgraph.trans hsame.symm, hsame ▸ heffective⟩
  rw [← valid_canonical, hsame, valid_canonical]
  exact hvalid

/-! ### The parts in another order -/

/-- The same roles in another order, and their parents and permissions in another order. -/
def Reordered (given given' : List (String × ApplicationRoleDefinition)) : Prop :=
  ∃ middle, given.Perm middle ∧ List.Forall₂ (fun role role' => role'.1 = role.1 ∧
    role'.2.inherits.Perm role.2.inherits ∧ role'.2.permissions.Perm role.2.permissions)
    middle given'

theorem Reordered.sorted_perm {given given' : List (String × ApplicationRoleDefinition)}
    (h : Reordered given given') :
    (given'.map fun role => (role.1, sortedDefinition role.2)).Perm
      (given.map fun role => (role.1, sortedDefinition role.2)) := by
  obtain ⟨middle, hperm, hall⟩ := h
  have hsame : given'.map (fun role => (role.1, sortedDefinition role.2)) =
      middle.map fun role => (role.1, sortedDefinition role.2) := by
    rw [← List.forall₂_eq_eq_eq, List.forall₂_map_left_iff, List.forall₂_map_right_iff]
    refine hall.flip.imp ?_
    rintro role' role ⟨hname, hinherits, hpermissions⟩
    rw [sortedDefinition, sortedDefinition, hname, orderBy_eq_of_perm hinherits,
      orderBy_eq_of_perm hpermissions]
  rw [hsame]
  exact (hperm.map _).symm

/-- The maps of the roles differ in the order of the arrays only. -/
theorem Reordered.canonical {given given' : List (String × ApplicationRoleDefinition)}
    (h : Reordered given given') (hnodup : (given.map Prod.fst).Nodup)
    (hroles : graph.roles = fromEntries given) :
    canonicalizeDirectArrays { graph with roles := fromEntries given' } =
      canonicalizeDirectArrays graph := by
  have hnodup' : (given'.map Prod.fst).Nodup := by
    have hperm := h.sorted_perm.map Prod.fst
    rw [List.map_map, List.map_map] at hperm
    exact hperm.nodup_iff.mpr hnodup
  refine congrArg (ApplicationPolicyGraph.mk graph.defaultRole) ?_
  show (fromEntries given').map _ = graph.roles.map _
  rw [hroles]
  refine Ordered.eq_of_perm ((ordered_fromEntries given').map ?_)
    ((ordered_fromEntries given).map ?_) ?_
  · rw [List.map_map]
    rfl
  · rw [List.map_map]
    rfl
  · exact (((fromEntries_perm hnodup').map _).trans h.sorted_perm).trans
      ((fromEntries_perm hnodup).map _).symm

/-- What an accepted graph comes back with. -/
theorem policyClosure_spec {canonical : CanonicalApplicationPolicy}
    (h : canonicalizeApplicationPolicy graph = .ok canonical) :
    ClosureOf graph canonical.effective ∧
      canonicalizeApplicationPolicy canonical.graph = .ok canonical := by
  obtain ⟨hvalid, hgraph, heffective⟩ := canonicalize_eq_ok.mp h
  have hparents := (parentsDeclared (valid_iff.mp hvalid).2.1).canonical
  refine ⟨(expand_spec hparents heffective).of_canonical, canonicalize_congr h ?_⟩
  rw [hgraph, canonicalizeDirectArrays_idem]

/-- An accepted graph comes back with its closure; its canonical form comes back as it is, and so
does the graph when its parts are given in any other order. -/
theorem policyClosure_law (graph : ApplicationPolicyGraph) (canonical : CanonicalApplicationPolicy)
    (h : canonicalizeApplicationPolicy graph = .ok canonical) :
    ClosureOf graph canonical.effective ∧
      canonicalizeApplicationPolicy canonical.graph = .ok canonical ∧
      ∀ given given', (given.map Prod.fst).Nodup → graph.roles = fromEntries given →
        Reordered given given' →
        canonicalizeApplicationPolicy { graph with roles := fromEntries given' } =
          .ok canonical := by
  obtain ⟨hclosure, hidem⟩ := policyClosure_spec h
  refine ⟨hclosure, hidem, fun given given' hnodup hroles hreordered => ?_⟩
  exact canonicalize_congr h (hreordered.canonical hnodup hroles)

/-! ### A small policy -/

/-- Editors are viewers too, and everybody is a viewer. -/
def notePolicy : ApplicationPolicyGraph where
  defaultRole := some "viewer"
  roles := [("editor", { inherits := ["viewer"], permissions := ["notes.write"] }),
    ("viewer", { inherits := [], permissions := ["notes.read"] })]

def noteClosure : EffectiveApplicationPolicy where
  effectiveRoles := [("editor", ["editor", "viewer"]), ("viewer", ["viewer"])]
  effectivePermissions := [("editor", ["notes.read", "notes.write"]), ("viewer", ["notes.read"])]

theorem inherits_notePolicy {name parent : String} (h : Inherits notePolicy name parent) :
    name = "editor" ∧ parent = "viewer" := by
  obtain ⟨definition, hrole, hparent⟩ := h
  have hmem := mem_of_role? hrole
  simp only [notePolicy, List.mem_cons, List.not_mem_nil, or_false, Prod.mk.injEq] at hmem
  rcases hmem with ⟨rfl, rfl⟩ | ⟨rfl, rfl⟩
  · exact ⟨rfl, List.mem_singleton.mp hparent⟩
  · cases hparent

theorem reaches_notePolicy {name other : String} :
    Reaches notePolicy name other ↔ other = name ∨ name = "editor" ∧ other = "viewer" := by
  constructor
  · intro h
    induction h with
    | refl => exact Or.inl rfl
    | tail _ hstep ih =>
      obtain ⟨rfl, rfl⟩ := inherits_notePolicy hstep
      rcases ih with rfl | ⟨-, hviewer⟩
      · exact Or.inr ⟨rfl, rfl⟩
      · exact absurd hviewer (by decide)
  · rintro (rfl | ⟨rfl, rfl⟩)
    · exact Relation.ReflTransGen.refl
    · exact Relation.ReflTransGen.single
        ⟨{ inherits := ["viewer"], permissions := ["notes.write"] }, by decide, by decide⟩

theorem notePolicy_valid : Valid notePolicy := by
  refine valid_iff.mpr ⟨by decide, by decide, fun role _ hcyclic => ?_⟩
  rw [Cyclic, edge_eq_inherits] at hcyclic
  obtain ⟨b, hfirst, -⟩ := Relation.TransGen.head'_iff.mp hcyclic
  obtain ⟨c, -, hlast⟩ := Relation.TransGen.tail'_iff.mp hcyclic
  have hname : "editor" = "viewer" :=
    (inherits_notePolicy hfirst).1.symm.trans (inherits_notePolicy hlast).2
  exact absurd hname (by decide)

theorem closureOf_notePolicy : ClosureOf notePolicy noteClosure where
  roleNames := rfl
  permissionNames := rfl
  roles_sorted := by decide
  permissions_sorted := by decide
  mem_roles := by
    intro entry hentry role
    rw [reaches_notePolicy]
    simp only [noteClosure, List.mem_cons, List.not_mem_nil, or_false] at hentry
    rcases hentry with rfl | rfl
    · simp
    · simp
  mem_permissions := by
    intro entry hentry permission
    have heditor : role? notePolicy "editor" =
        some { inherits := ["viewer"], permissions := ["notes.write"] } := by decide
    have hviewer : role? notePolicy "viewer" =
        some { inherits := [], permissions := ["notes.read"] } := by decide
    simp only [noteClosure, List.mem_cons, List.not_mem_nil, or_false] at hentry
    simp only [Grants, reaches_notePolicy]
    rcases hentry with rfl | rfl
    · constructor
      · intro hpermission
        rcases List.mem_cons.mp hpermission with rfl | hpermission
        · exact ⟨"viewer", _, Or.inr ⟨rfl, rfl⟩, hviewer, List.mem_singleton_self _⟩
        · exact ⟨"editor", _, Or.inl rfl, heditor, hpermission⟩
      · rintro ⟨other, definition, rfl | ⟨-, rfl⟩, hrole, hpermission⟩
        · rw [heditor, Option.some.injEq] at hrole
          subst hrole
          exact List.mem_cons_of_mem _ hpermission
        · rw [hviewer, Option.some.injEq] at hrole
          subst hrole
          exact List.mem_cons.mpr (Or.inl (List.mem_singleton.mp hpermission))
    · constructor
      · intro hpermission
        exact ⟨"viewer", _, Or.inl rfl, hviewer, hpermission⟩
      · rintro ⟨other, definition, rfl | ⟨hname, -⟩, hrole, hpermission⟩
        · rw [hviewer, Option.some.injEq] at hrole
          subst hrole
          exact hpermission
        · exact absurd hname (by decide)

theorem notePolicy_ok :
    canonicalizeApplicationPolicy notePolicy = .ok ⟨notePolicy, noteClosure⟩ := by
  obtain ⟨canonical, hcanonical⟩ := canonicalize_ok.mpr notePolicy_valid
  obtain ⟨-, hgraph, -⟩ := canonicalize_eq_ok.mp hcanonical
  have hclosure := (policyClosure_spec hcanonical).1.unique closureOf_notePolicy
  have hsorted : canonicalizeDirectArrays notePolicy = notePolicy := by decide
  rw [hcanonical, Except.ok.injEq]
  cases canonical
  rw [CanonicalApplicationPolicy.mk.injEq]
  exact ⟨hgraph.trans hsorted, hclosure⟩

/-- The law at work. -/
theorem policyClosure_note :
    ClosureOf notePolicy noteClosure ∧
      canonicalizeApplicationPolicy notePolicy = .ok ⟨notePolicy, noteClosure⟩ ∧
      canonicalizeApplicationPolicy
          { notePolicy with roles := fromEntries notePolicy.roles.reverse } =
        .ok ⟨notePolicy, noteClosure⟩ := by
  have h := policyClosure_law notePolicy ⟨notePolicy, noteClosure⟩ notePolicy_ok
  refine ⟨h.1, h.2.1, h.2.2 notePolicy.roles notePolicy.roles.reverse (by decide) (by decide) ?_⟩
  refine ⟨notePolicy.roles.reverse, (List.reverse_perm _).symm, ?_⟩
  exact List.forall₂_same.mpr fun role _ => ⟨rfl, List.Perm.refl _, List.Perm.refl _⟩

end ApplicationPolicy

end BlobYard
