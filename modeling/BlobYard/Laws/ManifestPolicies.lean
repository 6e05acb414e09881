/-
Manifests and policies.

The roles of a validated manifest are what an owner may approve: the limits and the names
are checked by the schema, the references and the inheritance across the sections.

* `policyGraph` — the graph of a manifest, absent lists read as empty;
* `RoleWithin`, `rolesWithin_of_schema` — what the schema says about the roles;
* `Cross.hasCycle_iff` — the search of the manifest finds the cyclic roles;
* `manifest_policy_law` — the manifest and the policy agree.
-/
import BlobYard.Core.ApplicationManifest
import BlobYard.Core.ApplicationPolicy

namespace BlobYard

namespace Manifest

open ApplicationPolicy GraphSearch Outcome

/-- A role of the manifest as a role of a policy. -/
def definitionOf (role : ManifestRole) : ApplicationRoleDefinition where
  inherits := role.inherits.getD []
  permissions := role.permissions.getD []

def policyRoles (roles : List (String × ManifestRole)) :
    List (String × ApplicationRoleDefinition) :=
  roles.map fun (name, role) => (name, definitionOf role)

/-- The policy graph that the section `auth` describes. -/
def policyGraph (manifest : ApplicationManifest) : ApplicationPolicyGraph where
  defaultRole := manifest.auth.bind ManifestAuth.defaultRole
  roles := policyRoles (Cross.declaredRoles manifest)

/-! ### What the schema says -/

/-- The name and the lists of a role are within the limits. -/
structure RoleWithin (role : String × ApplicationRoleDefinition) : Prop where
  name : Patterns.roleName role.1.toList = true
  inherits_le : role.2.inherits.length ≤ 8
  permissions_le : role.2.permissions.length ≤ 64
  inherits_nodup : role.2.inherits.Nodup
  permissions_nodup : role.2.permissions.Nodup
  permission : ∀ permission ∈ role.2.permissions, Patterns.permission permission.toList = true

theorem collect_eq_some {α β : Type} {f : α → Option β} {l : List α} {results : List β} :
    collect f l = some results ↔ List.Forall₂ (fun a b => f a = some b) l results := by
  induction l generalizing results with
  | nil => simp [collect, eq_comm]
  | cons a rest ih =>
    rw [List.forall₂_cons_left_iff, collect]
    constructor
    · intro h
      split at h
      case h_1 b bs hb hbs => exact ⟨b, bs, hb, ih.mp hbs, (Option.some.inj h).symm⟩
      case h_2 => cases h
    · rintro ⟨b, bs, hb, hbs, rfl⟩
      rw [hb, ih.mpr hbs]

theorem exists_of_mem_collect {α β : Type} {f : α → Option β} {l : List α} {results : List β}
    (h : collect f l = some results) {b : β} (hb : b ∈ results) : ∃ a ∈ l, f a = some b := by
  have hall := collect_eq_some.mp h
  induction hall with
  | nil => exact absurd hb List.not_mem_nil
  | @cons a b' l results hab hrest ih =>
    rcases List.mem_cons.mp hb with rfl | hb
    · exact ⟨a, List.mem_cons_self, hab⟩
    · obtain ⟨a', ha', hab'⟩ := ih (collect_eq_some.mpr hrest) hb
      exact ⟨a', List.mem_cons_of_mem a ha', hab'⟩

theorem list_text (texts : List String) :
    list text (.array (texts.map .string)) = some texts := by
  rw [list, collect_eq_some, List.forall₂_map_left_iff]
  exact List.forall₂_same.mpr fun _ _ => rfl

theorem record_eq_some {α : Type} {fields : List String} {decoder : TomlTable → Option α}
    {entries : TomlTable} {result : α} (h : record fields decoder (.table entries) = some result) :
    decoder entries = some result := by
  simp only [record, Option.ite_none_right_eq_some] at h
  exact h.2

/-- A list of texts that the schema accepted, read as empty where it is absent. -/
theorem texts_within {entries : TomlTable} {path key expected : String} {maximum : ℕ}
    {predicate : List Char → Bool} {texts : Option (List String)}
    (hschema : ManifestSchema.optionalStringArray entries path key maximum predicate expected = [])
    (hdecode : optional entries key (list text) = some texts) :
    (texts.getD []).length ≤ maximum ∧ (texts.getD []).Nodup ∧
      ∀ t ∈ texts.getD [], predicate t.toList = true := by
  rw [ManifestSchema.optionalStringArray, ManifestSchema.optional_eq_nil] at hschema
  unfold optional at hdecode
  split at hdecode
  case h_1 value hvalue =>
    obtain ⟨items, rfl, hlength, hnodup, hitems⟩ :=
      ManifestSchema.stringArray_eq_nil.mp (hschema value hvalue)
    rw [list_text] at hdecode
    obtain rfl := Option.some.inj hdecode
    exact ⟨hlength, hnodup, hitems⟩
  case h_2 =>
    obtain rfl := Option.some.inj hdecode
    simp

theorem roleWithin {name : String} {value : TomlValue} {role : ManifestRole}
    (hschema : ManifestSchema.namedRole (name, value) = [])
    (hdecode : decodeRole value = some role) : RoleWithin (name, definitionOf role) := by
  simp only [ManifestSchema.namedRole, List.append_eq_nil_iff, ManifestSchema.role,
    ManifestSchema.object_eq_nil] at hschema
  obtain ⟨hname, entries, rfl, -, hinherits, hpermissions⟩ := hschema
  have hfields := record_eq_some hdecode
  simp only [Option.bind_eq_bind, Option.bind_eq_some_iff, Option.some.injEq] at hfields
  obtain ⟨inherits, hinherits', permissions, hpermissions', rfl⟩ := hfields
  have hi := texts_within hinherits hinherits'
  have hp := texts_within hpermissions hpermissions'
  refine ⟨?_, hi.1, hp.1, hi.2.1, hp.2.1, hp.2.2⟩
  by_contra hnot
  simp [hnot] at hname

/-- The roles of a decoded section without schema errors. -/
theorem rolesWithin {root : TomlTable} {auth : Option ManifestAuth}
    (hschema : ManifestSchema.auth root = [])
    (hdecode : optional root "auth" decodeAuth = some auth) :
    (policyRoles ((auth.bind ManifestAuth.roles).getD [])).length ≤ 32 ∧
      ∀ role ∈ policyRoles ((auth.bind ManifestAuth.roles).getD []), RoleWithin role := by
  rw [ManifestSchema.auth, ManifestSchema.optional_eq_nil] at hschema
  unfold optional at hdecode
  split at hdecode
  case h_2 =>
    obtain rfl := Option.some.inj hdecode
    simp [policyRoles]
  case h_1 value hvalue =>
    obtain ⟨entries, rfl, -, hentries⟩ := ManifestSchema.object_eq_nil.mp (hschema value hvalue)
    obtain ⟨decoded, hdecoded, rfl⟩ := Option.map_eq_some_iff.mp hdecode
    have hfields := record_eq_some hdecoded
    simp only [Option.bind_eq_bind, Option.bind_eq_some_iff, Option.some.injEq] at hfields
    obtain ⟨defaultRole, -, roles, hroles, rfl⟩ := hfields
    rw [List.append_eq_nil_iff, ManifestSchema.optional_eq_nil] at hentries
    unfold optional at hroles
    split at hroles
    case h_2 =>
      obtain rfl := Option.some.inj hroles
      simp [policyRoles]
    case h_1 table htable =>
      obtain ⟨declared, hdeclared, rfl⟩ := Option.map_eq_some_iff.mp hroles
      have hnamed := hentries.2 table htable
      simp only [ManifestSchema.roles, ManifestSchema.table_eq_nil, List.append_eq_nil_iff,
        ManifestSchema.propertyCount_eq_nil, List.flatMap_eq_nil_iff] at hnamed
      obtain ⟨named, rfl, ⟨-, hlength⟩, hnamed⟩ := hnamed
      have hsame := (collect_eq_some.mp hdeclared).length_eq
      refine ⟨by simpa [policyRoles, ← hsame] using hlength, ?_⟩
      intro role hrole
      obtain ⟨⟨name, decoded⟩, hmem, rfl⟩ := List.mem_map.mp hrole
      obtain ⟨⟨name', value⟩, hvalue, hentry⟩ := exists_of_mem_collect hdeclared hmem
      obtain ⟨decoded', hdecode, heq⟩ := Option.map_eq_some_iff.mp hentry
      obtain ⟨rfl, rfl⟩ := Prod.mk.inj heq
      exact roleWithin (hnamed _ hvalue) hdecode

/-- The roles of a decoded manifest without schema errors. -/
theorem rolesWithin_of_schema {value : TomlValue} {manifest : ApplicationManifest}
    (hschema : ManifestSchema.validate value = []) (hdecode : decode value = some manifest) :
    (policyGraph manifest).roles.length ≤ 32 ∧
      ∀ role ∈ (policyGraph manifest).roles, RoleWithin role := by
  simp only [ManifestSchema.validate, ManifestSchema.table_eq_nil, List.append_eq_nil_iff]
    at hschema
  obtain ⟨root, rfl, ⟨⟨⟨⟨⟨⟨⟨⟨-, hauth⟩, -⟩, -⟩, -⟩, -⟩, -⟩, -⟩, -⟩⟩ := hschema
  have hfields := record_eq_some hdecode
  simp only [Option.bind_eq_bind, Option.bind_eq_some_iff, Option.some.injEq] at hfields
  obtain ⟨_, -, _, -, _, -, auth, hauth', hrest⟩ := hfields
  have hmanifest : manifest.auth = auth := by
    obtain ⟨_, -, _, -, _, -, _, -, _, -, _, -, _, -, rfl⟩ := hrest
    rfl
  have hroles : (policyGraph manifest).roles =
      policyRoles ((auth.bind ManifestAuth.roles).getD []) := by
    rw [← hmanifest]
    rfl
  rw [hroles]
  exact rolesWithin hauth hauth'

/-! ### What the sections say about each other -/

variable {roles : List (String × ManifestRole)}

theorem role?_policyRoles {defaultRole : Option String} {name : String} :
    role? ⟨defaultRole, policyRoles roles⟩ name = (roles.lookup name).map definitionOf := by
  unfold role? policyRoles
  induction roles with
  | nil => rfl
  | cons role roles ih =>
    rw [List.map_cons, List.lookup_cons, List.lookup_cons]
    split
    · rfl
    · exact ih

/-- Both graphs have the same edges. -/
theorem edge_inheritance {defaultRole : Option String} {name parent : String} :
    Edge (Cross.inheritance roles) name parent ↔
      Edge (parentGraph ⟨defaultRole, policyRoles roles⟩) name parent := by
  have hnext : (Cross.inheritance roles).next name =
      (parentGraph ⟨defaultRole, policyRoles roles⟩).next name := by
    simp only [Cross.inheritance, parentGraph, role?_policyRoles, Option.map_map]
    rfl
  simp only [Edge, hnext]

/-- The search of the manifest finds the cyclic roles. -/
theorem Cross.hasCycle_iff {defaultRole : Option String} {name : String} :
    Cross.hasCycle roles name = true ↔ Cyclic ⟨defaultRole, policyRoles roles⟩ name := by
  have hcyclic : Cyclic ⟨defaultRole, policyRoles roles⟩ name ↔
      Relation.TransGen (Edge (Cross.inheritance roles)) name name := by
    have hsame : Edge (Cross.inheritance roles) =
        Edge (parentGraph ⟨defaultRole, policyRoles roles⟩) :=
      funext fun _ => funext fun _ => propext edge_inheritance
    rw [Cyclic, hsame]
  rw [hcyclic, Relation.TransGen.head'_iff]
  unfold Cross.hasCycle
  split
  case h_1 hnone =>
    simp [Edge, Cross.inheritance, hnone]
  case h_2 role hrole =>
    simp [deepSearch_iff, Edge, Cross.inheritance, hrole]

theorem referenced_eq_nil {declared : Bool} {path kind name : String} :
    Cross.referenced declared path kind name = [] ↔ declared = true := by
  cases declared <;> simp [Cross.referenced]

theorem eachOf_eq_nil {α : Type} {items : Option (List α)} {check : α → ℕ → List ManifestError} :
    Cross.eachOf items check = [] ↔
      ∀ (i : ℕ) (h : i < (items.getD []).length), check (items.getD [])[i] i = [] := by
  simp only [Cross.eachOf, List.flatMap_eq_nil_iff, Prod.forall, List.mk_mem_zipIdx_iff_getElem?]
  constructor
  · intro h i hi
    exact h _ i (List.getElem?_eq_getElem hi)
  · intro h item i hitem
    obtain ⟨hi, rfl⟩ := List.getElem?_eq_some_iff.mp hitem
    exact h i hi

theorem inherits_eq_nil {name : String} {role : ManifestRole} :
    Cross.inherits name role roles = [] ↔
      ∀ parent ∈ Cross.parents role, (roles.lookup parent).isSome = true := by
  simp only [Cross.inherits, eachOf_eq_nil, Cross.reference, referenced_eq_nil, Cross.parents,
    List.forall_mem_iff_forall_getElem]

theorem roleErrors_eq_nil {role : String × ManifestRole} :
    Cross.roleErrors roles role = [] ↔
      (∀ parent ∈ Cross.parents role.2, (roles.lookup parent).isSome = true) ∧
        Cross.hasCycle roles role.1 = false := by
  rw [Cross.roleErrors, List.append_eq_nil_iff, inherits_eq_nil]
  refine and_congr_right fun _ => ?_
  cases Cross.hasCycle roles role.1 <;> simp

theorem isSome_lookup {defaultRole : Option String} {name : String}
    (h : (roles.lookup name).isSome = true) :
    (role? ⟨defaultRole, policyRoles roles⟩ name).isSome = true := by
  rw [role?_policyRoles, Option.isSome_map]
  exact h

theorem valid_of_checks {manifest : ApplicationManifest}
    (hlength : (policyGraph manifest).roles.length ≤ 32)
    (hwithin : ∀ role ∈ (policyGraph manifest).roles, RoleWithin role)
    (hcross : Cross.roles manifest = []) : Valid (policyGraph manifest) := by
  simp only [Cross.roles, List.append_eq_nil_iff, List.flatMap_eq_nil_iff, roleErrors_eq_nil]
    at hcross
  obtain ⟨⟨hdefault, hroles⟩, -⟩ := hcross
  have hof : ∀ role ∈ (policyGraph manifest).roles, ∃ r ∈ Cross.declaredRoles manifest,
      role = (r.1, definitionOf r.2) := by
    intro role hrole
    obtain ⟨r, hr, rfl⟩ := List.mem_map.mp hrole
    exact ⟨r, hr, rfl⟩
  exact {
    roles_le := hlength
    default_declared := by
      intro role hrole
      have hsome : manifest.auth.bind ManifestAuth.defaultRole = some role := hrole
      rw [Cross.defaultRole, hsome] at hdefault
      exact role?_isSome.mp (isSome_lookup (referenced_eq_nil.mp hdefault))
    name := fun role hrole => (hwithin role hrole).name
    inherits_le := fun role hrole => (hwithin role hrole).inherits_le
    permissions_le := fun role hrole => (hwithin role hrole).permissions_le
    inherits_nodup := fun role hrole => (hwithin role hrole).inherits_nodup
    permissions_nodup := fun role hrole => (hwithin role hrole).permissions_nodup
    permission := fun role hrole => (hwithin role hrole).permission
    inherits_declared := by
      intro role hrole parent hparent
      obtain ⟨r, hr, rfl⟩ := hof role hrole
      exact role?_isSome.mp (isSome_lookup ((hroles r hr).1 parent hparent))
    acyclic := by
      intro role hrole hcyclic
      obtain ⟨r, hr, rfl⟩ := hof role hrole
      have hfound : Cross.hasCycle (Cross.declaredRoles manifest) r.1 = true :=
        Cross.hasCycle_iff.mpr hcyclic
      rw [(hroles r hr).2] at hfound
      cases hfound }

/-- A validated manifest was decoded from a value without schema errors, and its sections agree. -/
theorem parseToml_eq_ok {libraries : Libraries} {source : String} {manifest : ApplicationManifest}
    (h : parseToml libraries source = .ok manifest) :
    ∃ value, ManifestSchema.validate value = [] ∧ decode value = some manifest ∧
      Cross.validate libraries manifest = [] := by
  unfold parseToml at h
  split at h
  case h_1 => cases h
  case h_2 value hvalue =>
    by_cases hschema : ManifestSchema.validate value = []
    case neg => simp [hschema] at h
    simp only [hschema, List.isEmpty_nil, if_true, parseValidated] at h
    split at h
    case h_1 => cases h
    case h_2 decoded hdecode =>
      by_cases hcross : Cross.validate libraries decoded = []
      case neg => simp [hcross] at h
      simp only [hcross, List.isEmpty_nil, if_true, Except.ok.injEq] at h
      subst h
      exact ⟨value, hschema, hdecode, hcross⟩

/-- The graph of a validated manifest is one that an owner may approve. -/
theorem valid_policyGraph {libraries : Libraries} {source : String}
    {manifest : ApplicationManifest} (h : parseToml libraries source = .ok manifest) :
    Valid (policyGraph manifest) := by
  obtain ⟨value, hschema, hdecode, hcross⟩ := parseToml_eq_ok h
  simp only [Cross.validate, List.append_eq_nil_iff] at hcross
  obtain ⟨hlength, hwithin⟩ := rolesWithin_of_schema hschema hdecode
  exact valid_of_checks hlength hwithin hcross.1.1.1.1.1

/-! ### The agreement -/

/-- Every role that a role of the list inherits is declared. -/
def Declared (roles : List (String × ManifestRole)) : Prop :=
  ∀ role ∈ roles, ∀ parent ∈ Cross.parents role.2, ∃ r, (parent, r) ∈ roles

theorem Declared.parents (h : Declared roles) {defaultRole : Option String} :
    ParentsDeclared ⟨defaultRole, policyRoles roles⟩ := by
  intro name definition hrole parent hparent
  obtain ⟨⟨_, role⟩, hrole', heq⟩ := List.mem_map.mp (mem_of_role? hrole)
  obtain ⟨rfl, rfl⟩ := Prod.mk.inj heq
  obtain ⟨r, hr⟩ := h _ hrole' parent hparent
  exact Option.isSome_iff_exists.mp
    (role?_isSome.mpr ⟨definitionOf r, List.mem_map.mpr ⟨_, hr, rfl⟩⟩)

/-- The graph of every validated manifest is accepted as a policy, and on every list of roles whose
parents are declared both cycle checks give the same answer for each role. -/
theorem manifest_policy_law :
    (∀ (libraries : Libraries) (source : String) (manifest : ApplicationManifest),
      parseToml libraries source = .ok manifest →
        ∃ canonical, canonicalizeApplicationPolicy (policyGraph manifest) = .ok canonical) ∧
    ∀ (defaultRole : Option String) (roles : List (String × ManifestRole)), Declared roles →
      ∀ role ∈ roles, ApplicationPolicy.hasCycle role.1 ⟨defaultRole, policyRoles roles⟩ =
        .ok (Cross.hasCycle roles role.1) := by
  refine ⟨fun libraries source manifest h => canonicalize_ok.mpr (valid_policyGraph h), ?_⟩
  intro defaultRole roles hdeclared role hrole
  have hmem : (role.1, definitionOf role.2) ∈
      (⟨defaultRole, policyRoles roles⟩ : ApplicationPolicyGraph).roles :=
    List.mem_map.mpr ⟨role, hrole, rfl⟩
  obtain ⟨definition, hdefinition⟩ := exists_role? hmem
  rcases hasCycle_spec hdefinition with ⟨-, hderails⟩ | ⟨hcheck, -, hcyclic⟩ |
    ⟨hcheck, -, hacyclic, -⟩
  · exact absurd hderails (hdeclared.parents.not_derails role.1)
  · rw [hcheck, Cross.hasCycle_iff.mpr hcyclic]
  · have hfalse : Cross.hasCycle roles role.1 = false :=
      Bool.eq_false_iff.mpr fun h => hacyclic (Cross.hasCycle_iff.mp h)
    rw [hcheck, hfalse]

/-- A manifest in which editors are also viewers. -/
def twoRoles : TomlValue :=
  .table [
    ("application", .table [("name", .string "example-app"),
      ("runtime", .string "blobyard-js-1")]),
    ("auth", .table [("default_role", .string "viewer"), ("roles", .table [
      ("editor", .table [("inherits", .array [.string "viewer"]),
        ("permissions", .array [.string "risks.write"])]),
      ("viewer", .table [("permissions", .array [.string "risks.read"])])])]),
    ("schema_version", .integer 1)]

/-- A parser that knows one document. -/
def oneDocument : Libraries where
  fromStr source := if source = "two roles" then .ok twoRoles else .error "expected a key"
  decodeError _ := "unknown field"
  ianaName name := if name = "UTC" then some "UTC" else none

/-- The roles of the manifest. -/
def editorAndViewer : List (String × ManifestRole) :=
  [("editor", ⟨some ["viewer"], some ["risks.write"]⟩),
    ("viewer", ⟨none, some ["risks.read"]⟩)]

def twoRolesManifest : ApplicationManifest where
  schemaVersion := 1
  application := ⟨"example-app", .blobyardJs1⟩
  frontend := none
  auth := some ⟨some "viewer", some editorAndViewer⟩
  database := none
  buckets := none
  functions := none
  jobs := none
  routes := none
  limits := none
  health := none

theorem editorAndViewer_declared : Declared editorAndViewer := by
  intro role hrole parent hparent
  simp only [editorAndViewer, List.mem_cons, List.not_mem_nil, or_false] at hrole
  rcases hrole with rfl | rfl
  · obtain rfl : parent = "viewer" := by simpa [Cross.parents] using hparent
    exact ⟨_, List.mem_cons_of_mem _ List.mem_cons_self⟩
  · simp [Cross.parents] at hparent

theorem editorAndViewer_acyclic : ∀ role ∈ editorAndViewer,
    Cross.hasCycle editorAndViewer role.1 = false := by
  intro role hrole
  simp only [editorAndViewer, List.mem_cons, List.not_mem_nil, or_false] at hrole
  rcases hrole with rfl | rfl <;>
    simp [Cross.hasCycle, Cross.parents, Cross.inheritance, editorAndViewer, deepSearch,
      List.lookup_cons]

/-- A manifest with these roles has no error in its roles, if its functions ask for permissions of
theirs. -/
theorem roles_editorAndViewer {manifest : ApplicationManifest}
    (hauth : manifest.auth = some ⟨some "viewer", some editorAndViewer⟩)
    (hpermissions : Cross.functionPermissions manifest = []) : Cross.roles manifest = [] := by
  have hroles : Cross.declaredRoles manifest = editorAndViewer := by
    rw [Cross.declaredRoles, hauth]
    rfl
  have hdefault : Cross.defaultRole manifest = [] := by
    rw [Cross.defaultRole, hroles, hauth]
    rfl
  simp only [Cross.roles, hroles, hdefault, hpermissions, List.append_eq_nil_iff,
    List.flatMap_eq_nil_iff, roleErrors_eq_nil, true_and, and_true]
  refine fun role hrole => ⟨fun parent hparent => ?_, editorAndViewer_acyclic role hrole⟩
  obtain ⟨r, hr⟩ := editorAndViewer_declared role hrole parent hparent
  by_contra hnone
  rw [Bool.not_eq_true, Option.isSome_eq_false_iff, Option.isNone_iff_eq_none] at hnone
  simpa using List.lookup_eq_none_iff.mp hnone _ hr

theorem parseToml_twoRoles : parseToml oneDocument "two roles" = .ok twoRolesManifest := by
  have hschema : ManifestSchema.validate twoRoles = [] := by decide +kernel
  have hdecode : decode twoRoles = some twoRolesManifest := rfl
  have hcross : Cross.validate oneDocument twoRolesManifest = [] := by
    rw [Cross.validate, roles_editorAndViewer rfl rfl]
    rfl
  have hparse : oneDocument.fromStr "two roles" = .ok twoRoles := rfl
  simp only [parseToml, hparse, hschema, List.isEmpty_nil, if_true, parseValidated, hdecode, hcross]

/-- The roles are accepted as a policy, and neither is cyclic in the one or the other graph. -/
theorem twoRoles_agree :
    (∃ canonical, canonicalizeApplicationPolicy (policyGraph twoRolesManifest) = .ok canonical) ∧
      ApplicationPolicy.hasCycle "editor" ⟨none, policyRoles editorAndViewer⟩ =
        .ok (Cross.hasCycle editorAndViewer "editor") :=
  ⟨manifest_policy_law.1 oneDocument "two roles" _ parseToml_twoRoles,
    manifest_policy_law.2 none _ editorAndViewer_declared _ List.mem_cons_self⟩

end Manifest

end BlobYard
