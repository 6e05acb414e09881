/-
Application policies.

An owner approves a graph of roles; `canonicalizeApplicationPolicy` checks it role by
role and computes what every role inherits.  The cycle check of a role and the closure
index the map of roles by the names they meet, and an index that is not there panics.

* `hasCycle`, `validateGraph`, `expand`, `canonicalizeApplicationPolicy` — the code;
* `Valid` — the graphs that an owner may approve;
* `Derails` — the roles whose cycle check meets an undeclared name first;
* `hasCycle_spec`, `validateGraph_spec`, `exists_expand` — what the checks find out.
-/
import BlobYard.Contract.Numbers
import BlobYard.Contract.YardRecords
import BlobYard.Core.ManifestPatterns
import BlobYard.Lib.GraphSearch
import BlobYard.Lib.Order

namespace BlobYard

open Outcome GraphSearch

/-- `ApplicationPolicyError`. -/
inductive ApplicationPolicyError where
  | invalid
  deriving DecidableEq

namespace ApplicationPolicy

/-- A call of this module. -/
abbrev Checked (α : Type) := Except (Abort ApplicationPolicyError) α

/-- `Err(ApplicationPolicyError)`. -/
def refused : Abort ApplicationPolicyError := .error .invalid

/-- The definition of a role, if it is declared. -/
def role? (graph : ApplicationPolicyGraph) (name : String) : Option ApplicationRoleDefinition :=
  graph.roles.lookup name

theorem mem_of_role? {graph : ApplicationPolicyGraph} {name : String}
    {definition : ApplicationRoleDefinition} (h : role? graph name = some definition) :
    (name, definition) ∈ graph.roles := by
  obtain ⟨before, after, heq, -⟩ := List.lookup_eq_some_iff.mp h
  rw [heq]
  simp

theorem role?_isSome {graph : ApplicationPolicyGraph} {name : String} :
    (role? graph name).isSome = true ↔ ∃ definition, (name, definition) ∈ graph.roles := by
  rw [Option.isSome_iff_exists]
  refine ⟨fun ⟨definition, h⟩ => ⟨definition, mem_of_role? h⟩, fun ⟨definition, h⟩ => ?_⟩
  by_contra hnone
  rw [← Option.ne_none_iff_exists', not_not] at hnone
  have := List.lookup_eq_none_iff.mp hnone (name, definition) h
  simp at this

/-- The graph of the roles and their parents. -/
def parentGraph (graph : ApplicationPolicyGraph) : NameGraph String where
  nodes := graph.roles.map Prod.fst
  next name := (role? graph name).map ApplicationRoleDefinition.inherits
  mem_nodes := by
    intro name parents h
    obtain ⟨definition, hrole, -⟩ := Option.map_eq_some_iff.mp h
    exact List.mem_map.mpr ⟨_, mem_of_role? hrole, rfl⟩

/-- `graph.roles[name]`. -/
def index (graph : ApplicationPolicyGraph) (name : String) : Checked ApplicationRoleDefinition :=
  ofOption .panicked (role? graph name)

/-- Whether the ancestors of the role lead back to it; the last parent is looked at first. -/
def hasCycle (origin : String) (graph : ApplicationPolicyGraph) : Checked Bool := do
  let definition ← index graph origin
  match search (parentGraph graph) (· == origin) definition.inherits.reverse [] with
  | .found _ => pure true
  | .missing _ => .error .panicked
  | .exhausted _ => pure false

/-- The values are as many as the set of them. -/
def unique (values : List String) : Bool := values.toFinset.card == values.length

/-- The checks of a role that look at its own definition. -/
def OwnChecks (graph : ApplicationPolicyGraph) (role : String × ApplicationRoleDefinition) :
    Prop :=
  Patterns.roleName role.1.toList = true ∧ role.2.inherits.length ≤ 8 ∧
    role.2.permissions.length ≤ 64 ∧ unique role.2.inherits = true ∧
    unique role.2.permissions = true ∧
    (∀ inherited ∈ role.2.inherits, (role? graph inherited).isSome = true) ∧
    ∀ permission ∈ role.2.permissions, Patterns.permission permission.toList = true

instance (graph : ApplicationPolicyGraph) (role : String × ApplicationRoleDefinition) :
    Decidable (OwnChecks graph role) :=
  inferInstanceAs (Decidable (_ ∧ _ ∧ _ ∧ _ ∧ _ ∧ _ ∧ _))

/-- One turn of the loop of `validate_graph`. -/
def validateRole (graph : ApplicationPolicyGraph) (role : String × ApplicationRoleDefinition) :
    Checked Unit := do
  ensure (OwnChecks graph role) refused
  let cyclic ← hasCycle role.1 graph
  ensure (cyclic = false) refused

/-- The checks before the loop. -/
def SizeChecks (graph : ApplicationPolicyGraph) : Prop :=
  graph.roles.length ≤ 32 ∧
    (graph.defaultRole.all fun role => (role? graph role).isSome) = true

instance (graph : ApplicationPolicyGraph) : Decidable (SizeChecks graph) :=
  inferInstanceAs (Decidable (_ ∧ _))

/-- The sizes first, then each role by itself, in the order of the graph. -/
def validateGraph (graph : ApplicationPolicyGraph) : Checked Unit := do
  ensure (SizeChecks graph) refused
  forM graph.roles (validateRole graph)

/-- The arrays of every role in ascending order. -/
def canonicalizeDirectArrays (graph : ApplicationPolicyGraph) : ApplicationPolicyGraph :=
  { graph with
    roles := graph.roles.map fun (name, definition) =>
      (name, { inherits := orderBy id definition.inherits
               permissions := orderBy id definition.permissions }) }

/-- The values of a `BTreeSet` in their order. -/
def sortedSet (values : List String) : List String := orderBy id values.dedup

/-- The role and all roles behind it, in ascending order. -/
def inheritedClosure (name : String) (graph : ApplicationPolicyGraph) :
    Checked (List String) := do
  let definition ← index graph name
  match search (parentGraph graph) (fun _ => false) definition.inherits.reverse [name] with
  | .exhausted roles => pure (sortedSet roles)
  | .found _ | .missing _ => .error .panicked

/-- The permissions of some roles, each once and in ascending order. -/
def effectivePermissions (roles : List String) (graph : ApplicationPolicyGraph) :
    Checked (List String) := do
  let definitions ← roles.mapM (index graph)
  pure (sortedSet (definitions.flatMap ApplicationRoleDefinition.permissions))

/-- One turn of the loop of `expand`. -/
def expandRole (graph : ApplicationPolicyGraph) (role : String × ApplicationRoleDefinition) :
    Checked (String × List String × List String) := do
  let roles ← inheritedClosure role.1 graph
  let permissions ← effectivePermissions roles graph
  pure (role.1, roles, permissions)

/-- The closure and the permissions of every role. -/
def expand (graph : ApplicationPolicyGraph) : Checked EffectiveApplicationPolicy := do
  let closures ← graph.roles.mapM (expandRole graph)
  pure { effectiveRoles := closures.map fun (name, roles, _) => (name, roles)
         effectivePermissions := closures.map fun (name, _, permissions) => (name, permissions) }

/-- Validated canonical graph and its deterministic precomputed closure. -/
structure CanonicalApplicationPolicy where
  graph : ApplicationPolicyGraph
  effective : EffectiveApplicationPolicy
  deriving DecidableEq

/-- The graph is checked as it came, then sorted and expanded. -/
def canonicalizeApplicationPolicy (graph : ApplicationPolicyGraph) :
    Checked CanonicalApplicationPolicy := do
  validateGraph graph
  let graph := canonicalizeDirectArrays graph
  let effective ← expand graph
  pure { graph, effective }

/-! ### The graphs that may be approved -/

/-- The role is among its own ancestors. -/
def Cyclic (graph : ApplicationPolicyGraph) (name : String) : Prop :=
  Relation.TransGen (Edge (parentGraph graph)) name name

/-- Sizes and names are within the limits, roles and permissions are listed once, the default role
and every parent are declared, and no role inherits itself. -/
structure Valid (graph : ApplicationPolicyGraph) : Prop where
  roles_le : graph.roles.length ≤ 32
  default_declared : ∀ role, graph.defaultRole = some role → ∃ d, (role, d) ∈ graph.roles
  name : ∀ role ∈ graph.roles, Patterns.roleName role.1.toList = true
  inherits_le : ∀ role ∈ graph.roles, role.2.inherits.length ≤ 8
  permissions_le : ∀ role ∈ graph.roles, role.2.permissions.length ≤ 64
  inherits_nodup : ∀ role ∈ graph.roles, role.2.inherits.Nodup
  permissions_nodup : ∀ role ∈ graph.roles, role.2.permissions.Nodup
  inherits_declared : ∀ role ∈ graph.roles, ∀ parent ∈ role.2.inherits,
    ∃ d, (parent, d) ∈ graph.roles
  permission : ∀ role ∈ graph.roles, ∀ permission ∈ role.2.permissions,
    Patterns.permission permission.toList = true
  acyclic : ∀ role ∈ graph.roles, ¬ Cyclic graph role.1

theorem unique_iff {values : List String} : unique values = true ↔ values.Nodup := by
  rw [unique, beq_iff_eq]
  exact Multiset.toFinset_card_eq_card_iff_nodup

/-- The checks of `validateRole` and `validateGraph` in the words of `Valid`. -/
theorem valid_iff {graph : ApplicationPolicyGraph} :
    Valid graph ↔ SizeChecks graph ∧ (∀ role ∈ graph.roles, OwnChecks graph role) ∧
      ∀ role ∈ graph.roles, ¬ Cyclic graph role.1 := by
  have hdefault : (graph.defaultRole.all fun role => (role? graph role).isSome) = true ↔
      ∀ role, graph.defaultRole = some role → ∃ d, (role, d) ∈ graph.roles := by
    cases graph.defaultRole with
    | none => simp
    | some role => simp [role?_isSome]
  constructor
  · intro h
    refine ⟨⟨h.roles_le, hdefault.mpr h.default_declared⟩, fun role hrole => ?_, h.acyclic⟩
    exact ⟨h.name role hrole, h.inherits_le role hrole, h.permissions_le role hrole,
      unique_iff.mpr (h.inherits_nodup role hrole),
      unique_iff.mpr (h.permissions_nodup role hrole),
      fun parent hparent => role?_isSome.mpr (h.inherits_declared role hrole parent hparent),
      h.permission role hrole⟩
  · rintro ⟨⟨hlen, hdeclared⟩, hown, hacyclic⟩
    exact {
      roles_le := hlen
      default_declared := hdefault.mp hdeclared
      name := fun role hrole => (hown role hrole).1
      inherits_le := fun role hrole => (hown role hrole).2.1
      permissions_le := fun role hrole => (hown role hrole).2.2.1
      inherits_nodup := fun role hrole => unique_iff.mp (hown role hrole).2.2.2.1
      permissions_nodup := fun role hrole => unique_iff.mp (hown role hrole).2.2.2.2.1
      inherits_declared := fun role hrole parent hparent =>
        role?_isSome.mp ((hown role hrole).2.2.2.2.2.1 parent hparent)
      permission := fun role hrole => (hown role hrole).2.2.2.2.2.2
      acyclic := hacyclic }

/-! ### The cycle check -/

/-- The parents of a declared role. -/
def parents (graph : ApplicationPolicyGraph) (name : String) : List String :=
  ((role? graph name).map ApplicationRoleDefinition.inherits).getD []

/-- A chain of parents from the role, over roles that differ from each other and from it, to the
role itself or to a name that is not declared. -/
def AncestorChain (graph : ApplicationPolicyGraph) (origin : String) (chain : List String) : Prop :=
  Chain (parentGraph graph) (· == origin) [] (parents graph origin) chain

/-- Of the chains of parents from the role, comparing later parents first, one that ends in an
undeclared name comes before every chain back to the role. -/
def Derails (graph : ApplicationPolicyGraph) (origin : String) : Prop :=
  ∃ chain name, AncestorChain graph origin chain ∧ chain.getLast? = some name ∧
    name ≠ origin ∧ role? graph name = none ∧
    ∀ chain', AncestorChain graph origin chain' → chain'.getLast? = some origin →
      Before (parentGraph graph) (parents graph origin) chain chain'

variable {graph : ApplicationPolicyGraph} {origin : String}

theorem edge_iff {name parent : String} :
    Edge (parentGraph graph) name parent ↔
      ∃ definition, role? graph name = some definition ∧ parent ∈ definition.inherits := by
  simp only [Edge, parentGraph, Option.map_eq_some_iff]
  constructor
  · rintro ⟨_, ⟨definition, hrole, rfl⟩, hmem⟩
    exact ⟨definition, hrole, hmem⟩
  · rintro ⟨definition, hrole, hmem⟩
    exact ⟨_, ⟨definition, hrole, rfl⟩, hmem⟩

theorem next_eq_none {name : String} :
    (parentGraph graph).next name = none ↔ role? graph name = none := by
  simp [parentGraph]

/-- What the check of a declared role answers. -/
theorem hasCycle_spec {definition : ApplicationRoleDefinition}
    (hrole : role? graph origin = some definition) :
    (hasCycle origin graph = .error .panicked ∧ Derails graph origin) ∨
      (hasCycle origin graph = .ok true ∧ ¬ Derails graph origin ∧ Cyclic graph origin) ∨
      (hasCycle origin graph = .ok false ∧ ¬ Derails graph origin ∧ ¬ Cyclic graph origin ∧
        ∀ name, Relation.TransGen (Edge (parentGraph graph)) origin name →
          ∃ d, role? graph name = some d) := by
  have hparents : parents graph origin = definition.inherits := by simp [parents, hrole]
  -- the search stops at the least chain, in the order in which it pushes the parents
  have hleast : FirstEnd (parentGraph graph) (· == origin) [] (parents graph origin)
      (search (parentGraph graph) (· == origin) definition.inherits.reverse []).name := by
    rw [hparents]
    exact search_least _ _ fun a ha => absurd ha List.not_mem_nil
  -- what is behind the parents is what is behind the role
  have hbehind : ∀ {name}, (∃ b ∈ definition.inherits.reverse,
      Relation.ReflTransGen (Edge (parentGraph graph)) b name) ↔
        Relation.TransGen (Edge (parentGraph graph)) origin name := by
    intro name
    rw [Relation.TransGen.head'_iff]
    simp only [List.mem_reverse, edge_iff, hrole, Option.some.injEq, exists_eq_left']
  simp only [hasCycle, index, hrole, ofOption]
  cases hsearch : search (parentGraph graph) (· == origin) definition.inherits.reverse [] with
  -- a name without a role: the walk indexes it and panics
  | missing name =>
    obtain ⟨hstop, hnone⟩ := search_kind.2 hsearch
    rw [hsearch] at hleast
    obtain ⟨chain, ⟨hchain, hfirst⟩, hlast⟩ := hleast
    have hne : name ≠ origin := by simpa using hstop
    refine Or.inl ⟨by simp [bind, Except.bind, hsearch], chain, name, hchain, hlast, hne,
      next_eq_none.mp hnone, fun chain' hchain' hlast' => (hfirst chain' hchain').resolve_left ?_⟩
    rintro rfl
    exact hne (Option.some.inj (hlast.symm.trans hlast'))
  -- the role itself: a cycle, unless an undeclared name had been met before
  | found name =>
    obtain rfl : name = origin := by simpa using search_kind.1 hsearch
    rw [hsearch] at hleast
    obtain ⟨chain, ⟨hchain, hfirst⟩, hlast⟩ := hleast
    refine Or.inr (Or.inl ⟨by simp [bind, Except.bind, hsearch, pure, Except.pure], ?_, ?_⟩)
    · rintro ⟨chain', other, hchain', hlast', hne, -, hbefore⟩
      rcases hfirst chain' hchain' with rfl | hafter
      · exact hne (Option.some.inj (hlast'.symm.trans hlast))
      · exact hafter.asymm (hbefore chain hchain hlast)
    · exact hbehind.mp (search_ends (by rw [hsearch]; rfl))
  -- everything has been visited, and the role is not in it
  | exhausted visited =>
    rw [hsearch] at hleast
    obtain ⟨-, hpending, hclosed, -⟩ := search_exhausted hsearch
    have hreach : ∀ name, Relation.TransGen (Edge (parentGraph graph)) origin name →
        name ∈ visited := by
      intro name hpath
      obtain ⟨b, hb, hpath⟩ := hbehind.mpr hpath
      exact hclosed.reach (hpending hb) hpath
    refine Or.inr (Or.inr ⟨by simp [bind, Except.bind, hsearch, pure, Except.pure], ?_, ?_, ?_⟩)
    · rintro ⟨chain, _, hchain, -⟩
      exact hleast chain hchain
    · intro hcyclic
      have := (hclosed origin (hreach origin hcyclic) List.not_mem_nil).1
      simp at this
    · intro name hpath
      obtain ⟨-, successors, hnext, -⟩ := hclosed name (hreach name hpath) List.not_mem_nil
      obtain ⟨d, hd, -⟩ := Option.map_eq_some_iff.mp hnext
      exact ⟨d, hd⟩

/-! ### The checks of a graph -/

theorem exists_role? {role : String × ApplicationRoleDefinition} (h : role ∈ graph.roles) :
    ∃ d, role? graph role.1 = some d :=
  Option.isSome_iff_exists.mp (role?_isSome.mpr ⟨role.2, h⟩)

/-- The first role whose check panics: the limits hold, the role and those before it pass their own
checks, none before it is cyclic, and it derails. -/
def Unsafe (graph : ApplicationPolicyGraph) : Prop :=
  SizeChecks graph ∧ ∃ before role after, graph.roles = before ++ role :: after ∧
    (∀ r ∈ before ++ [role], OwnChecks graph r) ∧ (∀ r ∈ before, ¬ Cyclic graph r.1) ∧
    Derails graph role.1

theorem validateRole_panics {role : String × ApplicationRoleDefinition} (h : role ∈ graph.roles) :
    validateRole graph role = .error .panicked ↔ OwnChecks graph role ∧ Derails graph role.1 := by
  obtain ⟨d, hd⟩ := exists_role? h
  simp only [validateRole, bind_eq_error, ensure_eq_error, ensure_eq_ok, refused, reduceCtorEq,
    and_false, exists_false, or_false, false_or, exists_const]
  refine and_congr_right fun _ => ?_
  rcases hasCycle_spec hd with ⟨hcheck, hderails⟩ | ⟨hcheck, hnot, -⟩ | ⟨hcheck, hnot, -⟩
  · exact iff_of_true hcheck hderails
  · exact iff_of_false (by simp [hcheck]) hnot
  · exact iff_of_false (by simp [hcheck]) hnot

theorem validateRole_ok {role : String × ApplicationRoleDefinition} (h : role ∈ graph.roles) :
    validateRole graph role = .ok () ↔
      OwnChecks graph role ∧ ¬ Derails graph role.1 ∧ ¬ Cyclic graph role.1 := by
  obtain ⟨d, hd⟩ := exists_role? h
  simp only [validateRole, bind_eq_ok, ensure_eq_ok, exists_const]
  refine and_congr_right fun _ => ?_
  rcases hasCycle_spec hd with ⟨hcheck, hderails⟩ | ⟨hcheck, hnot, hcyclic⟩ |
    ⟨hcheck, hnot, hacyclic, -⟩
  · simp [hcheck, hderails]
  · simp [hcheck, hcyclic]
  · simp [hcheck, hnot, hacyclic]

/-- The validation panics on the unsafe graphs and on no others. -/
theorem validateGraph_panics : validateGraph graph = .error .panicked ↔ Unsafe graph := by
  simp only [validateGraph, bind_eq_error, ensure_eq_error, ensure_eq_ok, refused, reduceCtorEq,
    and_false, false_or, exists_const]
  refine and_congr_right fun _ => ?_
  constructor
  · intro h
    obtain ⟨before, role, after, hroles, hbefore, hrole⟩ := forM_eq_error.mp h
    have hmem : ∀ r ∈ before ++ [role], r ∈ graph.roles := by
      intro r hr
      rw [hroles]
      simp only [List.mem_append, List.mem_cons, List.not_mem_nil, or_false] at hr ⊢
      tauto
    obtain ⟨hown, hderails⟩ := (validateRole_panics (hmem role (by simp))).mp hrole
    have hpassed : ∀ r ∈ before, OwnChecks graph r ∧ ¬ Cyclic graph r.1 := fun r hr =>
      ((validateRole_ok (hmem r (by simp [hr]))).mp (hbefore r hr)).imp_right And.right
    refine ⟨before, role, after, hroles, fun r hr => ?_, fun r hr => (hpassed r hr).2, hderails⟩
    rcases List.mem_append.mp hr with hr | hr
    · exact (hpassed r hr).1
    · exact List.mem_singleton.mp hr ▸ hown
  · rintro ⟨before, role, after, hroles, hown, hacyclic, hderails⟩
    have hmem : ∀ r ∈ before ++ [role], r ∈ graph.roles := by
      intro r hr
      rw [hroles]
      simp only [List.mem_append, List.mem_cons, List.not_mem_nil, or_false] at hr ⊢
      tauto
    rw [hroles]
    refine forM_error_append (fun r hr => ?_) ?_
    -- a role before it passes, or panics itself
    · have hr' : r ∈ before ++ [role] := List.mem_append_left _ hr
      by_cases hd : Derails graph r.1
      · exact Or.inr ((validateRole_panics (hmem r hr')).mpr ⟨hown r hr', hd⟩)
      · exact Or.inl ((validateRole_ok (hmem r hr')).mpr ⟨hown r hr', hd, hacyclic r hr⟩)
    · exact (validateRole_panics (hmem role (by simp))).mpr ⟨hown role (by simp), hderails⟩

/-- Every parent of a declared role is declared. -/
def ParentsDeclared (graph : ApplicationPolicyGraph) : Prop :=
  ∀ name definition, role? graph name = some definition →
    ∀ parent ∈ definition.inherits, ∃ d, role? graph parent = some d

theorem parentsDeclared (h : ∀ role ∈ graph.roles, OwnChecks graph role) :
    ParentsDeclared graph := by
  intro name definition hrole parent hparent
  exact Option.isSome_iff_exists.mp ((h _ (mem_of_role? hrole)).2.2.2.2.2.1 parent hparent)

theorem ParentsDeclared.path (h : ParentsDeclared graph) {name other : String}
    {definition : ApplicationRoleDefinition} (hrole : role? graph name = some definition)
    (hpath : Relation.ReflTransGen (Edge (parentGraph graph)) name other) :
    ∃ d, role? graph other = some d := by
  induction hpath with
  | refl => exact ⟨definition, hrole⟩
  | tail _ hedge _ =>
    obtain ⟨d, hd, hmem⟩ := edge_iff.mp hedge
    exact h _ d hd _ hmem

theorem ParentsDeclared.not_derails (h : ParentsDeclared graph) (origin : String) :
    ¬ Derails graph origin := by
  rintro ⟨chain, name, hchain, hlast, -, hnone, -⟩
  obtain ⟨parent, hparent, hpath⟩ := hchain.reach hlast
  have hdeclared : ∃ d, role? graph parent = some d := by
    unfold parents at hparent
    cases horigin : role? graph origin with
    | none => simp [horigin] at hparent
    | some d => exact h origin d horigin parent (by simpa [horigin] using hparent)
  obtain ⟨d, hd⟩ := hdeclared
  obtain ⟨d', hd'⟩ := h.path hd hpath
  rw [hnone] at hd'
  cases hd'

theorem validateGraph_ok : validateGraph graph = .ok () ↔ Valid graph := by
  simp only [validateGraph, bind_eq_ok, ensure_eq_ok, exists_const, forM_eq_ok, valid_iff]
  refine and_congr_right fun _ => ?_
  constructor
  · intro h
    have hpassed : ∀ role ∈ graph.roles, OwnChecks graph role ∧ ¬ Derails graph role.1 ∧
        ¬ Cyclic graph role.1 := fun role hrole => (validateRole_ok hrole).mp (h role hrole)
    exact ⟨fun role hrole => (hpassed role hrole).1, fun role hrole => (hpassed role hrole).2.2⟩
  · rintro ⟨hown, hacyclic⟩ role hrole
    exact (validateRole_ok hrole).mpr ⟨hown role hrole,
      (parentsDeclared hown).not_derails role.1, hacyclic role hrole⟩

/-! ### The closure -/

theorem mem_sortedSet {values : List String} {value : String} :
    value ∈ sortedSet values ↔ value ∈ values := by
  simp [sortedSet]

/-- The closure of a role is the role and its ancestors. -/
theorem inheritedClosure_spec (h : ParentsDeclared graph) {name : String}
    {definition : ApplicationRoleDefinition} (hrole : role? graph name = some definition) :
    ∃ roles, inheritedClosure name graph = .ok roles ∧
      ∀ other, other ∈ roles ↔ Relation.ReflTransGen (Edge (parentGraph graph)) name other := by
  have hedge : ∀ {parent}, parent ∈ definition.inherits.reverse → Edge (parentGraph graph) name
      parent := fun hmem => edge_iff.mpr ⟨definition, hrole, List.mem_reverse.mp hmem⟩
  simp only [inheritedClosure, index, hrole, ofOption]
  cases hsearch : search (parentGraph graph) (fun _ => false) definition.inherits.reverse [name] with
  | found other => exact absurd (search_kind.1 hsearch) Bool.false_ne_true
  | missing other =>
    obtain ⟨parent, hparent, hpath⟩ := search_ends (by rw [hsearch]; rfl)
    obtain ⟨d, hd⟩ := h.path hrole (Relation.ReflTransGen.head (hedge hparent) hpath)
    rw [next_eq_none.mp (search_kind.2 hsearch).2] at hd
    cases hd
  | exhausted visited =>
    obtain ⟨hname, hpending, hclosed, hreach⟩ := search_exhausted hsearch
    rw [List.cons_subset] at hname
    refine ⟨sortedSet visited, by simp [bind, Except.bind, hsearch, pure, Except.pure],
      fun other => ?_⟩
    rw [mem_sortedSet]
    constructor
    · intro hother
      by_cases heq : other = name
      · exact heq ▸ Relation.ReflTransGen.refl
      · obtain ⟨parent, hparent, hpath⟩ := hreach other hother (by simpa using heq)
        exact Relation.ReflTransGen.head (hedge hparent) hpath
    · intro hpath
      -- the visited names are closed, and so are the parents of the role itself
      induction hpath with
      | refl => exact hname.1
      | @tail a b _ hstep ih =>
        obtain ⟨d, hd, hmem⟩ := edge_iff.mp hstep
        by_cases heq : a = name
        · rw [heq, hrole, Option.some.injEq] at hd
          exact hpending (List.mem_reverse.mpr (hd ▸ hmem))
        · obtain ⟨-, successors, hnext, hsub⟩ := hclosed a ih (by simpa using heq)
          obtain ⟨d', hd', rfl⟩ := Option.map_eq_some_iff.mp hnext
          rw [show role? graph a = some d' from hd', Option.some.injEq] at hd
          exact hsub (hd ▸ hmem)

theorem exists_expand (h : ParentsDeclared graph) : ∃ effective, expand graph = .ok effective := by
  have hclosures : ∃ closures, graph.roles.mapM (expandRole graph) = .ok closures := by
    refine mapM_ok_iff.mpr fun role hrole => ?_
    obtain ⟨definition, hdefinition⟩ := exists_role? hrole
    obtain ⟨roles, hroles, hmem⟩ := inheritedClosure_spec h hdefinition
    have hpermissions : ∃ definitions, roles.mapM (index graph) = .ok definitions := by
      refine mapM_ok_iff.mpr fun other hother => ?_
      obtain ⟨d, hd⟩ := h.path hdefinition ((hmem other).mp hother)
      exact ⟨d, by rw [index, hd]; rfl⟩
    obtain ⟨definitions, hdefinitions⟩ := hpermissions
    simp only [expandRole, effectivePermissions, hroles, hdefinitions, bind, Except.bind, pure,
      Except.pure, Except.ok.injEq, exists_eq']
  obtain ⟨closures, hclosures⟩ := hclosures
  simp only [expand, hclosures, bind, Except.bind, pure, Except.pure, Except.ok.injEq, exists_eq']

/-! ### The canonical graph -/

theorem role?_canonicalizeDirectArrays {name : String} :
    role? (canonicalizeDirectArrays graph) name =
      (role? graph name).map fun definition =>
        { inherits := orderBy id definition.inherits
          permissions := orderBy id definition.permissions } := by
  unfold role? canonicalizeDirectArrays
  induction graph.roles with
  | nil => rfl
  | cons role roles ih =>
    rw [List.map_cons, List.lookup_cons, List.lookup_cons]
    split
    · rfl
    · exact ih

theorem ParentsDeclared.canonical (h : ParentsDeclared graph) :
    ParentsDeclared (canonicalizeDirectArrays graph) := by
  intro name definition hrole parent hparent
  rw [role?_canonicalizeDirectArrays, Option.map_eq_some_iff] at hrole
  obtain ⟨d, hd, rfl⟩ := hrole
  obtain ⟨d', hd'⟩ := h name d hd parent (mem_orderBy.mp hparent)
  exact ⟨_, by rw [role?_canonicalizeDirectArrays, hd']; rfl⟩

/-- A graph is accepted if and only if it is valid. -/
theorem canonicalize_ok :
    (∃ canonical, canonicalizeApplicationPolicy graph = .ok canonical) ↔ Valid graph := by
  constructor
  · rintro ⟨canonical, h⟩
    simp only [canonicalizeApplicationPolicy, bind_eq_ok] at h
    obtain ⟨u, hvalid, -⟩ := h
    exact validateGraph_ok.mp hvalid
  · intro h
    obtain ⟨effective, heffective⟩ :=
      exists_expand (parentsDeclared (valid_iff.mp h).2.1).canonical
    refine ⟨⟨canonicalizeDirectArrays graph, effective⟩, ?_⟩
    simp only [canonicalizeApplicationPolicy, validateGraph_ok.mpr h, heffective, bind,
      Except.bind, pure, Except.pure]

/-- The call panics where the validation does. -/
theorem canonicalize_panics :
    canonicalizeApplicationPolicy graph = .error .panicked ↔ Unsafe graph := by
  rw [← validateGraph_panics]
  simp only [canonicalizeApplicationPolicy, bind_eq_error]
  refine or_iff_left ?_
  rintro ⟨u, hvalid, hexpand⟩
  obtain ⟨effective, heffective⟩ :=
    exists_expand (parentsDeclared (valid_iff.mp (validateGraph_ok.mp hvalid)).2.1).canonical
  simp [heffective, pure, Except.pure] at hexpand

end ApplicationPolicy

end BlobYard
