/-
What the sections of a manifest say about each other.

Routes, jobs and grants name functions and buckets, and the roles name each other.  Every name
leads to a declaration of its kind.  A list may declare a name twice, though, and then the name
leads to more than one of them.

* `References` — the references of a manifest and what they lead to;
* `references_law` — the references of every validated manifest;
* `riskTracker` — a manifest with every kind of reference;
* `twoFunctions_accepted` — a route that leads to two functions.
-/
import BlobYard.Laws.ManifestPolicies

namespace BlobYard

namespace Manifest

/-! ### References -/

/-- One of the items has the name. -/
def Denotes {α : Type} (items : List α) (name : α → String) (reference : String) : Prop :=
  ∃ item ∈ items, name item = reference

/-- Exactly one of the items has the name. -/
def DenotesOne {α : Type} (items : List α) (name : α → String) (reference : String) : Prop :=
  ∃ item, (items.filter fun item => name item = reference) = [item]

/-- A name that is not repeated leads to exactly one item. -/
theorem Denotes.one {α : Type} {items : List α} {name : α → String} {reference : String}
    (h : Denotes items name reference) (hnodup : (items.map name).Nodup) :
    DenotesOne items name reference := by
  obtain ⟨item, hitem, hname⟩ := h
  induction items with
  | nil => exact absurd hitem List.not_mem_nil
  | cons first rest ih =>
    rw [List.map_cons, List.nodup_cons] at hnodup
    obtain ⟨hnot, hrest⟩ := hnodup
    by_cases hfirst : name first = reference
    · refine ⟨first, ?_⟩
      have hnone : rest.filter (fun other => name other = reference) = [] := by
        refine List.filter_eq_nil_iff.mpr fun other hother hsame => hnot ?_
        rw [decide_eq_true_eq] at hsame
        rw [hfirst, ← hsame]
        exact List.mem_map_of_mem hother
      rw [List.filter_cons, if_pos (decide_eq_true hfirst), hnone]
    · rcases List.mem_cons.mp hitem with rfl | hitem
      · exact absurd hname hfirst
      · obtain ⟨only, honly⟩ := ih hrest hitem
        exact ⟨only, by rw [List.filter_cons, if_neg (by simpa using hfirst), honly]⟩

/-- The scheduled ones of the functions. -/
def scheduled (functions : List Function) : List Function :=
  functions.filter fun function => function.functionType = .scheduled

/-- Every reference of the manifest leads to a declaration of its kind, the functions have the
triggers of their types and no other, and no two routes share method and path. -/
structure References (manifest : ApplicationManifest) : Prop where
  defaultRole : ∀ role ∈ manifest.auth.bind ManifestAuth.defaultRole,
    ∃ definition, (Cross.declaredRoles manifest).lookup role = some definition
  inherited : ∀ role ∈ Cross.declaredRoles manifest, ∀ parent ∈ Cross.parents role.2,
    ∃ definition, (Cross.declaredRoles manifest).lookup parent = some definition
  job : ∀ job ∈ manifest.jobs.getD [],
    Denotes (scheduled (manifest.functions.getD [])) Function.name job.function
  route : ∀ route ∈ manifest.routes.getD [],
    Denotes (manifest.functions.getD []) Function.name route.function
  health : ∀ health ∈ manifest.health,
    Denotes (manifest.functions.getD []) Function.name health.function
  bucket : ∀ function ∈ manifest.functions.getD [], ∀ grant ∈ function.buckets.getD [],
    Denotes (manifest.buckets.getD []) Bucket.name (Cross.grantedBucket grant)
  permission : ∀ function ∈ manifest.functions.getD [],
    ∀ permission ∈ function.permissions.getD [],
      ∃ role ∈ Cross.declaredRoles manifest, permission ∈ role.2.permissions.getD []
  database : ∀ function ∈ manifest.functions.getD [],
    function.database = some .read ∨ function.database = some .readWrite →
      ∃ database, manifest.database = some database
  event : ∀ function ∈ manifest.functions.getD [],
    function.event.isSome = true ↔ function.functionType = .event
  queue : ∀ function ∈ manifest.functions.getD [],
    function.queue.isSome = true ↔ function.functionType = .queue
  routes : ((manifest.routes.getD []).map fun route => (route.method, route.path)).Nodup

/-- The references to functions and buckets, where no name is declared twice. -/
structure ReferencesOne (manifest : ApplicationManifest) : Prop where
  job : ((manifest.functions.getD []).map Function.name).Nodup →
    ∀ job ∈ manifest.jobs.getD [],
      DenotesOne (manifest.functions.getD []) Function.name job.function
  route : ((manifest.functions.getD []).map Function.name).Nodup →
    ∀ route ∈ manifest.routes.getD [],
      DenotesOne (manifest.functions.getD []) Function.name route.function
  health : ((manifest.functions.getD []).map Function.name).Nodup →
    ∀ health ∈ manifest.health,
      DenotesOne (manifest.functions.getD []) Function.name health.function
  bucket : ((manifest.buckets.getD []).map Bucket.name).Nodup →
    ∀ function ∈ manifest.functions.getD [], ∀ grant ∈ function.buckets.getD [],
      DenotesOne (manifest.buckets.getD []) Bucket.name (Cross.grantedBucket grant)

/-! ### What the checks say -/

variable {manifest : ApplicationManifest}

/-- Every item of a list passes its check. -/
theorem forall_of_eachOf {α : Type} {items : Option (List α)}
    {check : α → ℕ → List ManifestError} (h : Cross.eachOf items check = []) :
    ∀ item ∈ items.getD [], ∃ index, check item index = [] := by
  intro item hitem
  obtain ⟨i, hi, rfl⟩ := List.mem_iff_getElem.mp hitem
  exact ⟨i, eachOf_eq_nil.mp h i hi⟩

theorem mem_functionsNamed {name : String} {function : Function} :
    function ∈ Cross.functionsNamed manifest name ↔
      function ∈ manifest.functions.getD [] ∧ function.name = name := by
  rw [Cross.functionsNamed, List.mem_filter, beq_iff_eq]

theorem functionsNamed_isEmpty {name : String} :
    (!(Cross.functionsNamed manifest name).isEmpty) = true ↔
      Denotes (manifest.functions.getD []) Function.name name := by
  rw [Bool.not_eq_true', List.isEmpty_eq_false_iff_exists_mem]
  simp only [mem_functionsNamed, Denotes]

theorem functionReference_eq_nil {path name : String} :
    Cross.functionReference manifest path name = [] ↔
      Denotes (manifest.functions.getD []) Function.name name := by
  rw [Cross.functionReference, referenced_eq_nil, functionsNamed_isEmpty]

theorem jobFunction_eq_nil {job : Job} {index : ℕ} :
    Cross.jobFunction manifest job index = [] ↔
      Denotes (scheduled (manifest.functions.getD [])) Function.name job.function := by
  have hscheduled : ((Cross.functionsNamed manifest job.function).any fun function =>
        function.functionType == .scheduled) = true ↔
      Denotes (scheduled (manifest.functions.getD [])) Function.name job.function := by
    simp only [List.any_eq_true, mem_functionsNamed, beq_iff_eq, Denotes, scheduled,
      List.mem_filter, decide_eq_true_eq]
    constructor
    · rintro ⟨function, ⟨hmem, hname⟩, htype⟩
      exact ⟨function, ⟨hmem, htype⟩, hname⟩
    · rintro ⟨function, ⟨hmem, htype⟩, hname⟩
      exact ⟨function, ⟨hmem, hname⟩, htype⟩
  rw [Cross.jobFunction, List.append_eq_nil_iff, functionReference_eq_nil, ← hscheduled,
    ite_eq_right_iff]
  constructor
  · rintro ⟨hnamed, hchecked⟩
    by_contra hnot
    rw [functionsNamed_isEmpty.mpr hnamed, Bool.true_and, Bool.not_eq_true'] at hchecked
    exact List.cons_ne_nil _ _ (hchecked (Bool.eq_false_of_not_eq_true hnot))
  · intro hany
    obtain ⟨function, hfunction, -⟩ := List.any_eq_true.mp hany
    refine ⟨⟨function, mem_functionsNamed.mp hfunction⟩, fun hboth => ?_⟩
    rw [hany, Bool.not_true, Bool.and_false] at hboth
    cases hboth

theorem bucketReference_eq_nil {functionIndex index : ℕ} {grant : String} :
    Cross.bucketReference manifest functionIndex grant index = [] ↔
      Denotes (manifest.buckets.getD []) Bucket.name (Cross.grantedBucket grant) := by
  rw [Cross.bucketReference, referenced_eq_nil, List.any_eq_true]
  simp only [beq_iff_eq, Denotes]

theorem requiredTrigger_eq_nil {present : Bool} {index : ℕ} {field : String} :
    Cross.requiredTrigger present index field = [] ↔ present = true := by
  cases present <;> simp [Cross.requiredTrigger]

theorem forbiddenTrigger_eq_nil {present : Bool} {index : ℕ} {field : String} :
    Cross.forbiddenTrigger present index field = [] ↔ present = false := by
  cases present <;> simp [Cross.forbiddenTrigger]

theorem functionTriggers_eq_nil {function : Function} {index : ℕ} :
    Cross.functionTriggers function index = [] ↔
      (function.event.isSome = true ↔ function.functionType = .event) ∧
        (function.queue.isSome = true ↔ function.functionType = .queue) := by
  unfold Cross.functionTriggers
  split
  case h_1 htype =>
    rw [List.append_eq_nil_iff, requiredTrigger_eq_nil, forbiddenTrigger_eq_nil, htype]
    simp
  case h_2 htype =>
    rw [List.append_eq_nil_iff, requiredTrigger_eq_nil, forbiddenTrigger_eq_nil, htype]
    simp [and_comm]
  case h_3 hevent hqueue =>
    have hevent' : function.functionType ≠ .event := hevent
    have hqueue' : function.functionType ≠ .queue := hqueue
    rw [List.append_eq_nil_iff, forbiddenTrigger_eq_nil, forbiddenTrigger_eq_nil]
    simp only [hevent', hqueue', iff_false, Bool.not_eq_true]

/-- A route repeats an earlier one. -/
theorem routeRepeats_eq_true {routes : List Route} {route : Route} {index : ℕ} :
    Cross.routeRepeats routes route index = true ↔
      ∃ j, ∃ hj : j < routes.length, j < index ∧
        (routes[j].method, routes[j].path) = (route.method, route.path) := by
  simp only [Cross.routeRepeats, List.any_eq_true, Bool.and_eq_true, beq_iff_eq,
    List.mem_take_iff_getElem, Prod.mk.injEq]
  constructor
  · rintro ⟨earlier, ⟨j, hj, rfl⟩, hsame⟩
    exact ⟨j, by omega, by omega, hsame⟩
  · rintro ⟨j, hj, hlt, hsame⟩
    exact ⟨routes[j], ⟨j, by omega, rfl⟩, hsame⟩

theorem routes_eq_nil :
    Cross.routes manifest = [] ↔
      ((manifest.routes.getD []).map fun route => (route.method, route.path)).Nodup := by
  rw [Cross.routes, eachOf_eq_nil, List.nodup_iff_pairwise_ne, List.pairwise_map,
    List.pairwise_iff_getElem]
  constructor
  · intro h i j hi hj hlt hsame
    have hrepeats := routeRepeats_eq_true.mpr ⟨i, hi, hlt, hsame⟩
    have hnone := h j hj
    rw [if_pos hrepeats] at hnone
    cases hnone
  · intro h i hi
    rw [if_neg]
    intro hrepeats
    obtain ⟨j, hj, hlt, hsame⟩ := routeRepeats_eq_true.mp hrepeats
    exact h j i hj hi hlt hsame

theorem references_of_validate {libraries : Libraries}
    (h : Cross.validate libraries manifest = []) : References manifest := by
  simp only [Cross.validate, List.append_eq_nil_iff, Cross.roles, Cross.functionReferences,
    Cross.resourceReferences, Cross.triggers, List.flatMap_eq_nil_iff, roleErrors_eq_nil] at h
  obtain ⟨⟨⟨⟨⟨⟨⟨hdefault, hroles⟩, hpermissions⟩, ⟨hjobs, hroutes⟩, hhealth⟩, hresources⟩,
    htriggers⟩, hunique⟩, -⟩ := h
  have hfunction : ∀ function ∈ manifest.functions.getD [],
      (∀ permission ∈ function.permissions.getD [],
        (Cross.declaredPermissions manifest).contains permission = true) ∧
      (∀ grant ∈ function.buckets.getD [],
        Denotes (manifest.buckets.getD []) Bucket.name (Cross.grantedBucket grant)) ∧
      (Cross.usesDatabase function = true → manifest.database.isNone = false) := by
    intro function hmem
    obtain ⟨i, hi⟩ := forall_of_eachOf hpermissions function hmem
    obtain ⟨j, hj⟩ := forall_of_eachOf hresources function hmem
    rw [List.append_eq_nil_iff] at hj
    refine ⟨fun permission hpermission => ?_, fun grant hgrant => ?_, fun huses => ?_⟩
    · obtain ⟨k, hk⟩ := forall_of_eachOf hi permission hpermission
      by_contra hnot
      rw [if_neg hnot] at hk
      cases hk
    · obtain ⟨k, hk⟩ := forall_of_eachOf hj.1 grant hgrant
      exact bucketReference_eq_nil.mp hk
    · by_contra hnone
      rw [huses, Bool.eq_true_of_not_eq_false hnone] at hj
      cases hj.2
  exact {
    defaultRole := by
      intro role hrole
      rw [Cross.defaultRole, Option.mem_def.mp hrole] at hdefault
      exact Option.isSome_iff_exists.mp (referenced_eq_nil.mp hdefault)
    inherited := fun role hrole parent hparent =>
      Option.isSome_iff_exists.mp ((hroles role hrole).1 parent hparent)
    job := by
      intro job hjob
      obtain ⟨index, hindex⟩ := forall_of_eachOf hjobs job hjob
      exact jobFunction_eq_nil.mp hindex
    route := by
      intro route hroute
      obtain ⟨index, hindex⟩ := forall_of_eachOf hroutes route hroute
      exact functionReference_eq_nil.mp hindex
    health := by
      intro health hsome
      rw [Option.mem_def.mp hsome] at hhealth
      exact functionReference_eq_nil.mp hhealth
    bucket := fun function hmem => (hfunction function hmem).2.1
    permission := by
      intro function hmem permission hpermission
      have hdeclared := (hfunction function hmem).1 permission hpermission
      rw [List.contains_iff_mem, Cross.declaredPermissions, List.mem_flatMap] at hdeclared
      exact hdeclared
    database := by
      intro function hmem huses
      have hsome := (hfunction function hmem).2.2 (by
        rw [Cross.usesDatabase, Bool.or_eq_true, beq_iff_eq, beq_iff_eq]
        exact huses)
      rwa [Option.isNone_eq_false_iff, Option.isSome_iff_exists] at hsome
    event := by
      intro function hmem
      obtain ⟨index, hindex⟩ := forall_of_eachOf htriggers function hmem
      exact (functionTriggers_eq_nil.mp hindex).1
    queue := by
      intro function hmem
      obtain ⟨index, hindex⟩ := forall_of_eachOf htriggers function hmem
      exact (functionTriggers_eq_nil.mp hindex).2
    routes := routes_eq_nil.mp hunique }

theorem References.one (h : References manifest) : ReferencesOne manifest where
  job hnodup job hjob := by
    obtain ⟨function, hfunction, hname⟩ := h.job job hjob
    exact Denotes.one ⟨function, (List.mem_filter.mp hfunction).1, hname⟩ hnodup
  route hnodup route hroute := (h.route route hroute).one hnodup
  health hnodup health hhealth := (h.health health hhealth).one hnodup
  bucket hnodup function hfunction grant hgrant :=
    (h.bucket function hfunction grant hgrant).one hnodup

/-- The references of a validated manifest lead to declarations of their kinds, and to exactly
one where no name is repeated. -/
theorem references_law (libraries : Libraries) (source : String) (manifest : ApplicationManifest)
    (h : parseToml libraries source = .ok manifest) :
    References manifest ∧ ReferencesOne manifest := by
  obtain ⟨-, -, -, hcross⟩ := parseToml_eq_ok h
  have href := references_of_validate hcross
  exact ⟨href, href.one⟩

/-! ### A manifest with every kind of reference -/

/-- Two functions and a bucket with their references: roles, a job, routes, a grant and a health
check. -/
def riskTracker : TomlValue :=
  .table [
    ("application", .table [("name", .string "engineering-risk-tracker"),
      ("runtime", .string "blobyard-js-1")]),
    ("auth", .table [("default_role", .string "viewer"),
      ("roles", .table [
        ("editor", .table [("inherits", .array [.string "viewer"]),
          ("permissions", .array [.string "risks.write"])]),
        ("viewer", .table [("permissions", .array [.string "risks.read"])])])]),
    ("buckets", .array [
      .table [("max_object_size", .string "50MiB"), ("name", .string "attachments")]]),
    ("database", .table [("migrations", .string "migrations")]),
    ("functions", .array [
      .table [("buckets", .array [.string "attachments:read-write"]),
        ("database", .string "read-write"), ("entry", .string "functions/risk-create.ts"),
        ("name", .string "risk-create"), ("permissions", .array [.string "risks.write"]),
        ("type", .string "http")],
      .table [("database", .string "read"), ("entry", .string "functions/weekly-summary.ts"),
        ("name", .string "weekly-summary"), ("type", .string "scheduled")],
      .table [("entry", .string "functions/risk-closed.ts"), ("event", .string "risks.closed"),
        ("name", .string "risk-closed"), ("type", .string "event")]]),
    ("health", .table [("function", .string "risk-create")]),
    ("jobs", .array [
      .table [("function", .string "weekly-summary"), ("name", .string "weekly-summary"),
        ("schedule", .string "0 9 * * 1"), ("timezone", .string "UTC")]]),
    ("routes", .array [
      .table [("function", .string "risk-create"), ("method", .string "POST"),
        ("path", .string "/risks")],
      .table [("function", .string "risk-create"), ("method", .string "PUT"),
        ("path", .string "/risks")]]),
    ("schema_version", .integer 1)]

/-- A parser that knows some documents by their titles. -/
def titledDocuments (titled : List (String × TomlValue)) : Libraries where
  fromStr source := (titled.lookup source).elim (.error "expected a key") .ok
  decodeError _ := "unknown field"
  ianaName name := if name = "UTC" then some "UTC" else none

/-- A function without options. -/
def plainFunction (name entry : String) (functionType : FunctionType) : Function where
  name := name
  entry := entry
  functionType := functionType
  permissions := none
  database := none
  buckets := none
  secrets := none
  network := none
  email := none
  event := none
  queue := none

def riskTrackerManifest : ApplicationManifest where
  schemaVersion := 1
  application := ⟨"engineering-risk-tracker", .blobyardJs1⟩
  frontend := none
  auth := some ⟨some "viewer", some editorAndViewer⟩
  database := some ⟨"migrations"⟩
  buckets := some [⟨"attachments", none, some "50MiB"⟩]
  functions := some [
    { plainFunction "risk-create" "functions/risk-create.ts" .http with
      permissions := some ["risks.write"], database := some .readWrite
      buckets := some ["attachments:read-write"] },
    { plainFunction "weekly-summary" "functions/weekly-summary.ts" .scheduled with
      database := some .read },
    { plainFunction "risk-closed" "functions/risk-closed.ts" .event with
      event := some "risks.closed" }]
  jobs := some [⟨"weekly-summary", "weekly-summary", "0 9 * * 1", "UTC", none⟩]
  routes := some [⟨"/risks", .post, "risk-create", none⟩, ⟨"/risks", .put, "risk-create", none⟩]
  limits := none
  health := some ⟨"risk-create", none⟩

/-- A document that passes the schema is read as what it decodes to, if the sections agree. -/
theorem parseToml_of_validate {libraries : Libraries} {source : String} {value : TomlValue}
    {manifest : ApplicationManifest} (hparse : libraries.fromStr source = .ok value)
    (hschema : ManifestSchema.validate value = []) (hdecode : decode value = some manifest)
    (hcross : Cross.validate libraries manifest = []) :
    parseToml libraries source = .ok manifest := by
  simp only [parseToml, hparse, hschema, List.isEmpty_nil, if_true, parseValidated, hdecode, hcross]

/-- All references of the risk tracker lead to one declaration each. -/
theorem references_riskTracker :
    References riskTrackerManifest ∧
      (((riskTrackerManifest.functions.getD []).map Function.name).Nodup ∧
        ((riskTrackerManifest.buckets.getD []).map Bucket.name).Nodup) ∧
      ReferencesOne riskTrackerManifest := by
  have hcross : Cross.validate (titledDocuments [("risk tracker", riskTracker)])
      riskTrackerManifest = [] := by
    rw [Cross.validate, roles_editorAndViewer rfl (by decide +kernel)]
    decide +kernel
  obtain ⟨href, hone⟩ := references_law (titledDocuments [("risk tracker", riskTracker)])
    "risk tracker" riskTrackerManifest (parseToml_of_validate rfl (by decide +kernel) rfl hcross)
  exact ⟨href, by decide +kernel, hone⟩

/-! ### A repeated name -/

/-- Two functions of one name, and a route to it. -/
def twoFunctions : TomlValue :=
  .table [
    ("application", .table [("name", .string "example-app"),
      ("runtime", .string "blobyard-js-1")]),
    ("functions", .array [
      .table [("entry", .string "functions/a.ts"), ("name", .string "api"),
        ("type", .string "http")],
      .table [("entry", .string "functions/b.ts"), ("name", .string "api"),
        ("type", .string "rpc")]]),
    ("routes", .array [
      .table [("function", .string "api"), ("method", .string "GET"),
        ("path", .string "/api")]]),
    ("schema_version", .integer 1)]

def twoFunctionsManifest : ApplicationManifest where
  schemaVersion := 1
  application := ⟨"example-app", .blobyardJs1⟩
  frontend := none
  auth := none
  database := none
  buckets := none
  functions := some [plainFunction "api" "functions/a.ts" .http,
    plainFunction "api" "functions/b.ts" .rpc]
  jobs := none
  routes := some [⟨"/api", .get, "api", none⟩]
  limits := none
  health := none

/-- The route of an accepted manifest may lead to more than one function. -/
theorem twoFunctions_accepted :
    ¬∀ (libraries : Libraries) (source : String) (manifest : ApplicationManifest),
      parseToml libraries source = .ok manifest →
        ∀ route ∈ manifest.routes.getD [],
          DenotesOne (manifest.functions.getD []) Function.name route.function := by
  intro h
  have hparse : parseToml (titledDocuments [("two functions", twoFunctions)]) "two functions" =
      .ok twoFunctionsManifest :=
    parseToml_of_validate rfl (by decide +kernel) rfl (by decide +kernel)
  obtain ⟨only, honly⟩ := h _ _ _ hparse ⟨"/api", .get, "api", none⟩ List.mem_cons_self
  have hlength : ((twoFunctionsManifest.functions.getD []).filter fun function =>
      function.name = "api").length = 1 := congrArg List.length honly
  exact absurd hlength (by decide)

end Manifest

end BlobYard
