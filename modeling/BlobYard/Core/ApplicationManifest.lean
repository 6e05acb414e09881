/-
The application manifest.

`parseToml` reads a TOML document, checks its schema, decodes it and then checks what its
sections say about each other.  The TOML parser and the time zone database are not part of
the program; they are the fields of `Libraries`.

* `ApplicationManifest` and the records of its sections;
* `decode` — the derived decoder;
* `Cron.valid` — the five-field schedules;
* `Cross` — the checks across sections, `Cross.hasCycle` among them;
* `parseToml` — the whole validation.
-/
import BlobYard.Core.ManifestSchema
import BlobYard.Lib.Decimal
import BlobYard.Lib.GraphSearch

namespace BlobYard

namespace Manifest

/-! ### The sections -/

/-- The runtimes an application may ask for. -/
inductive ApplicationRuntime where
  | blobyardJs1
  deriving DecidableEq

/-- The `application` section. -/
structure ManifestApplication where
  name : String
  runtime : ApplicationRuntime
  deriving DecidableEq

/-- The `frontend` section. -/
structure ManifestFrontend where
  directory : String
  spaFallback : Option Bool
  cleanUrls : Option Bool
  deriving DecidableEq

/-- A role of `auth.roles`, with its parents and its own permissions. -/
structure ManifestRole where
  inherits : Option (List String)
  permissions : Option (List String)
  deriving DecidableEq

/-- The roles are in the order of their names. -/
structure ManifestAuth where
  defaultRole : Option String
  roles : Option (List (String × ManifestRole))
  deriving DecidableEq

/-- The `database` section. -/
structure ManifestDatabase where
  migrations : String
  deriving DecidableEq

/-- Whether the objects of a bucket may be read without a grant. -/
inductive BucketVisibility where
  | «private»
  | publicRead
  deriving DecidableEq

/-- One entry of `buckets`. -/
structure Bucket where
  name : String
  visibility : Option BucketVisibility
  maxObjectSize : Option String
  deriving DecidableEq

/-- What a function is called by. -/
inductive FunctionType where
  | rpc
  | http
  | webhook
  | event
  | scheduled
  | queue
  deriving DecidableEq

/-- What a function may do with the database. -/
inductive DatabaseAccess where
  | none
  | read
  | readWrite
  deriving DecidableEq

/-- One entry of `functions`, with all that it is granted. -/
structure Function where
  name : String
  entry : String
  functionType : FunctionType
  permissions : Option (List String)
  database : Option DatabaseAccess
  buckets : Option (List String)
  secrets : Option (List String)
  network : Option (List String)
  email : Option Bool
  event : Option String
  queue : Option String
  deriving DecidableEq

/-- How the pause between two attempts grows. -/
inductive Backoff where
  | fixed
  | exponential
  deriving DecidableEq

/-- How often a job is tried again. -/
structure Retry where
  maxAttempts : Option ℕ
  backoff : Option Backoff
  deriving DecidableEq

/-- One entry of `jobs`: a function and when it runs. -/
structure Job where
  name : String
  function : String
  schedule : String
  timezone : String
  retry : Option Retry
  deriving DecidableEq

/-- The methods a route may have. -/
inductive HttpMethod where
  | get
  | head
  | post
  | put
  | patch
  | delete
  deriving DecidableEq

/-- Whether a route asks for a session. -/
inductive RouteAuth where
  | required
  | «public»
  deriving DecidableEq

/-- One entry of `routes`: a path and the function that answers it. -/
structure Route where
  path : String
  method : HttpMethod
  function : String
  auth : Option RouteAuth
  deriving DecidableEq

/-- The sizes of functions. -/
inductive FunctionClass where
  | standard
  deriving DecidableEq

/-- The `limits` section. -/
structure Limits where
  functionClass : Option FunctionClass
  functionTimeout : Option String
  concurrency : Option ℕ
  deriving DecidableEq

/-- The `health` section: the function that is asked, and how long it may take. -/
structure Health where
  function : String
  timeout : Option String
  deriving DecidableEq

/-- A manifest, section by section; `application` is the only one it must have. -/
structure ApplicationManifest where
  schemaVersion : ℕ
  application : ManifestApplication
  frontend : Option ManifestFrontend
  auth : Option ManifestAuth
  database : Option ManifestDatabase
  buckets : Option (List Bucket)
  functions : Option (List Function)
  jobs : Option (List Job)
  routes : Option (List Route)
  limits : Option Limits
  health : Option Health
  deriving DecidableEq

/-! ### The derived decoder -/

/-- A decoder of values of one type. -/
abbrev Decoder (α : Type) := TomlValue → Option α

/-- A TOML string. -/
def text : Decoder String
  | .string text => some text
  | _ => none

/-- A TOML boolean. -/
def flag : Decoder Bool
  | .boolean value => some value
  | _ => none

/-- An integer of type `u8`. -/
def byte : Decoder ℕ
  | .integer number => if 0 ≤ number ∧ number ≤ 255 then some number.toNat else none
  | _ => none

/-- A variant by its name. -/
def variant {α : Type} (names : List (String × α)) : Decoder α
  | .string text => names.lookup text
  | _ => none

/-- The results of all, if there is one for each. -/
def collect {α β : Type} (f : α → Option β) : List α → Option (List β)
  | [] => some []
  | a :: rest =>
    match f a, collect f rest with
    | some b, some bs => some (b :: bs)
    | _, _ => none

/-- A TOML array, decoded item by item. -/
def list {α : Type} (decoder : Decoder α) : Decoder (List α)
  | .array items => collect decoder items
  | _ => none

/-- One entry of a map. -/
def entry {α : Type} (decoder : Decoder α) (entry : String × TomlValue) : Option (String × α) :=
  (decoder entry.2).map fun value => (entry.1, value)

/-- A TOML table of named values, in the order of the document. -/
def map {α : Type} (decoder : Decoder α) : Decoder (List (String × α))
  | .table entries => collect (entry decoder) entries
  | _ => none

/-- A record whose unknown fields are denied. -/
def record {α : Type} (fields : List String) (decoder : TomlTable → Option α) : Decoder α
  | .table entries =>
    if (entries.all fun entry => fields.contains entry.1) then decoder entries else none
  | _ => none

/-- A field that has to be there. -/
def field {α : Type} (entries : TomlTable) (key : String) (decoder : Decoder α) : Option α :=
  (entries.lookup key).bind decoder

/-- A field of type `Option`. -/
def optional {α : Type} (entries : TomlTable) (key : String) (decoder : Decoder α) :
    Option (Option α) :=
  match entries.lookup key with
  | some value => (decoder value).map some
  | none => some none

/-- `application` as serde reads it. -/
def decodeApplication : Decoder ManifestApplication :=
  record ["name", "runtime"] fun entries => do
    let name ← field entries "name" text
    let runtime ← field entries "runtime" (variant [("blobyard-js-1", .blobyardJs1)])
    some { name, runtime }

/-- `frontend` as serde reads it. -/
def decodeFrontend : Decoder ManifestFrontend :=
  record ["directory", "spa_fallback", "clean_urls"] fun entries => do
    let directory ← field entries "directory" text
    let spaFallback ← optional entries "spa_fallback" flag
    let cleanUrls ← optional entries "clean_urls" flag
    some { directory, spaFallback, cleanUrls }

/-- One role as serde reads it. -/
def decodeRole : Decoder ManifestRole :=
  record ["inherits", "permissions"] fun entries => do
    let inherits ← optional entries "inherits" (list text)
    let permissions ← optional entries "permissions" (list text)
    some { inherits, permissions }

/-- `auth` as serde reads it. -/
def decodeAuth : Decoder ManifestAuth :=
  record ["default_role", "roles"] fun entries => do
    let defaultRole ← optional entries "default_role" text
    let roles ← optional entries "roles" (map decodeRole)
    some { defaultRole, roles }

/-- `database` as serde reads it. -/
def decodeDatabase : Decoder ManifestDatabase :=
  record ["migrations"] fun entries => do
    let migrations ← field entries "migrations" text
    some { migrations }

/-- One bucket as serde reads it. -/
def decodeBucket : Decoder Bucket :=
  record ["name", "visibility", "max_object_size"] fun entries => do
    let name ← field entries "name" text
    let visibility ← optional entries "visibility"
      (variant [("private", .private), ("public-read", .publicRead)])
    let maxObjectSize ← optional entries "max_object_size" text
    some { name, visibility, maxObjectSize }

/-- The names of the types of functions. -/
def functionTypes : List (String × FunctionType) :=
  [("rpc", .rpc), ("http", .http), ("webhook", .webhook), ("event", .event),
    ("scheduled", .scheduled), ("queue", .queue)]

/-- One function as serde reads it. -/
def decodeFunction : Decoder Function :=
  record ["name", "entry", "type", "permissions", "database", "buckets", "secrets", "network",
      "email", "event", "queue"] fun entries => do
    let name ← field entries "name" text
    let entry ← field entries "entry" text
    let functionType ← field entries "type" (variant functionTypes)
    let permissions ← optional entries "permissions" (list text)
    let database ← optional entries "database"
      (variant [("none", .none), ("read", .read), ("read-write", .readWrite)])
    let buckets ← optional entries "buckets" (list text)
    let secrets ← optional entries "secrets" (list text)
    let network ← optional entries "network" (list text)
    let email ← optional entries "email" flag
    let event ← optional entries "event" text
    let queue ← optional entries "queue" text
    some { name, entry, functionType, permissions, database, buckets, secrets, network, email,
           event, queue }

/-- `retry` of a job as serde reads it. -/
def decodeRetry : Decoder Retry :=
  record ["max_attempts", "backoff"] fun entries => do
    let maxAttempts ← optional entries "max_attempts" byte
    let backoff ← optional entries "backoff"
      (variant [("fixed", .fixed), ("exponential", .exponential)])
    some { maxAttempts, backoff }

/-- One job as serde reads it. -/
def decodeJob : Decoder Job :=
  record ["name", "function", "schedule", "timezone", "retry"] fun entries => do
    let name ← field entries "name" text
    let function ← field entries "function" text
    let schedule ← field entries "schedule" text
    let timezone ← field entries "timezone" text
    let retry ← optional entries "retry" decodeRetry
    some { name, function, schedule, timezone, retry }

/-- The names of the methods. -/
def httpMethods : List (String × HttpMethod) :=
  [("GET", .get), ("HEAD", .head), ("POST", .post), ("PUT", .put), ("PATCH", .patch),
    ("DELETE", .delete)]

/-- One route as serde reads it. -/
def decodeRoute : Decoder Route :=
  record ["path", "method", "function", "auth"] fun entries => do
    let path ← field entries "path" text
    let method ← field entries "method" (variant httpMethods)
    let function ← field entries "function" text
    let auth ← optional entries "auth"
      (variant [("required", .required), ("public", .public)])
    some { path, method, function, auth }

/-- `limits` as serde reads it. -/
def decodeLimits : Decoder Limits :=
  record ["function_class", "function_timeout", "concurrency"] fun entries => do
    let functionClass ← optional entries "function_class" (variant [("standard", .standard)])
    let functionTimeout ← optional entries "function_timeout" text
    let concurrency ← optional entries "concurrency" byte
    some { functionClass, functionTimeout, concurrency }

/-- `health` as serde reads it. -/
def decodeHealth : Decoder Health :=
  record ["function", "timeout"] fun entries => do
    let function ← field entries "function" text
    let timeout ← optional entries "timeout" text
    some { function, timeout }

/-- The whole document; a key that is not listed is an error. -/
def decode : Decoder ApplicationManifest :=
  record ["schema_version", "application", "frontend", "auth", "database", "buckets",
      "functions", "jobs", "routes", "limits", "health"] fun entries => do
    let schemaVersion ← field entries "schema_version" byte
    let application ← field entries "application" decodeApplication
    let frontend ← optional entries "frontend" decodeFrontend
    let auth ← optional entries "auth" decodeAuth
    let database ← optional entries "database" decodeDatabase
    let buckets ← optional entries "buckets" (list decodeBucket)
    let functions ← optional entries "functions" (list decodeFunction)
    let jobs ← optional entries "jobs" (list decodeJob)
    let routes ← optional entries "routes" (list decodeRoute)
    let limits ← optional entries "limits" decodeLimits
    let health ← optional entries "health" decodeHealth
    some { schemaVersion, application, frontend, auth, database, buckets, functions, jobs,
           routes, limits, health }

/-! ### Schedules -/

namespace Cron

/-- One field of a schedule with its bounds and names. -/
structure Field where
  source : List Char
  minimum : ℕ
  maximum : ℕ
  names : List (List Char)

/-- A step is a positive number of two bytes. -/
def validStep (value : List Char) : Bool := (parseUnsigned 65535 value).any fun step => 0 < step

/-- `eq_ignore_ascii_case`. -/
def equalIgnoringCase (a b : List Char) : Bool := a.map Char.toLower == b.map Char.toLower

/-- A number within the bounds, or the number of a name. -/
def Field.value (field : Field) (value : List Char) : Option ℕ :=
  ((parseUnsigned 255 value).filter fun number =>
      field.minimum ≤ number && number ≤ field.maximum).or
    (((field.names.findIdx? (equalIgnoringCase value)).map (· + field.minimum)).filter (· ≤ 255))

/-- A value, or two that are in order. -/
def Field.validRange (field : Field) (base : List Char) : Bool :=
  match base.splitOn '-' with
  | [start] => (field.value start).isSome
  | [start, stop] =>
    (field.value start).any fun first => (field.value stop).any fun last => first ≤ last
  | _ => false

/-- One item between commas: a base, and possibly a step after a slash. -/
def Field.validItem (field : Field) (item : List Char) : Bool :=
  match item.splitOn '/' with
  | [base] => base == ['*'] || field.validRange base
  | [base, step] => validStep step && (base == ['*'] || field.validRange base)
  | _ => false

/-- One of the five fields: items between commas. -/
def Field.valid (field : Field) : Bool :=
  !field.source.isEmpty && (field.source.splitOn ',').all field.validItem

/-- The names of the months, from January. -/
def months : List (List Char) :=
  ["JAN", "FEB", "MAR", "APR", "MAY", "JUN", "JUL", "AUG", "SEP", "OCT", "NOV", "DEC"].map
    String.toList

/-- The names of the days of the week, from Sunday. -/
def weekdays : List (List Char) :=
  ["SUN", "MON", "TUE", "WED", "THU", "FRI", "SAT"].map String.toList

/-- Five fields with single spaces between them. -/
def valid (value : List Char) : Bool :=
  match value.splitOn ' ' with
  | [minute, hour, day, month, weekday] =>
    [⟨minute, 0, 59, []⟩, ⟨hour, 0, 23, []⟩, ⟨day, 1, 31, []⟩, ⟨month, 1, 12, months⟩,
      (⟨weekday, 0, 7, weekdays⟩ : Field)].all Field.valid
  | _ => false

end Cron

/-- The code that the validation calls and that is not part of the program. -/
structure Libraries where
  /-- `toml::from_str`; a failure has a text. -/
  fromStr : String → Except String TomlValue
  /-- The text of the failure of the derived decoder. -/
  decodeError : TomlValue → String
  /-- `TimeZone::get` and then `iana_name`, where both find something. -/
  ianaName : String → Option String

/-! ### The checks across sections -/

namespace Cross

open GraphSearch

/-- The checks of the items of a list that may be left out, each with its index. -/
def eachOf {α : Type} (items : Option (List α)) (check : α → ℕ → List ManifestError) :
    List ManifestError :=
  (items.getD []).zipIdx.flatMap fun (item, index) => check item index

/-- The error of a name that is not declared. -/
def referenced (declared : Bool) (path kind name : String) : List ManifestError :=
  if declared then [] else [⟨path, s!"references undeclared {kind} `{name}`"⟩]

/-- `reference`. -/
def reference (declared : Bool) (path name : String) : List ManifestError :=
  referenced declared path "role" name

/-- The roles that a role inherits directly. -/
def parents (role : ManifestRole) : List String := role.inherits.getD []

/-- The graph of the declared roles and their parents. -/
def inheritance (roles : List (String × ManifestRole)) : NameGraph String where
  nodes := roles.map Prod.fst
  next name := (roles.lookup name).map parents
  mem_nodes := by
    intro name successors h
    obtain ⟨role, hrole, -⟩ := Option.map_eq_some_iff.mp h
    obtain ⟨before, after, heq, -⟩ := List.lookup_eq_some_iff.mp hrole
    rw [heq]
    simp

/-- Whether a search through the ancestors of the role, over a shared set of visited roles, comes
back to it. -/
def hasCycle (roles : List (String × ManifestRole)) (origin : String) : Bool :=
  match roles.lookup origin with
  | none => false
  | some role => (deepSearch (inheritance roles) (· == origin) (parents role) []).1.1

/-- The parents of a role are roles. -/
def inherits (name : String) (role : ManifestRole) (roles : List (String × ManifestRole)) :
    List ManifestError :=
  eachOf role.inherits fun inherited index =>
    reference (roles.lookup inherited).isSome s!"auth.roles.{name}.inherits[{index}]" inherited

/-- One turn of the loop over the declared roles. -/
def roleErrors (roles : List (String × ManifestRole)) (role : String × ManifestRole) :
    List ManifestError :=
  inherits role.1 role.2 roles ++
    if hasCycle roles role.1 then
      [⟨s!"auth.roles.{role.1}.inherits", "inheritance must be acyclic"⟩]
    else []

/-- The declared roles. -/
def declaredRoles (manifest : ApplicationManifest) : List (String × ManifestRole) :=
  (manifest.auth.bind ManifestAuth.roles).getD []

/-- The default role is a role. -/
def defaultRole (manifest : ApplicationManifest) : List ManifestError :=
  match manifest.auth.bind ManifestAuth.defaultRole with
  | some role => reference ((declaredRoles manifest).lookup role).isSome "auth.default_role" role
  | none => []

/-- The permissions that the roles list. -/
def declaredPermissions (manifest : ApplicationManifest) : List String :=
  (declaredRoles manifest).flatMap fun (_, role) => role.permissions.getD []

/-- The permissions of the functions are permissions of roles. -/
def functionPermissions (manifest : ApplicationManifest) : List ManifestError :=
  eachOf manifest.functions fun function functionIndex =>
    eachOf function.permissions fun permission permissionIndex =>
      if (declaredPermissions manifest).contains permission then []
      else [⟨s!"functions[{functionIndex}].permissions[{permissionIndex}]",
        s!"permission `{permission}` is not declared by any auth role"⟩]

/-- `cross_roles::validate`. -/
def roles (manifest : ApplicationManifest) : List ManifestError :=
  defaultRole manifest ++ (declaredRoles manifest).flatMap (roleErrors (declaredRoles manifest)) ++
    functionPermissions manifest

/-- The functions of a name. -/
def functionsNamed (manifest : ApplicationManifest) (name : String) : List Function :=
  (manifest.functions.getD []).filter fun function => function.name == name

/-- The reference to a function of any type. -/
def functionReference (manifest : ApplicationManifest) (path name : String) :
    List ManifestError :=
  referenced (!(functionsNamed manifest name).isEmpty) path "function" name

/-- The function of a job is declared, and one of its name is scheduled. -/
def jobFunction (manifest : ApplicationManifest) (job : Job) (index : ℕ) : List ManifestError :=
  let matching := functionsNamed manifest job.function
  functionReference manifest s!"jobs[{index}].function" job.function ++
    if !matching.isEmpty && !(matching.any fun function => function.functionType == .scheduled) then
      [⟨s!"jobs[{index}].function", "must reference a scheduled function"⟩]
    else []

/-- The functions of jobs, of routes and of the health check. -/
def functionReferences (manifest : ApplicationManifest) : List ManifestError :=
  eachOf manifest.jobs (jobFunction manifest) ++
    (eachOf manifest.routes fun route index =>
      functionReference manifest s!"routes[{index}].function" route.function) ++
    match manifest.health with
    | some health => functionReference manifest "health.function" health.function
    | none => []

/-- The bucket that a grant names. -/
def grantedBucket (grant : String) : String :=
  match splitOnce ':' grant.toList with
  | some (name, _) => String.ofList name
  | none => grant

/-- The bucket of a grant is declared. -/
def bucketReference (manifest : ApplicationManifest) (functionIndex : ℕ) (grant : String)
    (index : ℕ) : List ManifestError :=
  referenced ((manifest.buckets.getD []).any fun bucket => bucket.name == grantedBucket grant)
    s!"functions[{functionIndex}].buckets[{index}]" "bucket" (grantedBucket grant)

/-- The function asks for access to the database. -/
def usesDatabase (function : Function) : Bool :=
  function.database == some .read || function.database == some .readWrite

/-- The buckets and the database that functions use. -/
def resourceReferences (manifest : ApplicationManifest) : List ManifestError :=
  eachOf manifest.functions fun function index =>
    eachOf function.buckets (bucketReference manifest index) ++
      if usesDatabase function && manifest.database.isNone then
        [⟨s!"functions[{index}].database", "database access requires a database section"⟩]
      else []

/-- The trigger that a type of function must name. -/
def requiredTrigger (present : Bool) (index : ℕ) (field : String) : List ManifestError :=
  if present then []
  else [⟨s!"functions[{index}].{field}", s!"is required for a {field} function"⟩]

/-- The trigger that it may not name. -/
def forbiddenTrigger (present : Bool) (index : ℕ) (field : String) : List ManifestError :=
  if present then [⟨s!"functions[{index}].{field}", "is not allowed for this function type"⟩]
  else []

/-- An event function names its event, a queue function its queue, and no other either. -/
def functionTriggers (function : Function) (index : ℕ) : List ManifestError :=
  match function.functionType with
  | .event =>
    requiredTrigger function.event.isSome index "event" ++
      forbiddenTrigger function.queue.isSome index "queue"
  | .queue =>
    requiredTrigger function.queue.isSome index "queue" ++
      forbiddenTrigger function.event.isSome index "event"
  | _ =>
    forbiddenTrigger function.event.isSome index "event" ++
      forbiddenTrigger function.queue.isSome index "queue"

/-- The triggers of all functions. -/
def triggers (manifest : ApplicationManifest) : List ManifestError :=
  eachOf manifest.functions functionTriggers

/-- Whether an earlier route has the method and the path of this one. -/
def routeRepeats (routes : List Route) (route : Route) (index : ℕ) : Bool :=
  (routes.take index).any fun earlier =>
    earlier.method == route.method && earlier.path == route.path

/-- No path is given twice for one method. -/
def routes (manifest : ApplicationManifest) : List ManifestError :=
  eachOf manifest.routes fun route index =>
    if routeRepeats (manifest.routes.getD []) route index then
      [⟨s!"routes[{index}].path", "route path must be unique for its method"⟩]
    else []

/-- The schedule of a job is a cron expression, and its time zone one of the database. -/
def jobSchedule (libraries : Libraries) (job : Job) (index : ℕ) : List ManifestError :=
  (if Cron.valid job.schedule.toList then []
    else [⟨s!"jobs[{index}].schedule", "must be a valid five-field cron expression"⟩]) ++
    if libraries.ianaName job.timezone == some job.timezone then []
    else [⟨s!"jobs[{index}].timezone", "must be a canonical IANA timezone identifier"⟩]

/-- The schedules of all jobs. -/
def schedules (libraries : Libraries) (manifest : ApplicationManifest) : List ManifestError :=
  eachOf manifest.jobs (jobSchedule libraries)

/-- `cross::validate`. -/
def validate (libraries : Libraries) (manifest : ApplicationManifest) : List ManifestError :=
  roles manifest ++ functionReferences manifest ++ resourceReferences manifest ++
    triggers manifest ++ routes manifest ++ schedules libraries manifest

end Cross

/-! ### The validation -/

/-- `ManifestErrors`: every failure that was found. -/
abbrev ManifestErrors := List ManifestError

/-- What is left to do after the schema: decoding, and the references. -/
def parseValidated (libraries : Libraries) (value : TomlValue) :
    Except ManifestErrors ApplicationManifest :=
  match decode value with
  | none => .error [⟨"$", "manifest could not be decoded: " ++ libraries.decodeError value⟩]
  | some manifest =>
    let errors := Cross.validate libraries manifest
    if errors.isEmpty then .ok manifest else .error errors

/-- A manifest from its text, or the errors of the first stage that has any. -/
def parseToml (libraries : Libraries) (source : String) :
    Except ManifestErrors ApplicationManifest :=
  match libraries.fromStr source with
  | .error error => .error [⟨"$", "invalid TOML: " ++ error⟩]
  | .ok value =>
    let errors := ManifestSchema.validate value
    if errors.isEmpty then parseValidated libraries value else .error errors

end Manifest

end BlobYard
