/-
The schema of the application manifest.

A manifest is a TOML document.  Before it is decoded, `validate` walks through the parsed
value and collects every error with the path of its field.  A check is here the list of
errors that the validator of the source would push.

* `TomlValue` — a parsed value; `TomlValue.same` — its equality;
* `table` … `fieldPattern` — the checks of one value or one field;
* `application` … `health` — the checks of the sections, and `validate`.
-/
import BlobYard.Core.ManifestPatterns

namespace BlobYard

/-- `toml::Value`; a date or time is the text it is written as. -/
inductive TomlValue where
  | string (text : String)
  | integer (number : Int)
  | float (number : Float)
  | boolean (value : Bool)
  | datetime (text : String)
  | array (items : List TomlValue)
  | table (entries : List (String × TomlValue))

/-- The entries of a table, each key once, in the order of the keys. -/
abbrev TomlTable := List (String × TomlValue)

namespace TomlValue

mutual

/-- `Value::eq`. -/
def same : TomlValue → TomlValue → Bool
  | .string a, .string b => a == b
  | .integer a, .integer b => a == b
  | .float a, .float b => a == b
  | .boolean a, .boolean b => a == b
  | .datetime a, .datetime b => a == b
  | .array a, .array b => sameItems a b
  | .table a, .table b => sameEntries a b
  | _, _ => false

/-- `same`, item by item. -/
def sameItems : List TomlValue → List TomlValue → Bool
  | [], [] => true
  | a :: as, b :: bs => a.same b && sameItems as bs
  | _, _ => false

/-- `same`, entry by entry. -/
def sameEntries : List (String × TomlValue) → List (String × TomlValue) → Bool
  | [], [] => true
  | (key, a) :: as, (key', b) :: bs => key == key' && a.same b && sameEntries as bs
  | _, _ => false

end

theorem same_string (a b : String) : (string a).same (string b) = (a == b) := by
  rw [same]

end TomlValue

/-- `ManifestError`: a failure at the path of a field. -/
structure ManifestError where
  path : String
  message : String
  deriving DecidableEq

namespace ManifestSchema

/-! ### The validator -/

/-- The path of a key below its section. -/
def join (parent key : String) : String := if parent.isEmpty then key else s!"{parent}.{key}"

/-- `table`, and then `check` of the entries. -/
def table (value : TomlValue) (path expected : String) (check : TomlTable → List ManifestError) :
    List ManifestError :=
  match value with
  | .table entries => check entries
  | _ => [⟨path, s!"must be {expected}"⟩]

/-- `array`, and then `check` of the items. -/
def array (value : TomlValue) (path : String) (check : List TomlValue → List ManifestError) :
    List ManifestError :=
  match value with
  | .array items => check items
  | _ => [⟨path, "must be an array"⟩]

/-- `required`, and then `check` of the value. -/
def required (entries : TomlTable) (parent key : String)
    (check : TomlValue → List ManifestError) : List ManifestError :=
  match entries.lookup key with
  | some value => check value
  | none => [⟨join parent key, "is required"⟩]

/-- `check` of a value that may be left out. -/
def optional (entries : TomlTable) (key : String) (check : TomlValue → List ManifestError) :
    List ManifestError :=
  match entries.lookup key with
  | some value => check value
  | none => []

/-- The errors of the keys that a section does not have. -/
def unknown (entries : TomlTable) (path : String) (allowed : List String) : List ManifestError :=
  ((entries.map Prod.fst).filter fun key => !allowed.contains key).map fun key =>
    ⟨join path key, "unknown field for schema_version 1"⟩

/-- A string that a predicate takes. -/
def pattern (value : TomlValue) (path : String) (predicate : List Char → Bool)
    (expected : String) : List ManifestError :=
  match value with
  | .string text => if predicate text.toList then [] else [⟨path, s!"must be {expected}"⟩]
  | _ => [⟨path, "must be a string"⟩]

/-- A string out of a list. -/
def enumeration (value : TomlValue) (path : String) (allowed : List String) :
    List ManifestError :=
  match value with
  | .string text =>
    if allowed.contains text then []
    else [⟨path, "must be one of: " ++ String.intercalate ", " allowed⟩]
  | _ => [⟨path, "must be a string"⟩]

/-- A boolean. -/
def boolean (value : TomlValue) (path : String) : List ManifestError :=
  match value with
  | .boolean _ => []
  | _ => [⟨path, "must be a boolean"⟩]

/-- A boolean, where the key is there. -/
def optionalBoolean (entries : TomlTable) (path key : String) : List ManifestError :=
  optional entries key fun value => boolean value (join path key)

/-- An integer between two bounds. -/
def integer (value : TomlValue) (path : String) (minimum maximum : Int) : List ManifestError :=
  match value with
  | .integer number =>
    if minimum ≤ number ∧ number ≤ maximum then []
    else [⟨path, s!"must be between {minimum} and {maximum}"⟩]
  | _ => [⟨path, "must be an integer"⟩]

/-- The bound on the length of an array. -/
def maximumItems (items : List TomlValue) (path : String) (maximum : Nat) : List ManifestError :=
  if maximum < items.length then [⟨path, s!"must contain at most {maximum} items"⟩] else []

/-- Whether an item is among those before it. -/
def repeats (items : List TomlValue) (entry : TomlValue × Nat) : Bool :=
  (items.take entry.2).any fun earlier => earlier.same entry.1

/-- The error of every item that stands in the array before. -/
def uniqueItems (items : List TomlValue) (path : String) : List ManifestError :=
  (items.zipIdx.filter (repeats items)).map fun (_, index) =>
    ⟨s!"{path}[{index}]", "must be unique"⟩

/-- The checks of the items, each at its own path. -/
def eachItem (items : List TomlValue) (path : String)
    (check : TomlValue → String → List ManifestError) : List ManifestError :=
  items.zipIdx.flatMap fun (item, index) => check item s!"{path}[{index}]"

/-- An array of different strings that a predicate takes. -/
def stringArray (value : TomlValue) (path : String) (maximum : Nat)
    (predicate : List Char → Bool) (expected : String) : List ManifestError :=
  array value path fun items =>
    maximumItems items path maximum ++ uniqueItems items path ++
      eachItem items path fun item path => pattern item path predicate expected

/-- The bounds on the number of keys of a table. -/
def propertyCount (entries : TomlTable) (path : String) (min max : Nat) : List ManifestError :=
  if min ≤ entries.length ∧ entries.length ≤ max then []
  else [⟨path, s!"must contain between {min} and {max} properties"⟩]

/-- `object`, and then `check` of the entries. -/
def object (value : TomlValue) (path : String) (allowed : List String)
    (check : TomlTable → List ManifestError) : List ManifestError :=
  table value path "an object" fun entries => unknown entries path allowed ++ check entries

/-- A key that must be there, with its predicate. -/
def requiredPattern (entries : TomlTable) (path key : String) (predicate : List Char → Bool)
    (expected : String) : List ManifestError :=
  required entries path key fun value => pattern value s!"{path}.{key}" predicate expected

/-- A key that may be there, with its predicate. -/
def optionalPattern (entries : TomlTable) (path key : String) (predicate : List Char → Bool)
    (expected : String) : List ManifestError :=
  optional entries key fun value => pattern value s!"{path}.{key}" predicate expected

/-- An array that may be there. -/
def optionalStringArray (entries : TomlTable) (path key : String) (maximum : Nat)
    (predicate : List Char → Bool) (expected : String) : List ManifestError :=
  optional entries key fun value =>
    stringArray value s!"{path}.{key}" maximum predicate expected

/-! ### The sections -/

/-- The version of the schema is one. -/
def schemaVersion (root : TomlTable) : List ManifestError :=
  required root "" "schema_version" fun value =>
    match value with
    | .integer number => if number = 1 then [] else [⟨"schema_version", "must equal 1"⟩]
    | _ => [⟨"schema_version", "must be an integer"⟩]

/-- `application`. -/
def application (root : TomlTable) : List ManifestError :=
  required root "" "application" fun value =>
    object value "application" ["name", "runtime"] fun entries =>
      requiredPattern entries "application" "name" Patterns.dnsLabel "a DNS label" ++
      required entries "application" "runtime" fun value =>
        enumeration value "application.runtime" ["blobyard-js-1"]

/-- `frontend`. -/
def frontend (root : TomlTable) : List ManifestError :=
  optional root "frontend" fun value =>
    object value "frontend" ["directory", "spa_fallback", "clean_urls"] fun entries =>
      requiredPattern entries "frontend" "directory" Patterns.relativePath
        "a portable relative path of at most 256 characters" ++
      optionalBoolean entries "frontend" "spa_fallback" ++
      optionalBoolean entries "frontend" "clean_urls"

/-- One role of `auth.roles`. -/
def role (value : TomlValue) (path : String) : List ManifestError :=
  object value path ["inherits", "permissions"] fun entries =>
    optionalStringArray entries path "inherits" 8 Patterns.roleName "a role name" ++
    optionalStringArray entries path "permissions" 64 Patterns.permission
      "a dotted permission of at most 128 characters"

/-- The checks of one declared role. -/
def namedRole (entry : String × TomlValue) : List ManifestError :=
  let path := s!"auth.roles.{entry.1}"
  (if Patterns.roleName entry.1.toList then []
    else [⟨path, "role name must match ^[a-z][a-z0-9-]\x7b0,31\x7d$"⟩]) ++ role entry.2 path

/-- `auth.roles`: the names of the roles and the roles. -/
def roles (value : TomlValue) : List ManifestError :=
  table value "auth.roles" "an object" fun entries =>
    propertyCount entries "auth.roles" 1 32 ++ entries.flatMap namedRole

/-- `auth`. -/
def auth (root : TomlTable) : List ManifestError :=
  optional root "auth" fun value =>
    object value "auth" ["default_role", "roles"] fun entries =>
      optionalPattern entries "auth" "default_role" Patterns.roleName "a role name" ++
      optional entries "roles" roles

/-- `database`. -/
def database (root : TomlTable) : List ManifestError :=
  optional root "database" fun value =>
    object value "database" ["migrations"] fun entries =>
      requiredPattern entries "database" "migrations" Patterns.relativePath
        "a portable relative path of at most 256 characters"

/-- The checks of a list of at most `maximum` items. -/
def section? (root : TomlTable) (key : String) (maximum : Nat)
    (check : TomlValue → String → List ManifestError) : List ManifestError :=
  optional root key fun value =>
    array value key fun items => maximumItems items key maximum ++ eachItem items key check

/-- One item of `buckets`. -/
def bucket (value : TomlValue) (path : String) : List ManifestError :=
  object value path ["name", "visibility", "max_object_size"] fun entries =>
    requiredPattern entries path "name" Patterns.dnsLabel "a DNS label" ++
    (optional entries "visibility" fun value =>
      enumeration value s!"{path}.visibility" ["private", "public-read"]) ++
    optionalPattern entries path "max_object_size" Patterns.byteSize
      "a byte size such as 50MiB with 1-6 nonzero-leading digits"

/-- `buckets`. -/
def buckets (root : TomlTable) : List ManifestError := section? root "buckets" 16 bucket

/-- The keys a function may leave out. -/
def functionOptions (entries : TomlTable) (path : String) : List ManifestError :=
  optionalStringArray entries path "permissions" 16 Patterns.permission
    "a dotted permission of at most 128 characters" ++
  (optional entries "database" fun value =>
    enumeration value s!"{path}.database" ["none", "read", "read-write"]) ++
  optionalStringArray entries path "buckets" 16 Patterns.bucketGrant "a bucket grant" ++
  optionalStringArray entries path "secrets" 16 Patterns.secretName "a secret name" ++
  optionalStringArray entries path "network" 16 Patterns.egressTarget
    "a public DNS target on port 80 or 443" ++
  optionalBoolean entries path "email" ++
  optionalPattern entries path "event" Patterns.permission "an event name" ++
  optionalPattern entries path "queue" Patterns.dnsLabel "a DNS label"

/-- One item of `functions`. -/
def function (value : TomlValue) (path : String) : List ManifestError :=
  object value path ["name", "entry", "type", "permissions", "database", "buckets", "secrets",
      "network", "email", "event", "queue"] fun entries =>
    requiredPattern entries path "name" Patterns.dnsLabel "a DNS label" ++
    requiredPattern entries path "entry" Patterns.modulePath
      "a relative .ts, .js, .mts, or .mjs module path of at most 256 characters" ++
    (required entries path "type" fun value =>
      enumeration value s!"{path}.type"
        ["rpc", "http", "webhook", "event", "scheduled", "queue"]) ++
    functionOptions entries path

/-- `functions`. -/
def functions (root : TomlTable) : List ManifestError := section? root "functions" 64 function

/-- `retry` of a job. -/
def retry (value : TomlValue) (path : String) : List ManifestError :=
  object value path ["max_attempts", "backoff"] fun entries =>
    (optional entries "max_attempts" fun value => integer value s!"{path}.max_attempts" 1 10) ++
    optional entries "backoff" fun value =>
      enumeration value s!"{path}.backoff" ["fixed", "exponential"]

/-- One item of `jobs`. -/
def job (value : TomlValue) (path : String) : List ManifestError :=
  object value path ["name", "function", "schedule", "timezone", "retry"] fun entries =>
    requiredPattern entries path "name" Patterns.dnsLabel "a DNS label" ++
    requiredPattern entries path "function" Patterns.dnsLabel "a DNS label" ++
    requiredPattern entries path "schedule" Patterns.cronShape
      "exactly five space-separated cron fields of at most 64 characters" ++
    requiredPattern entries path "timezone" Patterns.timezoneShape
      "UTC or an IANA-shaped timezone of at most 64 characters" ++
    optional entries "retry" fun value => retry value s!"{path}.retry"

/-- `jobs`. -/
def jobs (root : TomlTable) : List ManifestError := section? root "jobs" 32 job

/-- One item of `routes`. -/
def route (value : TomlValue) (path : String) : List ManifestError :=
  object value path ["path", "method", "function", "auth"] fun entries =>
    requiredPattern entries path "path" Patterns.routePath
      "an absolute normalized route path of at most 256 characters" ++
    (required entries path "method" fun value =>
      enumeration value s!"{path}.method" ["GET", "HEAD", "POST", "PUT", "PATCH", "DELETE"]) ++
    requiredPattern entries path "function" Patterns.dnsLabel "a DNS label" ++
    optional entries "auth" fun value =>
      enumeration value s!"{path}.auth" ["required", "public"]

/-- `routes`. -/
def routes (root : TomlTable) : List ManifestError := section? root "routes" 64 route

/-- `limits`. -/
def limits (root : TomlTable) : List ManifestError :=
  optional root "limits" fun value =>
    object value "limits" ["function_class", "function_timeout", "concurrency"] fun entries =>
      (optional entries "function_class" fun value =>
        enumeration value "limits.function_class" ["standard"]) ++
      optionalPattern entries "limits" "function_timeout" Patterns.duration
        "a duration with 1-4 nonzero-leading digits and ms, s, or m" ++
      optional entries "concurrency" fun value => integer value "limits.concurrency" 1 100

/-- `health`. -/
def health (root : TomlTable) : List ManifestError :=
  optional root "health" fun value =>
    object value "health" ["function", "timeout"] fun entries =>
      requiredPattern entries "health" "function" Patterns.dnsLabel "a DNS label" ++
      optionalPattern entries "health" "timeout" Patterns.duration
        "a duration with 1-4 nonzero-leading digits and ms, s, or m"

/-- Every error of the value, in the order of the sections. -/
def validate (value : TomlValue) : List ManifestError :=
  table value "$" "an object" fun root =>
    unknown root "" ["schema_version", "application", "frontend", "auth", "database", "buckets",
      "functions", "jobs", "routes", "limits", "health"] ++
    schemaVersion root ++ application root ++ frontend root ++ auth root ++ database root ++
    buckets root ++ functions root ++ jobs root ++ routes root ++ limits root ++ health root

/-! ### Values without errors -/

section NoErrors

variable {value : TomlValue} {entries : TomlTable} {path key expected : String}
  {predicate : List Char → Bool}

theorem table_eq_nil {check : TomlTable → List ManifestError} :
    table value path expected check = [] ↔
      ∃ entries, value = .table entries ∧ check entries = [] := by
  cases value <;> simp [table]

theorem array_eq_nil {check : List TomlValue → List ManifestError} :
    array value path check = [] ↔ ∃ items, value = .array items ∧ check items = [] := by
  cases value <;> simp [array]

theorem optional_eq_nil {check : TomlValue → List ManifestError} :
    optional entries key check = [] ↔
      ∀ value, entries.lookup key = some value → check value = [] := by
  unfold optional
  cases entries.lookup key <;> simp

theorem object_eq_nil {allowed : List String} {check : TomlTable → List ManifestError} :
    object value path allowed check = [] ↔
      ∃ entries, value = .table entries ∧ unknown entries path allowed = [] ∧
        check entries = [] := by
  simp only [object, table_eq_nil, List.append_eq_nil_iff]

theorem pattern_eq_nil :
    pattern value path predicate expected = [] ↔
      ∃ text, value = .string text ∧ predicate text.toList = true := by
  cases value <;> simp [pattern]

theorem eachItem_eq_nil {items : List TomlValue} {check : TomlValue → String → List ManifestError} :
    eachItem items path check = [] ↔
      ∀ (i : ℕ) (h : i < items.length), check items[i] s!"{path}[{i}]" = [] := by
  simp only [eachItem, List.flatMap_eq_nil_iff, Prod.forall, List.mk_mem_zipIdx_iff_getElem?]
  constructor
  · intro h i hi
    exact h _ i (List.getElem?_eq_getElem hi)
  · intro h item i hitem
    obtain ⟨hi, rfl⟩ := List.getElem?_eq_some_iff.mp hitem
    exact h i hi

/-- Every item is a text that the predicate takes. -/
theorem texts_eq_nil {items : List TomlValue} :
    (eachItem items path fun item path => pattern item path predicate expected) = [] ↔
      ∃ texts : List String, items = texts.map .string ∧
        ∀ text ∈ texts, predicate text.toList = true := by
  simp only [eachItem_eq_nil, pattern_eq_nil]
  constructor
  · intro h
    choose text htext using h
    refine ⟨List.ofFn fun i : Fin items.length => text i i.isLt, ?_, ?_⟩
    · refine List.ext_getElem (by simp) fun i hi _ => ?_
      simp [(htext i hi).1]
    · intro t ht
      obtain ⟨i, rfl⟩ := List.mem_ofFn.mp ht
      exact (htext i i.isLt).2
  · rintro ⟨texts, rfl, htexts⟩ i hi
    have hi' : i < texts.length := by simpa using hi
    exact ⟨texts[i], by simp, htexts _ (List.getElem_mem hi')⟩

theorem uniqueItems_eq_nil {texts : List String} :
    uniqueItems (texts.map .string) path = [] ↔ texts.Nodup := by
  have hrepeats : ∀ entry : TomlValue × ℕ, repeats (texts.map .string) entry = true ↔
      ∃ earlier ∈ texts.take entry.2, (TomlValue.string earlier).same entry.1 = true := by
    intro entry
    simp [repeats, ← List.map_take]
  simp only [uniqueItems, List.map_eq_nil_iff, List.filter_eq_nil_iff, hrepeats, Prod.forall,
    List.mk_mem_zipIdx_iff_getElem?, List.Nodup, List.pairwise_iff_getElem]
  constructor
  · intro h i j hi hj hij heq
    refine h (.string texts[j]) j (by simp [hj]) ⟨texts[i], ?_, ?_⟩
    · exact List.mem_take_iff_getElem.mpr ⟨i, by omega, rfl⟩
    · simp [TomlValue.same_string, heq]
  · intro h item j hitem
    obtain ⟨hj, rfl⟩ := List.getElem?_eq_some_iff.mp hitem
    rintro ⟨earlier, hearlier, hsame⟩
    obtain ⟨i, hi, rfl⟩ := List.mem_take_iff_getElem.mp hearlier
    rw [List.getElem_map, TomlValue.same_string, beq_iff_eq] at hsame
    exact h i j (by omega) (by simpa using hj) (by omega) hsame

/-- An array without errors lists texts that the predicate takes, each once and not too many. -/
theorem stringArray_eq_nil {maximum : ℕ} :
    stringArray value path maximum predicate expected = [] ↔
      ∃ texts : List String, value = .array (texts.map .string) ∧ texts.length ≤ maximum ∧
        texts.Nodup ∧ ∀ text ∈ texts, predicate text.toList = true := by
  simp only [stringArray, array_eq_nil, List.append_eq_nil_iff, texts_eq_nil]
  constructor
  · rintro ⟨items, rfl, ⟨hmaximum, hunique⟩, texts, rfl, htexts⟩
    refine ⟨texts, rfl, ?_, uniqueItems_eq_nil.mp hunique, htexts⟩
    simpa [maximumItems] using hmaximum
  · rintro ⟨texts, rfl, hlength, hnodup, htexts⟩
    refine ⟨_, rfl, ⟨?_, uniqueItems_eq_nil.mpr hnodup⟩, texts, rfl, htexts⟩
    simpa [maximumItems] using hlength

theorem propertyCount_eq_nil {min max : ℕ} :
    propertyCount entries path min max = [] ↔ min ≤ entries.length ∧ entries.length ≤ max := by
  unfold propertyCount
  split <;> simp_all

end NoErrors

end ManifestSchema

end BlobYard
