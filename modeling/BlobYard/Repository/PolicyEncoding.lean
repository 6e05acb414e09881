/-
The stored texts of an application policy.

The graph of the roles and its closure are stored as JSON.  The encoder writes the texts itself,
entry by entry; the decoder reads them with the derived readers of the records.

* `encodeGraph`, `encodeEffective` — the encoder;
* `graphFromJson?`, `effectiveFromJson?` — the decoder, behind a reader of JSON texts;
* `graphText_eq`, `effectiveText_eq` — the encoder writes the texts of JSON values;
* `graphFromJson?_graphJson`, `effectiveFromJson?_effectiveJson` — and the decoder reads these
  values back.
-/
import BlobYard.Contract.YardRecords
import BlobYard.Lib.Json
import BlobYard.Lib.Order

namespace BlobYard

open Json

/-! ### The encoder -/

section Encoder

variable [JsonWriter]

/-- A name that the templates of the encoder hold in quotes. -/
def nameLiteral (name : String) : List Char := '"' :: name.toList ++ ['"']

/-- `push_separator`, and the entry behind the separator. -/
def pushSeparated (entries entry : List Char) : List Char :=
  (if entries = [] then entries else entries ++ [',']) ++ entry

def stringArray (values : List String) : List Char :=
  '[' :: (values.map jsonQuoted).foldl pushSeparated [] ++ [']']

def stringMap (values : List (String × List String)) : List Char :=
  '\x7b' :: (values.map fun entry => jsonQuoted entry.1 ++ ':' :: stringArray entry.2).foldl
    pushSeparated [] ++ ['\x7d']

/-- What `encode_graph` writes of a role. -/
def encodeRole (role : String × ApplicationRoleDefinition) : List Char :=
  jsonQuoted role.1 ++ ':' :: '\x7b' :: nameLiteral "inherits" ++
    ':' :: stringArray role.2.inherits ++ ',' :: nameLiteral "permissions" ++
    ':' :: stringArray role.2.permissions ++ ['\x7d']

/-- The characters of `encode_graph`. -/
def graphText (value : ApplicationPolicyGraph) : List Char :=
  let defaultRole := value.defaultRole.elim ['n', 'u', 'l', 'l'] jsonQuoted
  let roles := (value.roles.map encodeRole).foldl pushSeparated []
  '\x7b' :: nameLiteral "defaultRole" ++ ':' :: defaultRole ++ ',' :: nameLiteral "roles" ++
    ':' :: '\x7b' :: roles ++ ['\x7d', '\x7d']

def encodeGraph (value : ApplicationPolicyGraph) : String := String.ofList (graphText value)

/-- The characters of `encode_effective`. -/
def effectiveText (value : EffectiveApplicationPolicy) : List Char :=
  '\x7b' :: nameLiteral "effectiveRoles" ++ ':' :: stringMap value.effectiveRoles ++
    ',' :: nameLiteral "effectivePermissions" ++ ':' :: stringMap value.effectivePermissions ++
    ['\x7d']

def encodeEffective (value : EffectiveApplicationPolicy) : String :=
  String.ofList (effectiveText value)

end Encoder

/-! ### The decoder -/

def roleFromJson? (json : Json) : Option ApplicationRoleDefinition := do
  let fields ← json.record? ["inherits", "permissions"]
  let inherits ← required? texts? "inherits" fields
  let permissions ← required? texts? "permissions" fields
  some { inherits, permissions }

def graphFromJson? (json : Json) : Option ApplicationPolicyGraph := do
  let fields ← json.record? ["defaultRole", "roles"]
  let defaultRole ← (fields.lookup "defaultRole").elim (some none) (optional? text?)
  let roles ← required? (map? some roleFromJson?) "roles" fields
  some { defaultRole, roles }

def effectiveFromJson? (json : Json) : Option EffectiveApplicationPolicy := do
  let fields ← json.record? ["effectiveRoles", "effectivePermissions"]
  let effectiveRoles ← required? (map? some texts?) "effectiveRoles" fields
  let effectivePermissions ← required? (map? some texts?) "effectivePermissions" fields
  some { effectiveRoles, effectivePermissions }

/-! ### The values that the encoder writes -/

def textsJson (values : List String) : Json := .array (values.map .string)

def roleJson (role : ApplicationRoleDefinition) : Json :=
  .object [("inherits", textsJson role.inherits), ("permissions", textsJson role.permissions)]

def graphJson (value : ApplicationPolicyGraph) : Json :=
  .object [("defaultRole", value.defaultRole.elim .null .string),
    ("roles", .object (value.roles.map fun role => (role.1, roleJson role.2)))]

def mapJson (values : List (String × List String)) : Json :=
  .object (values.map fun entry => (entry.1, textsJson entry.2))

def effectiveJson (value : EffectiveApplicationPolicy) : Json :=
  .object [("effectiveRoles", mapJson value.effectiveRoles),
    ("effectivePermissions", mapJson value.effectivePermissions)]

/-- Entries that are not empty get commas between them. -/
theorem foldl_pushSeparated {entries : List (List Char)} (h : ∀ entry ∈ entries, entry ≠ []) :
    entries.foldl pushSeparated [] = [','].intercalate entries := by
  have hrest : ∀ (rest : List (List Char)) (first : List Char), first ≠ [] →
      (∀ entry ∈ rest, entry ≠ []) →
      rest.foldl pushSeparated first = [','].intercalate (first :: rest) := by
    intro rest
    induction rest with
    | nil => exact fun first _ _ => (List.intercalate_singleton ..).symm
    | cons entry rest ih =>
      intro first hfirst hall
      have hentry := List.forall_mem_cons.mp hall
      have hpush : pushSeparated first entry = first ++ ',' :: entry := by
        simp [pushSeparated, hfirst]
      rw [List.foldl_cons, hpush, ih _ (by simp) hentry.2]
      cases rest with
      | nil => simp
      | cons next rest => simp [List.intercalate_cons_cons]
  cases entries with
  | nil => rfl
  | cons first rest =>
    have hall := List.forall_mem_cons.mp h
    rw [List.foldl_cons]
    exact hrest rest first hall.1 hall.2

section Texts

variable [JsonWriter]

theorem jsonQuoted_ne_nil (value : String) : jsonQuoted value ≠ [] := by
  obtain ⟨rest, hquoted⟩ := jsonQuoted_cons value
  rw [hquoted]
  exact List.cons_ne_nil _ _

/-- The names of the templates are written as any other text. -/
theorem nameLiteral_eq {name : String}
    (h : ∀ c ∈ name.toList, 32 ≤ c.toNat ∧ c.toNat < 127 ∧ c ≠ '"' ∧ c ≠ '\\') :
    nameLiteral name = jsonQuoted name :=
  (jsonQuoted_plain name h).symm

theorem stringArray_eq (values : List String) :
    stringArray values = (textsJson values).compact := by
  have hentries : ∀ entry ∈ values.map jsonQuoted, entry ≠ [] := by
    intro entry hentry
    obtain ⟨value, -, rfl⟩ := List.mem_map.mp hentry
    exact jsonQuoted_ne_nil value
  rw [stringArray, foldl_pushSeparated hentries, textsJson, compact, compactValues_eq, List.map_map]
  rfl

theorem stringMap_eq (values : List (String × List String)) :
    stringMap values = (mapJson values).compact := by
  have hentries : ∀ entry ∈ values.map fun entry =>
      jsonQuoted entry.1 ++ ':' :: stringArray entry.2, entry ≠ [] := by
    intro entry hentry
    obtain ⟨value, -, rfl⟩ := List.mem_map.mp hentry
    exact List.append_ne_nil_of_right_ne_nil _ (List.cons_ne_nil _ _)
  rw [stringMap, foldl_pushSeparated hentries, mapJson, compact, compactFields_eq, List.map_map]
  simp only [stringArray_eq]
  rfl

theorem encodeRole_eq (role : String × ApplicationRoleDefinition) :
    encodeRole role = compactField (role.1, roleJson role.2) := by
  have hinherits : nameLiteral "inherits" = jsonQuoted "inherits" := nameLiteral_eq (by decide)
  have hpermissions : nameLiteral "permissions" = jsonQuoted "permissions" :=
    nameLiteral_eq (by decide)
  simp only [encodeRole, hinherits, hpermissions, compactField, roleJson, compact, compactFields,
    stringArray_eq, List.append_assoc, List.cons_append]

/-- The graph is written as a JSON value. -/
theorem graphText_eq (value : ApplicationPolicyGraph) :
    graphText value = (graphJson value).compact := by
  have hentries : ∀ entry ∈ value.roles.map encodeRole, entry ≠ [] := by
    intro entry hentry
    obtain ⟨role, -, rfl⟩ := List.mem_map.mp hentry
    rw [encodeRole_eq]
    exact List.append_ne_nil_of_right_ne_nil _ (List.cons_ne_nil _ _)
  have hroles : (value.roles.map encodeRole).foldl pushSeparated [] =
      compactFields (value.roles.map fun role => (role.1, roleJson role.2)) := by
    rw [foldl_pushSeparated hentries, compactFields_eq, List.map_map]
    exact congrArg _ (List.map_congr_left fun role _ => encodeRole_eq role)
  have hdefault : value.defaultRole.elim ['n', 'u', 'l', 'l'] jsonQuoted =
      (value.defaultRole.elim Json.null Json.string).compact := by
    cases value.defaultRole <;> rfl
  have hdefaultRole : nameLiteral "defaultRole" = jsonQuoted "defaultRole" :=
    nameLiteral_eq (by decide)
  have hrolesName : nameLiteral "roles" = jsonQuoted "roles" := nameLiteral_eq (by decide)
  simp only [graphText, hdefaultRole, hrolesName, graphJson, compact, compactFields, hroles,
    hdefault, List.append_assoc, List.cons_append, List.nil_append]

/-- The closure is written as a JSON value. -/
theorem effectiveText_eq (value : EffectiveApplicationPolicy) :
    effectiveText value = (effectiveJson value).compact := by
  have hroles : nameLiteral "effectiveRoles" = jsonQuoted "effectiveRoles" :=
    nameLiteral_eq (by decide)
  have hpermissions : nameLiteral "effectivePermissions" = jsonQuoted "effectivePermissions" :=
    nameLiteral_eq (by decide)
  simp only [effectiveText, hroles, hpermissions, effectiveJson, compact, compactFields,
    stringMap_eq, List.append_assoc, List.cons_append]

end Texts

/-! ### The values are read back -/

theorem texts?_textsJson (values : List String) : texts? (textsJson values) = some values :=
  texts?_array values

theorem roleFromJson?_roleJson (role : ApplicationRoleDefinition) :
    roleFromJson? (roleJson role) = some role := by
  have hrecord : (roleJson role).record? ["inherits", "permissions"] =
      some [("inherits", textsJson role.inherits), ("permissions", textsJson role.permissions)] :=
    by
    rw [roleJson, record?, if_pos]
    simp
  rw [roleFromJson?, hrecord]
  show (texts? (textsJson role.inherits)).bind _ = _
  rw [texts?_textsJson]
  show (texts? (textsJson role.permissions)).bind _ = _
  rw [texts?_textsJson]
  rfl

theorem map?_mapJson {values : List (String × List String)} (h : Ordered values) :
    map? some texts? (mapJson values) = some values :=
  @map?_object _ _ _ some id texts? textsJson _ _ (fun _ _ => rfl) (fun _ _ => texts?_textsJson _)
    h (List.Perm.refl _)

/-- A graph is read back, its roles being in the order of their names. -/
theorem graphFromJson?_graphJson {value : ApplicationPolicyGraph} (h : Ordered value.roles) :
    graphFromJson? (graphJson value) = some value := by
  have hrecord : (graphJson value).record? ["defaultRole", "roles"] =
      some [("defaultRole", value.defaultRole.elim .null .string),
        ("roles", .object (value.roles.map fun role => (role.1, roleJson role.2)))] := by
    rw [graphJson, record?, if_pos]
    simp
  have hroles : map? some roleFromJson?
      (.object (value.roles.map fun role => (role.1, roleJson role.2))) =
      some value.roles :=
    @map?_object _ _ _ some id roleFromJson? roleJson _ _ (fun _ _ => rfl)
      (fun _ _ => roleFromJson?_roleJson _) h (List.Perm.refl _)
  have hdefault : optional? text? (value.defaultRole.elim Json.null Json.string) =
      some value.defaultRole := by
    cases value.defaultRole <;> rfl
  rw [graphFromJson?, hrecord]
  show (optional? text? (value.defaultRole.elim Json.null Json.string)).bind _ = _
  rw [hdefault]
  show (map? some roleFromJson? (.object _)).bind _ = _
  rw [hroles]
  rfl

theorem effectiveFromJson?_effectiveJson {value : EffectiveApplicationPolicy}
    (hroles : Ordered value.effectiveRoles) (hpermissions : Ordered value.effectivePermissions) :
    effectiveFromJson? (effectiveJson value) = some value := by
  have hrecord : (effectiveJson value).record? ["effectiveRoles", "effectivePermissions"] =
      some [("effectiveRoles", mapJson value.effectiveRoles),
        ("effectivePermissions", mapJson value.effectivePermissions)] := by
    rw [effectiveJson, record?, if_pos]
    simp
  rw [effectiveFromJson?, hrecord]
  show (map? some texts? (mapJson value.effectiveRoles)).bind _ = _
  rw [map?_mapJson hroles]
  show (map? some texts? (mapJson value.effectivePermissions)).bind _ = _
  rw [map?_mapJson hpermissions]
  rfl

/-! ### The texts are read back -/

theorem depth_textsJson (values : List String) : (textsJson values).depth ≤ 1 := by
  rw [textsJson, depth]
  refine Nat.succ_le_succ (depthValues_le fun value hvalue => ?_)
  obtain ⟨text, -, rfl⟩ := List.mem_map.mp hvalue
  exact Nat.le_refl 0

theorem depth_roleJson (role : ApplicationRoleDefinition) : (roleJson role).depth ≤ 2 := by
  rw [roleJson, depth]
  refine Nat.succ_le_succ (depthFields_le fun field hfield => ?_)
  rcases List.mem_pair.mp hfield with rfl | rfl
  · exact depth_textsJson _
  · exact depth_textsJson _

theorem depth_graphJson (value : ApplicationPolicyGraph) : (graphJson value).depth ≤ 4 := by
  rw [graphJson, depth]
  refine Nat.succ_le_succ (depthFields_le fun field hfield => ?_)
  rcases List.mem_pair.mp hfield with rfl | rfl
  · cases value.defaultRole <;> exact Nat.zero_le _
  · refine Nat.succ_le_succ (depthFields_le fun field hfield => ?_)
    obtain ⟨role, -, rfl⟩ := List.mem_map.mp hfield
    exact depth_roleJson role.2

theorem depth_mapJson (values : List (String × List String)) : (mapJson values).depth ≤ 2 := by
  rw [mapJson, depth]
  refine Nat.succ_le_succ (depthFields_le fun field hfield => ?_)
  obtain ⟨entry, -, rfl⟩ := List.mem_map.mp hfield
  exact depth_textsJson entry.2

theorem depth_effectiveJson (value : EffectiveApplicationPolicy) :
    (effectiveJson value).depth ≤ 3 := by
  rw [effectiveJson, depth]
  refine Nat.succ_le_succ (depthFields_le fun field hfield => ?_)
  rcases List.mem_pair.mp hfield with rfl | rfl
  · exact depth_mapJson _
  · exact depth_mapJson _

section Reading

variable [JsonReader]

/-- `serde_json::from_str`, for a graph. -/
def decodeGraph (text : String) : Option ApplicationPolicyGraph :=
  (JsonReader.read text.toList).bind graphFromJson?

/-- `serde_json::from_str`, for a closure. -/
def decodeEffective (text : String) : Option EffectiveApplicationPolicy :=
  (JsonReader.read text.toList).bind effectiveFromJson?

theorem decodeGraph_encodeGraph {value : ApplicationPolicyGraph} (h : Ordered value.roles) :
    decodeGraph (encodeGraph value) = some value := by
  have hdepth := depth_graphJson value
  rw [decodeGraph, encodeGraph, String.toList_ofList, graphText_eq,
    JsonReader.read_compact _ (by omega), Option.bind_some, graphFromJson?_graphJson h]

theorem decodeEffective_encodeEffective {value : EffectiveApplicationPolicy}
    (hroles : Ordered value.effectiveRoles) (hpermissions : Ordered value.effectivePermissions) :
    decodeEffective (encodeEffective value) = some value := by
  have hdepth := depth_effectiveJson value
  rw [decodeEffective, encodeEffective, String.toList_ofList, effectiveText_eq,
    JsonReader.read_compact _ (by omega), Option.bind_some,
    effectiveFromJson?_effectiveJson hroles hpermissions]

end Reading

end BlobYard
