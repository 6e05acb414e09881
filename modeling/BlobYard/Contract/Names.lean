/-
Identifiers, names, e-mail addresses and role names.

Beyond the plain text check, the directory of users and groups asks more of its texts:
prefixed hexadecimal identifiers, Unicode-normalised group names, normalised e-mail
addresses and bounded lists of role names.

* `Unicode` — the two Unicode tables the checks consult;
* `ValidPrefixedHexId`, `normalizeGroupName`, `NormalizedEmail` — the checks;
* `ValidRoles`, `canonicalRoles` — a list of role names and its stored order;
* `jsonTexts` — the JSON array of texts that audit events carry.
-/
import BlobYard.Contract.YardRecords
import BlobYard.Lib.Json
import BlobYard.Lib.Order

namespace BlobYard

open Outcome

/-- The Unicode operations of the platform: lower case and canonical composition. -/
class Unicode where
  toLowercase : String → String
  nfc : String → String

/-- The operations on ASCII texts, where every text is composed already. -/
@[reducible] def asciiUnicode : Unicode where
  toLowercase value := String.ofList (value.toList.map Char.toLower)
  nfc value := value

/-- `str::trim`: the text without white space at its ends. -/
def trim (value : String) : String :=
  String.ofList ((value.toList.dropWhile isWhitespace).reverse.dropWhile isWhitespace).reverse

/-- `valid_prefixed_hex_id`: a prefix and 32 lowercase hexadecimal digits. -/
def ValidPrefixedHexId (value start : String) : Prop :=
  start.toList <+: value.toList ∧ (value.toList.drop start.length).length = 32 ∧
    ∀ c ∈ value.toList.drop start.length, isHexDigit c = true

instance (value start : String) : Decidable (ValidPrefixedHexId value start) :=
  inferInstanceAs (Decidable (_ ∧ _ ∧ _))

/-- `validate_group_id`. -/
def validateGroupId (value : String) : Except RepositoryError Unit :=
  ensure (ValidPrefixedHexId value "group_") .invalidInput

section Names

variable [Unicode]

/-- `normalize_group_name`: 2 to 80 composed characters between the white space. -/
def normalizeGroupName (value : String) : Except RepositoryError String := do
  let trimmed := trim (Unicode.nfc value)
  ensure (2 ≤ trimmed.length ∧ trimmed.length ≤ 80 ∧ ∀ c ∈ trimmed.toList, isControl c = false)
    .invalidInput
  return trimmed

/-- `normalized_email`: a lowercase address with one `@` between two non-empty parts. -/
def NormalizedEmail (value : String) : Prop :=
  3 ≤ value.utf8ByteSize ∧ value.utf8ByteSize ≤ 254 ∧ trim value = value ∧
    Unicode.toLowercase value = value ∧
    (∀ c ∈ value.toList, isControl c = false ∧ isWhitespace c = false) ∧
    '@' ∈ value.toList ∧ value.toList.head? ≠ some '@' ∧ value.toList.getLast? ≠ some '@' ∧
    value.toList.count '@' = 1

instance (value : String) : Decidable (NormalizedEmail value) :=
  inferInstanceAs (Decidable (_ ∧ _ ∧ _ ∧ _ ∧ _ ∧ _ ∧ _ ∧ _ ∧ _))

end Names

/-! ### Roles -/

/-- `encode_roles`: at most 16 different role names of at most 64 bytes each. -/
def ValidRoles (roles : List String) : Prop :=
  roles.length ≤ 16 ∧ roles.Nodup ∧ ∀ role ∈ roles, role ≠ "" ∧ role.utf8ByteSize ≤ 64 ∧
    trim role = role ∧ ∀ c ∈ role.toList, isControl c = false

instance (roles : List String) : Decidable (ValidRoles roles) :=
  inferInstanceAs (Decidable (_ ∧ _ ∧ _))

/-- `canonical_roles`: the roles in order, all different. -/
def canonicalRoles (roles : List String) : Except RepositoryError (List String) := do
  let canonical := orderBy id roles
  ensure (ValidRoles canonical) .invalidInput
  return canonical

/-- `role_json`: the JSON array of the texts. -/
def jsonTexts [JsonWriter] (values : List String) : String :=
  String.ofList ('[' :: [','].intercalate (values.map jsonQuoted) ++ [']'])

/-! ### Stored texts of enumerations -/

/-- The name of a kind of principal in requests and in stored rows. -/
def YardAccessPrincipalKind.asStr : YardAccessPrincipalKind → String
  | .user => "user"
  | .group => "group"
  | .guestInvite => "guest-invite"
  | .link => "link"

/-- The name of a management role in requests and in stored rows. -/
def YardManagementRole.asStr : YardManagementRole → String
  | .owner => "owner"
  | .admin => "admin"
  | .developer => "developer"
  | .auditor => "auditor"

/-- An optional text in an audit event. -/
def auditText : Option String → AuditValue
  | some text => .string text
  | none => .null

end BlobYard
