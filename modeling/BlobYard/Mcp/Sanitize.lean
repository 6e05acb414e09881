/-
What the tools of the model server show of a result.

Before a result goes to the model, the values under sensitive keys and the strings with a sensitive
query are replaced by a marker.  The URL that a call was made to issue stays, and an invitation
keeps its URL at the root even where it has such a query.

* `sensitiveKey`, `sensitiveUrl` — what is hidden;
* `sanitize` — the rewriting of a result;
* `sanitizeValue_object` — every field is rewritten on its own.
-/
import BlobYard.Contract.Text
import BlobYard.Lib.JsonTree
import BlobYard.Lib.Occurrences

namespace BlobYard

namespace Sanitize

/-- `REDACTED`. -/
def redacted : List Char := "[REDACTED]".toList

inductive IssuedCapability where
  | none
  | share
  | preview
  | inbox
  | guestInvitation
  deriving DecidableEq

/-! ### Keys -/

/-- `public_capability`. -/
def publicCapability (key : List Char) : Option IssuedCapability :=
  if key = "shareurl".toList ∨ key = "share_url".toList then some .share
  else if key = "previewurl".toList ∨ key = "preview_url".toList then some .preview
  else if key = "inboxurl".toList ∨ key = "inbox_url".toList then some .inbox
  else none

/-- The keys that are sensitive as a whole. -/
def sensitiveNames : List (List Char) :=
  ["downloadurl", "download_url", "uploadurl", "upload_url", "otp"].map String.toList

/-- The terms that make a key sensitive. -/
def sensitiveTerms : List (List Char) :=
  ["token", "secret", "password", "authorization", "cookie", "oauth_code", "confirmation_code",
    "confirmationcode", "signed_url", "presigned_url", "capability"].map String.toList

/-- The last expression of `sensitive_key`. -/
def sensitiveText (key : List Char) : Bool :=
  sensitiveNames.contains key || sensitiveTerms.any (containsText · key)

/-- The key in lower case, with underscores for the other separators. -/
def normalizeKey (key : List Char) : List Char :=
  (key.map toAsciiLowercase).map fun c => if c = '-' ∨ c = '.' then '_' else c

/-- `sensitive_key`. -/
def sensitiveKey (key : List Char) (issued : IssuedCapability) : Bool :=
  match publicCapability (normalizeKey key) with
  | some capability => capability ≠ issued
  | none => sensitiveText (normalizeKey key)

/-! ### Strings -/

/-- The parameters that make a query sensitive. -/
def sensitiveParameters : List (List Char) :=
  ["x-amz-signature=", "x-amz-credential=", "signature=", "token=", "secret="].map String.toList

/-- `sensitive_url`. -/
def sensitiveUrl (text : List Char) : Bool :=
  match splitOnce '?' text with
  | none => false
  | some (_, query) => sensitiveParameters.any (containsText · (query.map toAsciiLowercase))

/-! ### Values -/

variable {Number : Type}

/-- A value as the tools return it. -/
abbrev Value (Number : Type) := JsonTree Number (List Char)

def invitationKeys : List (List Char) := ["invitationUrl", "invitation_url"].map String.toList

def isString : Value Number → Bool
  | .string _ => true
  | _ => false

/-- `issued_guest_invitation_url`. -/
def issuedGuestInvitationUrl (key : List Char) (value : Value Number)
    (issued : IssuedCapability) : Bool :=
  issued == .guestInvitation && invitationKeys.contains key && isString value

mutual

/-- `sanitize_value`. -/
def sanitizeValue (issued : IssuedCapability) (root : Bool) : Value Number → Value Number
  | .array items => .array (sanitizeItems issued items)
  | .object fields => .object (sanitizeFields issued root fields)
  | .string text => .string (if sensitiveUrl text then redacted else text)
  | .null => .null
  | .bool value => .bool value
  | .number value => .number value

/-- The loop over the items of an array. -/
def sanitizeItems (issued : IssuedCapability) : List (Value Number) → List (Value Number)
  | [] => []
  | item :: items => sanitizeValue issued false item :: sanitizeItems issued items

/-- The loop over the fields of an object. -/
def sanitizeFields (issued : IssuedCapability) (root : Bool) :
    List (List Char × Value Number) → List (List Char × Value Number)
  | [] => []
  | (key, item) :: fields =>
    (key,
      if root && issuedGuestInvitationUrl key item issued then item
      else if sensitiveKey key issued then .string redacted
      else sanitizeValue issued false item) :: sanitizeFields issued root fields

end

/-- `sanitize`. -/
def sanitize (issued : IssuedCapability) (value : Value Number) : Value Number :=
  sanitizeValue issued true value

/-! ### The loops -/

/-- What becomes of the value of a field. -/
def sanitizeField (issued : IssuedCapability) (root : Bool) (field : List Char × Value Number) :
    Value Number :=
  if root && issuedGuestInvitationUrl field.1 field.2 issued then field.2
  else if sensitiveKey field.1 issued then .string redacted
  else sanitizeValue issued false field.2

theorem sanitizeItems_eq (issued : IssuedCapability) (items : List (Value Number)) :
    sanitizeItems issued items = items.map (sanitizeValue issued false) := by
  induction items with
  | nil => rfl
  | cons item items ih => rw [sanitizeItems, ih, List.map_cons]

theorem sanitizeFields_eq (issued : IssuedCapability) (root : Bool)
    (fields : List (List Char × Value Number)) :
    sanitizeFields issued root fields =
      fields.map fun field => (field.1, sanitizeField issued root field) := by
  induction fields with
  | nil => rfl
  | cons field fields ih =>
    rw [sanitizeFields, ih, List.map_cons]
    rfl

@[simp]
theorem sanitizeValue_array (issued : IssuedCapability) (root : Bool)
    (items : List (Value Number)) :
    sanitizeValue issued root (.array items) =
      .array (items.map (sanitizeValue issued false)) := by
  rw [sanitizeValue, sanitizeItems_eq]

@[simp]
theorem sanitizeValue_object (issued : IssuedCapability) (root : Bool)
    (fields : List (List Char × Value Number)) :
    sanitizeValue issued root (.object fields) =
      .object (fields.map fun field => (field.1, sanitizeField issued root field)) := by
  rw [sanitizeValue, sanitizeFields_eq]

/-- The marker is no sensitive string itself. -/
theorem sensitiveUrl_redacted : sensitiveUrl redacted = false := by decide

@[simp]
theorem sanitizeValue_redacted (issued : IssuedCapability) (root : Bool) :
    sanitizeValue issued root (.string redacted : Value Number) = .string redacted := by
  rw [sanitizeValue, sensitiveUrl_redacted]
  rfl

theorem issuedGuestInvitationUrl_eq {key : List Char} {value : Value Number}
    {issued : IssuedCapability} :
    issuedGuestInvitationUrl key value issued = true ↔
      issued = .guestInvitation ∧ key ∈ invitationKeys ∧ ∃ text, value = .string text := by
  have hstring : isString value = true ↔ ∃ text, value = .string text := by
    cases value <;> simp [isString]
  rw [issuedGuestInvitationUrl, Bool.and_eq_true, Bool.and_eq_true, beq_iff_eq,
    List.contains_iff_mem, hstring, and_assoc]

/-- The key of an invitation is not sensitive. -/
theorem sensitiveKey_invitation {key : List Char} (h : key ∈ invitationKeys)
    (issued : IssuedCapability) : sensitiveKey key issued = false := by
  revert key
  cases issued <;> decide

end Sanitize

end BlobYard
