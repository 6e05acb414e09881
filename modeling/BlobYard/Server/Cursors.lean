/-
The cursors of the listings as texts.

The cursor of the audit trail is a number in decimal.  Those of the other listings are records in
JSON, written in base64, that also name what the listing is of; a text of more than 1024 bytes is
refused before it is read.

* `Cursor.encode`, `Cursor.decode` — the part all records share;
* `encodeGroup`, `encodeMember`, `encodeInvite`, `encodeRole` and their decoders;
* `Cursor.decode_encode` — a record is read back if and only if its text is short enough;
* `cursorSize_le` — texts of plain identifiers are.
-/
import BlobYard.Contract.Numbers
import BlobYard.Lib.Base64
import BlobYard.Lib.Json
import BlobYard.Repository.Listings
import BlobYard.Server.Objects

namespace BlobYard

open Outcome

/-- `YardManagementRole::parse`. -/
def YardManagementRole.parse (value : String) : Option YardManagementRole :=
  if value = "owner" then some .owner
  else if value = "admin" then some .admin
  else if value = "developer" then some .developer
  else if value = "auditor" then some .auditor
  else none

@[simp] theorem YardManagementRole.parse_asStr (role : YardManagementRole) :
    parse role.asStr = some role := by
  cases role <;> rfl

namespace Server

section Texts

variable [Base64]

/-! ### The shared part -/

/-- `MAXIMUM_CURSOR_LENGTH`. -/
def maximumCursorLength : ℕ := 1024

/-- `cursor::encode`. -/
def Cursor.encode [JsonWriter] (value : Json) : String :=
  String.ofList (base64Encode (utf8Bytes value.compact))

/-- `serde_json::from_slice`, as far as the value. -/
def fromSlice [JsonReader] (bytes : List UInt8) : Option Json :=
  (utf8Text? bytes).bind JsonReader.read

/-- `cursor::decode`; `read` is the derived decoder of the record. -/
def Cursor.decode [JsonReader] {β : Type} (read : Json → Option β) :
    Option String → Except ApiError (Option β)
  | none => .ok none
  | some value => do
    ensure (1 ≤ value.utf8ByteSize ∧ value.utf8ByteSize ≤ maximumCursorLength) .invalidRequest
    let bytes ← ofOption .invalidRequest (base64Decode value.toList)
    let json ← ofOption .invalidRequest (fromSlice bytes)
    let cursor ← ofOption .invalidRequest (read json)
    return some cursor

/-! ### Groups and members -/

/-- The record of a group cursor. -/
structure GroupsCursor where
  scope : String
  atMs : ℕ
  key : String

/-- `api_groups_cursor::encode`. -/
def encodeGroups [JsonWriter] (scope : String) (atMs : ℕ) (key : String) : String :=
  Cursor.encode (.object [("at_ms", .number atMs), ("key", .string key), ("scope", .string scope)])

/-- The derived decoder of the record. -/
def GroupsCursor.read (value : Json) : Option GroupsCursor := do
  let fields ← value.record? ["scope", "at_ms", "key"]
  let scope ← Json.required? Json.text? "scope" fields
  let atMs ← Json.required? (Json.natural? u64Max) "at_ms" fields
  let key ← Json.required? Json.text? "key" fields
  some { scope, atMs, key }

/-- `api_groups_cursor::decode`. -/
def decodeGroups [JsonReader] (scope : String) (value : Option String) :
    Except ApiError (Option GroupsCursor) := do
  match ← Cursor.decode GroupsCursor.read value with
  | none => return none
  | some cursor =>
    if cursor.scope = scope then return some cursor else .error .invalidRequest

def encodeGroup [JsonWriter] (scope : String) (cursor : WorkspaceGroupCursor) : String :=
  encodeGroups scope cursor.createdAtMs cursor.id

def decodeGroup [JsonReader] (scope : String) (value : Option String) :
    Except ApiError (Option WorkspaceGroupCursor) := do
  let cursor ← decodeGroups scope value
  return cursor.map fun cursor => { createdAtMs := cursor.atMs, id := cursor.key }

def encodeMember [JsonWriter] (scope : String) (cursor : WorkspaceGroupMemberCursor) : String :=
  encodeGroups scope cursor.addedAtMs cursor.userId

def decodeMember [JsonReader] (scope : String) (value : Option String) :
    Except ApiError (Option WorkspaceGroupMemberCursor) := do
  let cursor ← decodeGroups scope value
  return cursor.map fun cursor => { addedAtMs := cursor.atMs, userId := cursor.key }

/-! ### Guest invitations -/

/-- The record of an invitation cursor. -/
structure InviteCursor where
  at_ : ℕ
  id : String
  yard : String

/-- `yards_guest_invite_cursor::encode`. -/
def encodeInvite [JsonWriter] (yardId : String) (cursor : YardGuestInviteCursor) : String :=
  Cursor.encode (.object [("at", .number cursor.createdAtMs), ("id", .string cursor.id),
    ("yard", .string yardId)])

/-- The derived decoder of the record. -/
def InviteCursor.read (value : Json) : Option InviteCursor := do
  let fields ← value.record? ["at", "id", "yard"]
  let at_ ← Json.required? (Json.natural? u64Max) "at" fields
  let id ← Json.required? Json.text? "id" fields
  let yard ← Json.required? Json.text? "yard" fields
  some { at_, id, yard }

/-- `yards_guest_invite_cursor::decode`. -/
def decodeInvite [JsonReader] (yardId : String) (value : Option String) :
    Except ApiError (Option YardGuestInviteCursor) := do
  match ← Cursor.decode InviteCursor.read value with
  | none => return none
  | some decoded =>
    ensure (decoded.yard = yardId ∧ "ygi_".toList <+: decoded.id.toList ∧
      decoded.id.utf8ByteSize = 36 ∧ decoded.at_ ≤ i64Max) .invalidRequest
    return some { createdAtMs := decoded.at_, id := decoded.id }

/-! ### Management roles -/

/-- The record of a role cursor. -/
structure RoleCursor where
  scope : String
  role : String
  userId : String

/-- `yards_identity_cursor::encode`. -/
def encodeRole [JsonWriter] (scope : String) (cursor : YardManagementRoleCursor) : String :=
  Cursor.encode (.object [("role", .string cursor.role.asStr), ("scope", .string scope),
    ("user_id", .string cursor.userId)])

/-- The derived decoder of the record. -/
def RoleCursor.read (value : Json) : Option RoleCursor := do
  let fields ← value.record? ["scope", "role", "user_id"]
  let scope ← Json.required? Json.text? "scope" fields
  let role ← Json.required? Json.text? "role" fields
  let userId ← Json.required? Json.text? "user_id" fields
  some { scope, role, userId }

/-- `yards_identity_cursor::decode`. -/
def decodeRole [JsonReader] (scope : String) (value : Option String) :
    Except ApiError (Option YardManagementRoleCursor) := do
  match ← Cursor.decode RoleCursor.read value with
  | none => return none
  | some cursor =>
    if cursor.scope ≠ scope then .error .invalidRequest
    else
      let role ← ofOption .invalidRequest (YardManagementRole.parse cursor.role)
      return some { role, userId := cursor.userId }

end Texts

/-! ### Audit -/

/-- The cursor of the audit trail is a sequence number. -/
def encodeBefore (before : ℕ) : String := String.ofList (Nat.toDigits 10 before)

def decodeBefore (value : Option String) : Except ApiError (Option ℕ) :=
  match value with
  | none => .ok none
  | some text => some <$> ofOption .invalidRequest (parseU64 text.toList)

/-! ### What is read back -/

/-- The size of the text of a record. -/
theorem size_encode [Base64] [JsonWriter] (value : Json) : (Cursor.encode value).utf8ByteSize =
    (4 * String.utf8Len value.compact + 2) / 3 := by
  rw [Cursor.encode, utf8ByteSize_base64Encode, length_utf8Bytes]

theorem natural?_number {atMs : ℕ} (h : atMs ≤ u64Max) :
    Json.natural? u64Max (.number atMs) = some atMs := by
  rw [Json.natural?, if_pos h]

theorem read_groups {atMs : ℕ} (h : atMs ≤ u64Max) (scope key : String) :
    GroupsCursor.read (.object [("at_ms", .number atMs), ("key", .string key),
      ("scope", .string scope)]) = some { scope, atMs, key } := by
  have hfields : Json.record? ["scope", "at_ms", "key"] (.object [("at_ms", .number atMs),
      ("key", .string key), ("scope", .string scope)]) =
        some [("at_ms", .number atMs), ("key", .string key), ("scope", .string scope)] := by
    rw [Json.record?, if_pos]
    simp
  have hat : Json.required? (Json.natural? u64Max) "at_ms" [("at_ms", .number atMs),
      ("key", .string key), ("scope", .string scope)] = some atMs := natural?_number h
  rw [GroupsCursor.read, hfields]
  simp only [Option.bind_eq_bind, Option.bind_some, hat]
  rfl

theorem read_invite {cursor : YardGuestInviteCursor} (h : cursor.createdAtMs ≤ u64Max)
    (yardId : String) :
    InviteCursor.read (.object [("at", .number cursor.createdAtMs), ("id", .string cursor.id),
      ("yard", .string yardId)]) =
        some { at_ := cursor.createdAtMs, id := cursor.id, yard := yardId } := by
  have hfields : Json.record? ["at", "id", "yard"] (.object [("at", .number cursor.createdAtMs),
      ("id", .string cursor.id), ("yard", .string yardId)]) =
        some [("at", .number cursor.createdAtMs), ("id", .string cursor.id),
          ("yard", .string yardId)] := by
    rw [Json.record?, if_pos]
    simp
  have hat : Json.required? (Json.natural? u64Max) "at" [("at", .number cursor.createdAtMs),
      ("id", .string cursor.id), ("yard", .string yardId)] = some cursor.createdAtMs :=
    natural?_number h
  rw [InviteCursor.read, hfields]
  simp only [Option.bind_eq_bind, Option.bind_some, hat]
  rfl

/-- An identifier of an invitation has 36 bytes. -/
theorem size_inviteId {id : String} (h : ValidPrefixedHexId id "ygi_") : id.utf8ByteSize = 36 := by
  obtain ⟨hstart, hlength, hhex⟩ := h
  obtain ⟨rest, hrest⟩ := hstart
  have hdrop : id.toList.drop "ygi_".length = rest := by
    rw [← hrest]
    rfl
  rw [hdrop] at hlength hhex
  have hascii : ∀ c ∈ rest, c.toNat < 128 := fun c hc => isHexDigit_ascii (hhex c hc)
  have hprefix : String.utf8Len "ygi_".toList = 4 := by decide
  rw [utf8ByteSize_eq, ← hrest, String.utf8Len_append, hprefix, utf8Len_eq_length hascii, hlength]

theorem read_role (scope : String) (cursor : YardManagementRoleCursor) :
    RoleCursor.read (.object [("role", .string cursor.role.asStr), ("scope", .string scope),
      ("user_id", .string cursor.userId)]) =
        some { scope, role := cursor.role.asStr, userId := cursor.userId } := by
  have hfields : Json.record? ["scope", "role", "user_id"] (.object
      [("role", .string cursor.role.asStr), ("scope", .string scope),
        ("user_id", .string cursor.userId)]) =
        some [("role", .string cursor.role.asStr), ("scope", .string scope),
          ("user_id", .string cursor.userId)] := by
    rw [Json.record?, if_pos]
    simp
  rw [RoleCursor.read, hfields]
  rfl

/-- A sequence number is read back. -/
theorem decodeBefore_encode {before : ℕ} (h : before ≤ u64Max) :
    decodeBefore (some (encodeBefore before)) = .ok (some before) := by
  have hparse : parseU64 (encodeBefore before).toList = some before := by
    rw [encodeBefore, String.toList_ofList, parseU64, parseUnsigned_toDigits h]
  rw [decodeBefore, hparse]
  rfl

theorem fromSlice_utf8Bytes [JsonReader] {value : Json} (hdepth : value.depth < 128) :
    fromSlice (utf8Bytes value.compact) = some value := by
  rw [fromSlice, utf8Text?_eq_some.mpr rfl, Option.bind_some, JsonReader.read_compact value hdepth]

section Reading

variable [Base64] [JsonReader] {β : Type} {read : Json → Option β} {value : Json} {result : β}

/-- What was written is read, within the limit. -/
theorem decode_encode (hdepth : value.depth < 128) (hread : read value = some result)
    (hsize : (Cursor.encode value).utf8ByteSize ≤ maximumCursorLength) :
    Cursor.decode read (some (Cursor.encode value)) = .ok (some result) := by
  have hpositive : 1 ≤ (Cursor.encode value).utf8ByteSize := by
    obtain ⟨c, rest, hcompact, -⟩ := Json.compact_cons value
    have hlength := length_le_utf8Len value.compact
    rw [hcompact, List.length_cons] at hlength
    rw [size_encode, hcompact]
    omega
  have hbytes : base64Decode (Cursor.encode value).toList = some (utf8Bytes value.compact) := by
    rw [Cursor.encode, String.toList_ofList, base64Decode_encode]
  simp only [Cursor.decode, bind_eq_ok, ensure_eq_ok, ofOption_eq_ok, pure_eq_ok]
  exact ⟨(), ⟨hpositive, hsize⟩, _, hbytes, value, fromSlice_utf8Bytes hdepth, result, hread, rfl⟩

/-- A longer text is refused. -/
theorem decode_long {text : String} (hsize : maximumCursorLength < text.utf8ByteSize) :
    Cursor.decode read (some text) = .error .invalidRequest := by
  have hnot : ¬(1 ≤ text.utf8ByteSize ∧ text.utf8ByteSize ≤ maximumCursorLength) :=
    fun h => absurd h.2 (not_le.mpr hsize)
  have hensure : ensure (1 ≤ text.utf8ByteSize ∧ text.utf8ByteSize ≤ maximumCursorLength)
      ApiError.invalidRequest = .error .invalidRequest := ensure_eq_error.mpr ⟨hnot, rfl⟩
  rw [Cursor.decode, hensure]
  rfl

/-- A record is read back if and only if its text is short enough. -/
theorem decode_encode_eq (hread : read value = some result) (hdepth : value.depth < 128) :
    Cursor.decode read (some (Cursor.encode value)) =
      if (Cursor.encode value).utf8ByteSize ≤ maximumCursorLength then .ok (some result)
      else .error .invalidRequest := by
  split
  case isTrue hsize => exact decode_encode hdepth hread hsize
  case isFalse hsize => exact decode_long (not_le.mp hsize)

theorem decodeGroups_encode {atMs : ℕ} (h : atMs ≤ u64Max) (scope key : String) :
    decodeGroups scope (some (encodeGroups scope atMs key)) =
      if (encodeGroups scope atMs key).utf8ByteSize ≤ maximumCursorLength then
        .ok (some { scope, atMs, key })
      else .error .invalidRequest := by
  rw [decodeGroups, encodeGroups,
    decode_encode_eq (read_groups h scope key) (show (1 : ℕ) < 128 by decide)]
  split
  · show (if scope = scope then _ else _) = _
    rw [if_pos rfl]
    rfl
  · rfl

theorem decodeGroup_encode (scope : String) (cursor : WorkspaceGroupCursor)
    (h : cursor.createdAtMs ≤ u64Max) :
    decodeGroup scope (some (encodeGroup scope cursor)) =
      if (encodeGroup scope cursor).utf8ByteSize ≤ maximumCursorLength then .ok (some cursor)
      else .error .invalidRequest := by
  rw [decodeGroup, encodeGroup, decodeGroups_encode h]
  split <;> rfl

theorem decodeMember_encode (scope : String) (cursor : WorkspaceGroupMemberCursor)
    (h : cursor.addedAtMs ≤ u64Max) :
    decodeMember scope (some (encodeMember scope cursor)) =
      if (encodeMember scope cursor).utf8ByteSize ≤ maximumCursorLength then .ok (some cursor)
      else .error .invalidRequest := by
  rw [decodeMember, encodeMember, decodeGroups_encode h]
  split <;> rfl

/-- The identifiers of invitations pass the further checks. -/
theorem decodeInvite_encode (yardId : String) (cursor : YardGuestInviteCursor)
    (hat : cursor.createdAtMs ≤ i64Max) (hid : ValidPrefixedHexId cursor.id "ygi_") :
    decodeInvite yardId (some (encodeInvite yardId cursor)) =
      if (encodeInvite yardId cursor).utf8ByteSize ≤ maximumCursorLength then .ok (some cursor)
      else .error .invalidRequest := by
  have hbound : cursor.createdAtMs ≤ u64Max := hat.trans (by decide)
  have hsize : cursor.id.utf8ByteSize = 36 := size_inviteId hid
  rw [decodeInvite, encodeInvite,
    decode_encode_eq (read_invite hbound yardId) (show (1 : ℕ) < 128 by decide)]
  split
  · show (ensure (yardId = yardId ∧ _ ∧ _ ∧ _) _ >>= _) = _
    have hensure : ensure (yardId = yardId ∧ "ygi_".toList <+: cursor.id.toList ∧
        cursor.id.utf8ByteSize = 36 ∧ cursor.createdAtMs ≤ i64Max) ApiError.invalidRequest =
          .ok () := ensure_eq_ok.mpr ⟨rfl, hid.1, hsize, hat⟩
    rw [hensure]
    rfl
  · rfl

theorem decodeRole_encode (scope : String) (cursor : YardManagementRoleCursor) :
    decodeRole scope (some (encodeRole scope cursor)) =
      if (encodeRole scope cursor).utf8ByteSize ≤ maximumCursorLength then .ok (some cursor)
      else .error .invalidRequest := by
  rw [decodeRole, encodeRole,
    decode_encode_eq (read_role scope cursor) (show (1 : ℕ) < 128 by decide)]
  split
  · show (if scope ≠ scope then _ else _) = _
    rw [if_neg (not_not.mpr rfl)]
    simp only [YardManagementRole.parse_asStr]
    rfl
  · rfl

end Reading

/-! ### How long the texts are -/

/-- The characters of the identifiers that the server makes. -/
def PlainCharacter (c : Char) : Prop :=
  (97 ≤ c.toNat ∧ c.toNat ≤ 122) ∨ (48 ≤ c.toNat ∧ c.toNat ≤ 57) ∨ c.toNat = 95

instance : DecidablePred PlainCharacter :=
  fun _ => inferInstanceAs (Decidable (_ ∨ _ ∨ _))

/-- An identifier of small letters, digits and underscores, at most 128 of them. -/
def PlainId (id : String) : Prop := id.toList.length ≤ 128 ∧ ∀ c ∈ id.toList, PlainCharacter c

/-- A plain identifier is written with its characters and two quotes. -/
theorem size_jsonQuoted [JsonWriter] {id : String} (h : ∀ c ∈ id.toList, PlainCharacter c) :
    String.utf8Len (jsonQuoted id) = id.toList.length + 2 := by
  have hplain : ∀ c ∈ id.toList, 32 ≤ c.toNat ∧ c.toNat < 127 ∧ c ≠ '"' ∧ c ≠ '\\' := by
    intro c hc
    have hc := h c hc
    unfold PlainCharacter at hc
    refine ⟨by omega, by omega, ?_, ?_⟩
    · rintro rfl
      exact absurd hc (by decide)
    · rintro rfl
      exact absurd hc (by decide)
  have hascii : ∀ c ∈ id.toList, c.toNat < 128 := fun c hc => by
    have := hplain c hc
    omega
  have hquote : String.utf8Len ['"'] = 1 := by decide
  rw [jsonQuoted_plain id hplain, List.cons_append, String.utf8Len_cons, String.utf8Len_append,
    utf8Len_eq_length hascii, hquote]
  rfl

theorem size_toDigits {atMs : ℕ} (h : atMs ≤ u64Max) :
    String.utf8Len (Nat.toDigits 10 atMs) ≤ 20 := by
  have hascii : ∀ c ∈ Nat.toDigits 10 atMs, c.toNat < 128 := by
    intro c hc
    obtain ⟨-, hnine⟩ := Char.isDigit_iff_toNat.mp ((isDecimal_toDigits atMs).2 c hc)
    exact lt_of_le_of_lt hnine (by decide)
  rw [utf8Len_eq_length hascii, Nat.length_toDigits_le_iff (by decide) (by decide)]
  exact lt_of_le_of_lt h (by decide)

/-- Three members and what is around them. -/
theorem size_record [JsonWriter] {first second third : String} {a b c : Json} :
    String.utf8Len (Json.object [(first, a), (second, b), (third, c)]).compact =
      String.utf8Len (jsonQuoted first) + String.utf8Len a.compact +
        (String.utf8Len (jsonQuoted second) + String.utf8Len b.compact) +
        (String.utf8Len (jsonQuoted third) + String.utf8Len c.compact) + 7 := by
  have hone : ∀ d : Char, d.toNat < 128 → d.utf8Size = 1 := fun d hd => utf8Size_eq_one_iff.mpr hd
  show String.utf8Len ('\x7b' :: (jsonQuoted first ++ ':' :: a.compact ++
    ',' :: (jsonQuoted second ++ ':' :: b.compact ++ ',' :: (jsonQuoted third ++
      ':' :: c.compact))) ++ ['\x7d']) = _
  simp only [String.utf8Len_append, String.utf8Len_cons, String.utf8Len_nil, List.cons_append,
    hone _ (show '\x7b'.toNat < 128 by decide), hone _ (show ':'.toNat < 128 by decide),
    hone _ (show ','.toNat < 128 by decide), hone _ (show '\x7d'.toNat < 128 by decide)]
  omega

section Sizes

variable [Base64] [JsonWriter]

/-- Cursors of plain identifiers are within the limit. -/
theorem encodeGroups_fits {scope key : String} {atMs : ℕ} (hat : atMs ≤ u64Max)
    (hscope : PlainId scope) (hkey : PlainId key) :
    (encodeGroups scope atMs key).utf8ByteSize ≤ maximumCursorLength := by
  have hdigits := size_toDigits hat
  have hfirst : String.utf8Len (jsonQuoted "at_ms") = 7 := size_jsonQuoted (by decide)
  have hsecond : String.utf8Len (jsonQuoted "key") = 5 := size_jsonQuoted (by decide)
  have hthird : String.utf8Len (jsonQuoted "scope") = 7 := size_jsonQuoted (by decide)
  rw [encodeGroups, size_encode, size_record, hfirst, hsecond, hthird]
  simp only [Json.compact, size_jsonQuoted hscope.2, size_jsonQuoted hkey.2, maximumCursorLength]
  have hlength := hscope.1
  have hlength' := hkey.1
  omega

theorem encodeInvite_fits {yardId : String} {cursor : YardGuestInviteCursor}
    (hat : cursor.createdAtMs ≤ u64Max) (hyard : PlainId yardId) (hid : PlainId cursor.id) :
    (encodeInvite yardId cursor).utf8ByteSize ≤ maximumCursorLength := by
  have hdigits := size_toDigits hat
  have hfirst : String.utf8Len (jsonQuoted "at") = 4 := size_jsonQuoted (by decide)
  have hsecond : String.utf8Len (jsonQuoted "id") = 4 := size_jsonQuoted (by decide)
  have hthird : String.utf8Len (jsonQuoted "yard") = 6 := size_jsonQuoted (by decide)
  rw [encodeInvite, size_encode, size_record, hfirst, hsecond, hthird]
  simp only [Json.compact, size_jsonQuoted hyard.2, size_jsonQuoted hid.2, maximumCursorLength]
  have hlength := hyard.1
  have hlength' := hid.1
  omega

theorem encodeRole_fits {scope : String} {cursor : YardManagementRoleCursor}
    (hscope : PlainId scope) (huser : PlainId cursor.userId) :
    (encodeRole scope cursor).utf8ByteSize ≤ maximumCursorLength := by
  have hfirst : String.utf8Len (jsonQuoted "role") = 6 := size_jsonQuoted (by decide)
  have hsecond : String.utf8Len (jsonQuoted "scope") = 7 := size_jsonQuoted (by decide)
  have hthird : String.utf8Len (jsonQuoted "user_id") = 9 := size_jsonQuoted (by decide)
  have hplain : ∀ role : YardManagementRole, (∀ c ∈ role.asStr.toList, PlainCharacter c) ∧
      role.asStr.toList.length ≤ 9 := by
    rintro (_ | _ | _ | _) <;> decide
  have hrole : String.utf8Len (jsonQuoted cursor.role.asStr) ≤ 11 := by
    rw [size_jsonQuoted (hplain cursor.role).1]
    exact Nat.add_le_add_right (hplain cursor.role).2 2
  rw [encodeRole, size_encode, size_record, hfirst, hsecond, hthird]
  simp only [Json.compact, size_jsonQuoted hscope.2, size_jsonQuoted huser.2, maximumCursorLength]
  have hlength := hscope.1
  have hlength' := huser.1
  omega

/-- A cursor that names more than 768 bytes is beyond the limit. -/
theorem encodeRole_long {scope : String} {cursor : YardManagementRoleCursor}
    (h : 768 < scope.toList.length + cursor.userId.toList.length) :
    maximumCursorLength < (encodeRole scope cursor).utf8ByteSize := by
  have hquoted (id : String) : id.toList.length ≤ String.utf8Len (jsonQuoted id) :=
    (Nat.le_of_add_right_le (length_jsonQuoted id)).trans (length_le_utf8Len _)
  have hscope := hquoted scope
  have huser := hquoted cursor.userId
  rw [encodeRole, size_encode, size_record]
  simp only [Json.compact, maximumCursorLength]
  omega

end Sizes

end Server

end BlobYard
