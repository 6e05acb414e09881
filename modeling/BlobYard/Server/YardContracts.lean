/-
Signed continuations of a login to a hosted yard.

The server sends a browser away with a token of the host label and the path it wanted, signed and
with a time at which it expires; the token it gets back tells where to go on.  The yard and its
environment are not in the token: they are looked up by the host label.

* `issue`, `issueInvitation`, `verify`, `verifyInvitation` — the two kinds of tokens;
* `normalizeReturnPath` — a path is kept or replaced by the root;
* `token`, `verifyWith_token` — the tokens that are issued are verified;
* `token_of_verifyWith` — and a token that is verified is the token of its claims.
-/
import BlobYard.Contract.Storage
import BlobYard.Lib.Hex
import BlobYard.Lib.Splitting
import BlobYard.Repository.YardSessions
import BlobYard.Server.Cursors

namespace BlobYard

open Outcome

/-- `MAX_SECRET_BYTES`. -/
def maximumSecretBytes : ℕ := 16384

/-- A nonempty single-line secret. -/
structure SecretString where
  exposeSecret : String
  valid : exposeSecret ≠ "" ∧ exposeSecret.utf8ByteSize ≤ maximumSecretBytes ∧
    ∀ c ∈ exposeSecret.toList, isControl c = false

/-- `SecretString::new`; the error of an invalid value has no other data. -/
def SecretString.new (value : String) : Except Unit SecretString :=
  if h : value ≠ "" ∧ value.utf8ByteSize ≤ maximumSecretBytes ∧
      ∀ c ∈ value.toList, isControl c = false then .ok ⟨value, h⟩
  else .error ()

theorem SecretString.new_eq_ok {value : String} {secret : SecretString} :
    SecretString.new value = .ok secret ↔ secret.exposeSecret = value := by
  obtain ⟨text, hvalid⟩ := secret
  rw [SecretString.new]
  constructor
  · intro h
    split at h
    · exact congrArg SecretString.exposeSecret (Except.ok.inj h).symm
    · exact absurd h nofun
  · rintro rfl
    rw [dif_pos hvalid]

/-- HMAC-SHA-256 of a key and a message. -/
class Hmac where
  sign : Bytes → Bytes → Bytes
  length_sign (key message : Bytes) : (sign key message).length = 32

/-- A random identifier of sixteen bytes. -/
abbrev Uuid := {bytes : Bytes // bytes.length = 16}

namespace YardContracts

/-- `CONTINUATION_PREFIX`. -/
def continuationPrefix : List Char := "byc_".toList

/-- `INVITATION_CONTINUATION_PREFIX`. -/
def invitationContinuationPrefix : List Char := "byi_".toList

/-- `INVITATION_DOMAIN`. -/
def invitationDomain : List Char := "yard-invitation-continuation-v1".toList

def version : ℕ := 1

def maximumReturnPathBytes : ℕ := 2048

/-- `YARD_CONTINUATION_LIFETIME_MS`. -/
def continuationLifetimeMs : ℕ := 600000

/-- The claims: when the token expires, the host label, a nonce, the path and the version. -/
structure ContinuationClaims where
  e : ℕ
  h : String
  n : String
  p : String
  v : ℕ
  deriving DecidableEq

namespace ContinuationClaims

def hostLabel (claims : ContinuationClaims) : String := claims.h

def returnPath (claims : ContinuationClaims) : String := claims.p

def json (claims : ContinuationClaims) : Json :=
  .object [("e", .number claims.e), ("h", .string claims.h), ("n", .string claims.n),
    ("p", .string claims.p), ("v", .number claims.v)]

/-- The derived decoder, which knows no other fields. -/
def read (value : Json) : Option ContinuationClaims := do
  let fields ← value.record? ["e", "h", "n", "p", "v"]
  let e ← Json.required? (Json.natural? u64Max) "e" fields
  let h ← Json.required? Json.text? "h" fields
  let n ← Json.required? Json.text? "n" fields
  let p ← Json.required? Json.text? "p" fields
  let v ← Json.required? (Json.natural? 255) "v" fields
  some { e, h, n, p, v }

end ContinuationClaims

/-- `serialize_claims`. -/
def serializeClaims [JsonWriter] (claims : ContinuationClaims) : Bytes :=
  utf8Bytes claims.json.compact

/-- `normalize_return_path`. -/
def normalizeReturnPath (value : String) : String :=
  if hasPrefix value "/" ∧ ¬hasPrefix value "//" ∧ ¬hasPrefix value "/\\" ∧
      value.utf8ByteSize ≤ maximumReturnPathBytes ∧ (∀ c ∈ value.toList, isControl c = false) ∧
      value ≠ "/.blobyard" ∧ ¬hasPrefix value "/.blobyard/" then value
  else "/"

/-- `is_lower_hex`. -/
def IsLowerHex (value : List Char) (length : ℕ) : Prop :=
  String.utf8Len value = length ∧ ∀ c ∈ value, isHexDigit c = true

instance (value : List Char) (length : ℕ) : Decidable (IsLowerHex value length) :=
  inferInstanceAs (Decidable (_ ∧ _))

/-- The text of a token. -/
def token [Base64] [Hex] (start : List Char) (payload signature : Bytes) : String :=
  String.ofList (start ++ base64Encode payload ++ '.' :: hexEncode signature)

/-- `issue_until`; `nonce` is the identifier that is drawn. -/
def issueUntil [Hmac] [Base64] [Hex] [JsonWriter] (key : Bytes) (start : List Char)
    (hostLabel returnPath : String) (expiresAtMs : ℕ) (nonce : Uuid) :
    Except ApiError SecretString := do
  ensure (ValidHostLabel hostLabel) .internal
  let claims : ContinuationClaims :=
    { e := expiresAtMs
      h := hostLabel
      n := String.ofList (hexEncode nonce.1)
      p := normalizeReturnPath returnPath
      v := version }
  let payload := serializeClaims claims
  let signature := Hmac.sign key payload
  (SecretString.new (token start payload signature)).mapError fun _ => .internal

def issue [Hmac] [Base64] [Hex] [JsonWriter] (key : Bytes) (hostLabel returnPath : String)
    (nowMs : ℕ) (nonce : Uuid) : Except ApiError SecretString := do
  let expiresAtMs ← ofOption .internal (checkedAdd nowMs continuationLifetimeMs)
  issueUntil key continuationPrefix hostLabel returnPath expiresAtMs nonce

/-- `invitation_key`: the bytes of the digest. -/
def invitationKey [Digest] [Hex] (key : Bytes) : Bytes :=
  (hexDecode (sha256 (key ++ 0 :: utf8Bytes invitationDomain)).asStr.toList).getD []

def issueInvitation [Digest] [Hmac] [Base64] [Hex] [JsonWriter] (key : Bytes)
    (hostLabel returnPath : String) (nowMs expiresAtMs : ℕ) (nonce : Uuid) :
    Except ApiError SecretString := do
  ensure (nowMs < expiresAtMs) .internal
  issueUntil (invitationKey key) invitationContinuationPrefix hostLabel returnPath expiresAtMs nonce

/-- `validate_claims`. -/
def validateClaims (claims : ContinuationClaims) (payload : Bytes) (nowMs : ℕ)
    (canonical : Bytes) : Except Unit ContinuationClaims :=
  if canonical ≠ payload ∨ claims.v ≠ version ∨ claims.e ≤ nowMs ∨ ¬ValidHostLabel claims.h ∨
      ¬IsLowerHex claims.n.toList 32 then .error ()
  else .ok { claims with p := normalizeReturnPath claims.p }

/-- `verify_with`. -/
def verifyWith [Hmac] [Base64] [Hex] [JsonReader] (key : Bytes) (start : List Char)
    (continuation : SecretString) (nowMs : ℕ) : Except Unit ContinuationClaims := do
  let raw ← ofOption () (stripPrefix? start continuation.exposeSecret.toList)
  let (encoded, signatureHex) ← ofOption () (splitOnce '.' raw)
  ensure (encoded ≠ [] ∧ IsLowerHex signatureHex 64) ()
  let payload ← ofOption () (base64Decode encoded)
  let suppliedSignature ← ofOption () (hexDecode signatureHex)
  ensure (suppliedSignature = Hmac.sign key payload) ()
  let json ← ofOption () (Server.fromSlice payload)
  let claims ← ofOption () (ContinuationClaims.read json)
  validateClaims claims payload nowMs (serializeClaims claims)

def verify [Hmac] [Base64] [Hex] [JsonReader] (key : Bytes) (continuation : SecretString)
    (nowMs : ℕ) : Except Unit ContinuationClaims :=
  verifyWith key continuationPrefix continuation nowMs

def verifyInvitation [Digest] [Hmac] [Base64] [Hex] [JsonReader] (key : Bytes)
    (continuation : SecretString) (nowMs : ℕ) : Except Unit ContinuationClaims :=
  verifyWith (invitationKey key) invitationContinuationPrefix continuation nowMs

/-! ### Return paths -/

/-- The repository looks for the reserved path behind the slash, the server with the slash. -/
theorem reservedReturnPath_iff (path : String) :
    ReservedReturnPath path ↔ path = "/.blobyard" ∨ hasPrefix path "/.blobyard/" := by
  have hreserved : "/.blobyard".toList = '/' :: ".blobyard".toList := by decide
  have hbelow : "/.blobyard/".toList = '/' :: ".blobyard/".toList := by decide
  rw [← String.toList_inj, hasPrefix, hreserved, hbelow]
  constructor
  · rintro ⟨rest, hrest, h⟩
    rw [stripPrefix?_eq_some.mp hrest, List.singleton_append, List.cons.injEq,
      List.cons_prefix_cons]
    exact h.imp (And.intro rfl) (And.intro rfl)
  · rintro (h | ⟨rest, h⟩)
    · exact ⟨_, stripPrefix?_eq_some.mpr h, Or.inl rfl⟩
    · exact ⟨_, stripPrefix?_eq_some.mpr h.symm, Or.inr (List.prefix_append _ rest)⟩

/-- A path that the repository takes is kept, any other one becomes the root. -/
theorem normalizeReturnPath_eq (path : String) :
    normalizeReturnPath path = if ValidReturnPath path then path else "/" := by
  refine if_congr ?_ rfl rfl
  rw [ValidReturnPath, reservedReturnPath_iff, not_or]
  exact Iff.rfl

theorem validReturnPath_normalize (path : String) : ValidReturnPath (normalizeReturnPath path) := by
  rw [normalizeReturnPath_eq]
  split
  case isTrue h => exact h
  case isFalse => decide

theorem normalizeReturnPath_idem (path : String) :
    normalizeReturnPath (normalizeReturnPath path) = normalizeReturnPath path := by
  rw [normalizeReturnPath_eq (normalizeReturnPath path), if_pos (validReturnPath_normalize path)]

/-! ### Tokens -/

theorem read_json {claims : ContinuationClaims} (he : claims.e ≤ u64Max) (hv : claims.v ≤ 255) :
    ContinuationClaims.read claims.json = some claims := by
  have hfields : claims.json.record? ["e", "h", "n", "p", "v"] =
      some [("e", .number claims.e), ("h", .string claims.h), ("n", .string claims.n),
        ("p", .string claims.p), ("v", .number claims.v)] := by
    rw [ContinuationClaims.json, Json.record?, if_pos]
    simp
  have hnumber : Json.required? (Json.natural? u64Max) "e" [("e", .number claims.e),
      ("h", .string claims.h), ("n", .string claims.n), ("p", .string claims.p),
      ("v", .number claims.v)] = some claims.e := if_pos he
  have hversion : Json.required? (Json.natural? 255) "v" [("e", .number claims.e),
      ("h", .string claims.h), ("n", .string claims.n), ("p", .string claims.p),
      ("v", .number claims.v)] = some claims.v := if_pos hv
  rw [ContinuationClaims.read, hfields]
  simp only [Option.bind_eq_bind, Option.bind_some, hnumber, hversion]
  rfl

theorem mem_lowerHexDigits {c : Char} (h : isHexDigit c = true) : c ∈ lowerHexDigits := by
  have hall : ∀ code < 128, isHexDigit (Char.ofNat code) = true →
      Char.ofNat code ∈ lowerHexDigits := by decide
  have hc := hall c.toNat (isHexDigit_ascii h)
  rw [Char.ofNat_toNat] at hc
  exact hc h

theorem isHexDigit_of_mem {c : Char} (h : c ∈ lowerHexDigits) : isHexDigit c = true := by
  revert c
  decide

theorem isLowerHex_hexEncode [Hex] (bytes : Bytes) :
    IsLowerHex (hexEncode bytes) (2 * bytes.length) := by
  have hdigits : ∀ c ∈ hexEncode bytes, isHexDigit c = true :=
    fun c hc => isHexDigit_of_mem (hexEncode_lower bytes c hc)
  refine ⟨?_, hdigits⟩
  rw [utf8Len_eq_length fun c hc => isHexDigit_ascii (hdigits c hc), length_hexEncode]

/-- What verification asks of claims. -/
structure Current (claims : ContinuationClaims) (nowMs : ℕ) : Prop where
  version : claims.v = version
  unexpired : nowMs < claims.e
  host : ValidHostLabel claims.h
  nonce : IsLowerHex claims.n.toList 32

theorem validateClaims_eq_ok {claims result : ContinuationClaims} {payload canonical : Bytes}
    {nowMs : ℕ} : validateClaims claims payload nowMs canonical = .ok result ↔
      canonical = payload ∧ Current claims nowMs ∧
        result = { claims with p := normalizeReturnPath claims.p } := by
  rw [validateClaims]
  constructor
  · intro h
    split at h
    case isTrue => exact absurd h nofun
    case isFalse hnot =>
      simp only [not_or, not_not, not_le] at hnot
      obtain ⟨hcanonical, hversion, hnow, hhost, hnonce⟩ := hnot
      exact ⟨hcanonical, ⟨hversion, hnow, hhost, hnonce⟩, (Except.ok.inj h).symm⟩
  · rintro ⟨hcanonical, ⟨hversion, hnow, hhost, hnonce⟩, rfl⟩
    rw [if_neg]
    simp only [not_or, not_not, not_le]
    exact ⟨hcanonical, hversion, hnow, hhost, hnonce⟩

/-- The token is the signed one of the claims. -/
def SignedBy [Hmac] [Base64] [Hex] [JsonWriter] (key : Bytes) (start : List Char)
    (continuation : SecretString) (claims : ContinuationClaims) : Prop :=
  continuation.exposeSecret =
    token start (serializeClaims claims) (Hmac.sign key (serializeClaims claims))

theorem serializeClaims_pos [JsonWriter] (claims : ContinuationClaims) :
    0 < (serializeClaims claims).length := by
  obtain ⟨c, rest, hcompact, -⟩ := Json.compact_cons claims.json
  have hlength := length_le_utf8Len claims.json.compact
  rw [serializeClaims, length_utf8Bytes]
  rw [hcompact] at hlength ⊢
  rw [List.length_cons] at hlength
  omega

theorem dot_notMem_base64Encode [Base64] (bytes : Bytes) : '.' ∉ base64Encode bytes := by
  intro hmem
  exact absurd (base64Encode_mem bytes '.' hmem) (by decide)

section Tokens

variable [Hmac] [Base64] [Hex] [JsonReader] {key : Bytes} {start : List Char}
  {continuation : SecretString} {nowMs : ℕ}

/-- The signed token of claims is verified. -/
theorem verifyWith_token {claims : ContinuationClaims} (he : claims.e ≤ u64Max)
    (hcurrent : Current claims nowMs) (hsigned : SignedBy key start continuation claims) :
    verifyWith key start continuation nowMs =
      .ok { claims with p := normalizeReturnPath claims.p } := by
  have hraw : stripPrefix? start continuation.exposeSecret.toList =
      some (base64Encode (serializeClaims claims) ++
        '.' :: hexEncode (Hmac.sign key (serializeClaims claims))) := by
    rw [hsigned, token, String.toList_ofList, List.append_assoc]
    exact stripPrefix?_eq_some.mpr rfl
  have hencoded : base64Encode (serializeClaims claims) ≠ [] := by
    intro hnil
    have hlength := length_base64Encode (serializeClaims claims)
    have hpos := serializeClaims_pos claims
    rw [hnil, List.length_nil] at hlength
    omega
  have hhex : IsLowerHex (hexEncode (Hmac.sign key (serializeClaims claims))) 64 := by
    have hlower := isLowerHex_hexEncode (Hmac.sign key (serializeClaims claims))
    rwa [Hmac.length_sign] at hlower
  have hdepth : claims.json.depth < 128 := by
    show (1 : ℕ) < 128
    decide
  have hv : claims.v ≤ 255 := by
    rw [hcurrent.version]
    decide
  simp only [verifyWith, bind_eq_ok, ofOption_eq_ok, ensure_eq_ok, exists_const]
  exact ⟨_, hraw, _, splitOnce_append (dot_notMem_base64Encode _) _, ⟨hencoded, hhex⟩,
    _, base64Decode_encode _, _, hexDecode_encode _, rfl, _, Server.fromSlice_utf8Bytes hdepth,
    _, read_json he hv, validateClaims_eq_ok.mpr ⟨rfl, hcurrent, rfl⟩⟩

/-- A token that is verified is the signed token of its claims. -/
theorem token_of_verifyWith {result : ContinuationClaims}
    (h : verifyWith key start continuation nowMs = .ok result) :
    ∃ claims, SignedBy key start continuation claims ∧ Current claims nowMs ∧
      result = { claims with p := normalizeReturnPath claims.p } := by
  simp only [verifyWith, bind_eq_ok, ofOption_eq_ok, ensure_eq_ok, exists_const] at h
  obtain ⟨raw, hraw, ⟨encoded, signatureHex⟩, hsplit, ⟨-, hhex⟩, payload, hpayload, signature,
    hsignature, rfl, json, -, claims, -, hclaims⟩ := h
  obtain ⟨rfl, hcurrent, rfl⟩ := validateClaims_eq_ok.mp hclaims
  obtain ⟨rfl, -⟩ := splitOnce_eq_some.mp hsplit
  have hlower : ∀ c ∈ signatureHex, c ∈ lowerHexDigits :=
    fun c hc => mem_lowerHexDigits (hhex.2 c hc)
  refine ⟨claims, ?_, hcurrent, rfl⟩
  rw [SignedBy, token, base64Encode_decode hpayload, hexEncode_decode hlower hsignature,
    List.append_assoc, ← stripPrefix?_eq_some.mp hraw, String.ofList_toList]

end Tokens

end YardContracts

end BlobYard
