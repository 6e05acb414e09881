/-
Continuations round-trip.

A token that is issued brings back the host label and the path until it expires, where a path that
the repository would not take has become the root.  A token that is accepted is the one that would
be written for its claims.

* `issueUntil_eq_ok` — the tokens that are issued;
* `verifyWith_issueUntil` — what verification gives for them;
* `continuation_law` — issuing and verifying, for both kinds of tokens;
* `returnPath_replaced` — a path to another host does not come back.
-/
import BlobYard.Server.YardContracts

namespace BlobYard

namespace YardContracts

open Outcome

section Issuing

variable [Hex] {key : Bytes} {start : List Char} {hostLabel returnPath : String}
  {nowMs expiresAtMs : ℕ} {nonce : Uuid} {continuation : SecretString}

/-- The claims that are issued. -/
def issuedClaims (hostLabel returnPath : String) (expiresAtMs : ℕ) (nonce : Uuid) :
    ContinuationClaims where
  e := expiresAtMs
  h := hostLabel
  n := String.ofList (hexEncode nonce.1)
  p := normalizeReturnPath returnPath
  v := version

theorem current_issuedClaims (hhost : ValidHostLabel hostLabel) (hnow : nowMs < expiresAtMs) :
    Current (issuedClaims hostLabel returnPath expiresAtMs nonce) nowMs where
  version := rfl
  unexpired := hnow
  host := hhost
  nonce := by
    have hlower := isLowerHex_hexEncode nonce.1
    rw [nonce.2] at hlower
    rwa [issuedClaims, String.toList_ofList]

variable [Hmac] [Base64]

theorem issueUntil_eq_ok [JsonWriter] :
    issueUntil key start hostLabel returnPath expiresAtMs nonce = .ok continuation ↔
      ValidHostLabel hostLabel ∧ SignedBy key start continuation
        (issuedClaims hostLabel returnPath expiresAtMs nonce) := by
  simp only [issueUntil, bind_eq_ok, ensure_eq_ok, mapError_eq_ok, SecretString.new_eq_ok,
    exists_const]
  rfl

/-- Until it expires, a token that is issued brings back its claims. -/
theorem verifyWith_issueUntil [JsonReader] (hexpires : expiresAtMs ≤ u64Max)
    (hnow : nowMs < expiresAtMs)
    (h : issueUntil key start hostLabel returnPath expiresAtMs nonce = .ok continuation) :
    verifyWith key start continuation nowMs =
      .ok (issuedClaims hostLabel returnPath expiresAtMs nonce) := by
  obtain ⟨hhost, hsigned⟩ := issueUntil_eq_ok.mp h
  rw [verifyWith_token hexpires (current_issuedClaims hhost hnow) hsigned, issuedClaims,
    normalizeReturnPath_idem]

end Issuing

/-- **Continuations round-trip.**  Until it expires, a token that is issued, for a login or for an
invitation, is verified with the same key and gives back the host label and the path, which is the
root when the repository would not take the path.  A token that is verified is the signed and
canonical text of its claims.  And the repository takes every path that comes out. -/
theorem continuation_law [Digest] [Hmac] [Base64] [Hex] [JsonReader] (key : Bytes) :
    (∀ hostLabel returnPath nowMs nonce continuation,
      issue key hostLabel returnPath nowMs nonce = .ok continuation →
      ∀ laterMs < nowMs + continuationLifetimeMs,
        ∃ claims, verify key continuation laterMs = .ok claims ∧ claims.hostLabel = hostLabel ∧
          claims.returnPath = if ValidReturnPath returnPath then returnPath else "/") ∧
    (∀ hostLabel returnPath nowMs expiresAtMs nonce continuation, expiresAtMs ≤ u64Max →
      issueInvitation key hostLabel returnPath nowMs expiresAtMs nonce = .ok continuation →
      ∀ laterMs < expiresAtMs,
        ∃ claims, verifyInvitation key continuation laterMs = .ok claims ∧
          claims.hostLabel = hostLabel ∧
          claims.returnPath = if ValidReturnPath returnPath then returnPath else "/") ∧
    (∀ continuation nowMs claims, verify key continuation nowMs = .ok claims →
      ∃ content, SignedBy key continuationPrefix continuation content ∧
        claims = { content with p := normalizeReturnPath content.p }) ∧
    (∀ continuation nowMs claims, verifyInvitation key continuation nowMs = .ok claims →
      ∃ content,
        SignedBy (invitationKey key) invitationContinuationPrefix continuation content ∧
        claims = { content with p := normalizeReturnPath content.p }) ∧
    ∀ path, ValidReturnPath (normalizeReturnPath path) := by
  refine ⟨?_, ?_, ?_, ?_, validReturnPath_normalize⟩
  · intro hostLabel returnPath nowMs nonce continuation h laterMs hlater
    simp only [issue, bind_eq_ok, ofOption_eq_ok, checkedAdd_eq_some] at h
    obtain ⟨_, ⟨rfl, hfits⟩, hissue⟩ := h
    exact ⟨_, verifyWith_issueUntil hfits hlater hissue, rfl, normalizeReturnPath_eq returnPath⟩
  · intro hostLabel returnPath nowMs expiresAtMs nonce continuation hfits h laterMs hlater
    simp only [issueInvitation, bind_eq_ok, ensure_eq_ok, exists_const] at h
    exact ⟨_, verifyWith_issueUntil hfits hlater h.2, rfl, normalizeReturnPath_eq returnPath⟩
  · intro continuation nowMs claims h
    obtain ⟨content, hsigned, -, hclaims⟩ := token_of_verifyWith h
    exact ⟨content, hsigned, hclaims⟩
  · intro continuation nowMs claims h
    obtain ⟨content, hsigned, -, hclaims⟩ := token_of_verifyWith h
    exact ⟨content, hsigned, hclaims⟩

/-- A short token is a secret. -/
theorem valid_token [Base64] [Hex] {start : List Char} {payload signature : Bytes}
    (hstart : start ≠ [] ∧ ∀ c ∈ start, 32 < c.toNat ∧ c.toNat < 127)
    (hsize : start.length + ((4 * payload.length + 2) / 3 + (1 + 2 * signature.length)) ≤
      maximumSecretBytes) :
    token start payload signature ≠ "" ∧
      (token start payload signature).utf8ByteSize ≤ maximumSecretBytes ∧
      ∀ c ∈ (token start payload signature).toList, isControl c = false := by
  have hbounds : ∀ c ∈ start ++ base64Encode payload ++ '.' :: hexEncode signature,
      32 < c.toNat ∧ c.toNat < 127 := by
    have hhex : ∀ c ∈ lowerHexDigits, 32 < c.toNat ∧ c.toNat < 127 := by decide
    intro c hc
    rcases List.mem_append.mp hc with hc | hc
    · rcases List.mem_append.mp hc with hc | hc
      · exact hstart.2 c hc
      · exact base64Alphabet_bounds (base64Encode_mem payload c hc)
    · rcases List.mem_cons.mp hc with rfl | hc
      · decide
      · exact hhex c (hexEncode_lower signature c hc)
  refine ⟨?_, ?_, ?_⟩
  · intro hempty
    have hnil := congrArg String.toList hempty
    rw [token, String.toList_ofList, List.append_assoc] at hnil
    exact hstart.1 (List.append_eq_nil_iff.mp hnil).1
  · rw [token, utf8ByteSize_eq, String.toList_ofList,
      utf8Len_eq_length fun c hc => (hbounds c hc).2.trans (by decide), List.length_append,
      List.length_append, length_base64Encode, List.length_cons, length_hexEncode]
    omega
  · intro c hc
    rw [token, String.toList_ofList] at hc
    have hc := hbounds c hc
    simp only [isControl, Bool.or_eq_false_iff, Bool.and_eq_false_iff, decide_eq_false_iff_not]
    omega

/-! ### Samples -/

/-- The digest of the key of zeros for invitations. -/
@[reducible] def sampleDigest : Digest where
  sha256 _ :=
    { asStr := "a3bd0def770ff736c06e7f2c74d3df0611e90fb73423c44d9cfd06e5c161c66f"
      valid := by decide }

/-- The signature, with the key of zeros, of the claims to go on at the root. -/
def rootSignature : Bytes :=
  [0x4f, 0xfd, 0x25, 0xd1, 0x81, 0x56, 0xc7, 0x41, 0xb5, 0x6b, 0xa6, 0x40, 0xe9, 0x8b, 0x8d, 0xb9,
    0x53, 0x09, 0xd0, 0x62, 0x2b, 0xd7, 0x6a, 0x70, 0xe0, 0x5f, 0xd1, 0x78, 0x30, 0x6d, 0xd2, 0x1c]

/-- The signature, with the same key, of the claims to go on at the guide. -/
def guideSignature : Bytes :=
  [0xf2, 0xfa, 0xf7, 0xa6, 0x98, 0x24, 0xa5, 0x4e, 0xce, 0xe2, 0x5f, 0x68, 0xcb, 0x87, 0xa2, 0x79,
    0xa2, 0x5f, 0xc3, 0x4c, 0xf9, 0x16, 0x06, 0xa2, 0x13, 0xbb, 0x37, 0xdb, 0x6c, 0xd8, 0xa5, 0x40]

/-- The claims to go on at the root are 96 bytes, those to go on at the guide are more. -/
@[reducible] def sampleHmac : Hmac where
  sign _ message := if message.length = 96 then rootSignature else guideSignature
  length_sign _ message := by
    split
    · rfl
    · rfl

attribute [local instance] sampleDigest sampleHmac urlSafeBase64 hexDigits compactReader

def sampleKey : Bytes := List.replicate 32 0

def sampleNonce : Uuid := ⟨List.replicate 16 0, rfl⟩

def sampleHost : String := "docs-a1b2c3d4e-workspace"

/-- What is signed to go on at a path. -/
def samplePayload (returnPath : String) : Bytes :=
  serializeClaims (issuedClaims sampleHost returnPath 600100 sampleNonce)

/-- The token to go on at a path. -/
def sampleToken (returnPath : String) (h : (samplePayload returnPath).length ≤ 112) :
    SecretString where
  exposeSecret := token continuationPrefix (samplePayload returnPath)
    (Hmac.sign sampleKey (samplePayload returnPath))
  valid := by
    have hstart : continuationPrefix.length = 4 := by decide
    have hlimit : maximumSecretBytes = 16384 := rfl
    refine valid_token (by decide) ?_
    rw [Hmac.length_sign, hstart, hlimit]
    omega

def guidePath : String := "/docs/guide?tab=2"

def guideToken : SecretString := sampleToken guidePath (by decide +kernel)

def rootToken : SecretString := sampleToken "/" (by decide +kernel)

/-- Two paths that become the same are issued the same token. -/
theorem issueUntil_sample {returnPath kept : String}
    (hkept : normalizeReturnPath returnPath = normalizeReturnPath kept)
    (hlength : (samplePayload kept).length ≤ 112) :
    issueUntil sampleKey continuationPrefix sampleHost returnPath 600100 sampleNonce =
      .ok (sampleToken kept hlength) := by
  have hclaims : issuedClaims sampleHost returnPath 600100 sampleNonce =
      issuedClaims sampleHost kept 600100 sampleNonce := by
    rw [issuedClaims, issuedClaims, hkept]
  refine issueUntil_eq_ok.mpr ⟨by decide, ?_⟩
  rw [hclaims]
  rfl

theorem issue_sample {returnPath kept : String}
    (hkept : normalizeReturnPath returnPath = normalizeReturnPath kept)
    (hlength : (samplePayload kept).length ≤ 112) :
    issue sampleKey sampleHost returnPath 100 sampleNonce = .ok (sampleToken kept hlength) := by
  have hexpires : checkedAdd 100 continuationLifetimeMs = some 600100 := by decide
  simp only [issue, bind_eq_ok, ofOption_eq_ok]
  exact ⟨600100, hexpires, issueUntil_sample hkept hlength⟩

/-- A login that goes on at the guide, until its last millisecond. -/
theorem continuation_guide :
    issue sampleKey sampleHost guidePath 100 sampleNonce = .ok guideToken ∧
      ∃ claims, verify sampleKey guideToken 600099 = .ok claims ∧ claims.hostLabel = sampleHost ∧
        claims.returnPath = guidePath := by
  have hissue : issue sampleKey sampleHost guidePath 100 sampleNonce = .ok guideToken :=
    issue_sample rfl _
  have hvalid : ValidReturnPath guidePath := by decide
  obtain ⟨claims, hverify, hhost, hpath⟩ :=
    (continuation_law sampleKey).1 _ _ _ _ _ hissue 600099 (by decide)
  rw [if_pos hvalid] at hpath
  exact ⟨hissue, claims, hverify, hhost, hpath⟩

/-- A path to another host does not come back. -/
theorem returnPath_replaced :
    issue sampleKey sampleHost "//elsewhere.example" 100 sampleNonce = .ok rootToken ∧
      ∃ claims, verify sampleKey rootToken 101 = .ok claims ∧
        claims.returnPath ≠ "//elsewhere.example" := by
  have hpath : normalizeReturnPath "//elsewhere.example" = normalizeReturnPath "/" := by decide
  have hverify : verify sampleKey rootToken 101 =
      .ok (issuedClaims sampleHost "//elsewhere.example" 600100 sampleNonce) :=
    verifyWith_issueUntil (by decide) (by decide) (issueUntil_sample hpath _)
  refine ⟨issue_sample hpath _, _, hverify, ?_⟩
  show normalizeReturnPath "//elsewhere.example" ≠ "//elsewhere.example"
  rw [hpath]
  decide

end YardContracts

end BlobYard
