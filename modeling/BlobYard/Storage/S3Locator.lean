/-
The locators of multipart uploads in S3.

A provider identifies a multipart upload by a key and an identifier of its own.  Both go into one
text: the length of the key in two bytes, the key and the identifier, in base64 behind a prefix.

* `MultipartLocator.encode`, `MultipartLocator.decode` — writing and reading;
* `encode_eq_ok`, `decode_of_wire`, `wire_of_decode` — the texts that are written and read.
-/
import BlobYard.Contract.Numbers
import BlobYard.Lib.Base64
import BlobYard.Lib.Outcome
import BlobYard.Lib.Radix
import BlobYard.Lib.Splitting

namespace BlobYard

open Outcome

structure MultipartLocator where
  key : StorageKey
  uploadId : String
  deriving DecidableEq

namespace MultipartLocator

/-- `PREFIX`. -/
def locatorPrefix : List Char := "s3v1.".toList

def maxProviderIdBytes : ℕ := 2048

def maxEncodedBytes : ℕ := 4096

/-- A provider identifier: not empty, of at most 2048 bytes, without control characters. -/
def ValidProviderId (value : String) : Prop :=
  value ≠ "" ∧ value.utf8ByteSize ≤ maxProviderIdBytes ∧ ∀ c ∈ value.toList, isControl c = false

instance (value : String) : Decidable (ValidProviderId value) :=
  inferInstanceAs (Decidable (_ ∧ _ ∧ _))

/-- `u16::try_from`. -/
def encodeKeyLength (length : ℕ) : Except StorageError ℕ := do
  ensure (length < 2 ^ 16) .invalidInput
  pure length

/-- The bytes behind the prefix. -/
def wire (key : StorageKey) (uploadId : String) : List UInt8 :=
  toBeBytes 2 (utf8Bytes key.asStr.toList).length ++ utf8Bytes key.asStr.toList ++
    utf8Bytes uploadId.toList

def encode [Base64] (key : StorageKey) (uploadId : String) : Except StorageError String := do
  ensure (ValidProviderId uploadId) .invalidInput
  let _ ← encodeKeyLength (utf8Bytes key.asStr.toList).length
  pure (String.ofList (locatorPrefix ++ base64Encode (wire key uploadId)))

/-- The length in the first two bytes, and the others; a slice beyond the end would panic. -/
def decodeKeyLength (wire : List UInt8) : Except (Abort StorageError) (ℕ × List UInt8) := do
  ensure (2 ≤ wire.length) (.error .invalidInput)
  let payload ← ofOption .panicked (if 2 ≤ wire.length then some (wire.drop 2) else none)
  pure (unsigned (wire.take 2), payload)

def decode [Base64] (value : String) : Except (Abort StorageError) MultipartLocator := do
  let encoded ← ofOption (.error .invalidInput)
    ((stripPrefix? locatorPrefix value.toList).filter fun encoded =>
      encoded ≠ [] ∧ (String.ofList encoded).utf8ByteSize ≤ maxEncodedBytes)
  let wire ← ofOption (.error .invalidInput) (base64Decode encoded)
  let (keyLength, payload) ← decodeKeyLength wire
  ensure (keyLength ≤ payload.length) (.error .invalidInput)
  let key ← ofOption (.error .invalidInput) (utf8Text? (payload.take keyLength))
  let uploadId ← ofOption (.error .invalidInput) (utf8Text? (payload.drop keyLength))
  ensure (ValidProviderId (String.ofList uploadId)) (.error .invalidInput)
  let key ← (StorageKey.new (String.ofList key)).mapError .error
  pure { key, uploadId := String.ofList uploadId }

/-! ### What is written and read -/

variable {key : StorageKey} {uploadId value : String}

theorem length_keyBytes (key : StorageKey) : (utf8Bytes key.asStr.toList).length ≤ 512 := by
  have hsize := key.valid.2.1
  rwa [utf8ByteSize_eq, ← length_utf8Bytes] at hsize

theorem length_wire (key : StorageKey) (h : ValidProviderId uploadId) :
    2 ≤ (wire key uploadId).length ∧ (wire key uploadId).length ≤ 2562 := by
  have hkey := length_keyBytes key
  have hid : (utf8Bytes uploadId.toList).length ≤ maxProviderIdBytes := by
    rw [length_utf8Bytes, ← utf8ByteSize_eq]
    exact h.2.1
  rw [wire, List.length_append, List.length_append, length_toBeBytes]
  rw [maxProviderIdBytes] at hid
  omega

/-- The key always fits into the two bytes of its length. -/
theorem encode_eq_ok [Base64] :
    encode key uploadId = .ok value ↔
      ValidProviderId uploadId ∧
        value = String.ofList (locatorPrefix ++ base64Encode (wire key uploadId)) := by
  have hkey := length_keyBytes key
  simp only [encode, encodeKeyLength, bind_eq_ok, ensure_eq_ok, pure_eq_ok, exists_const]
  constructor
  · rintro ⟨hid, -, -, rfl⟩
    exact ⟨hid, rfl⟩
  · rintro ⟨hid, rfl⟩
    exact ⟨hid, _, ⟨by omega, rfl⟩, rfl⟩

theorem wire_split (key : StorageKey) (uploadId : String) :
    (wire key uploadId).take 2 = toBeBytes 2 (utf8Bytes key.asStr.toList).length ∧
      (wire key uploadId).drop 2 = utf8Bytes key.asStr.toList ++ utf8Bytes uploadId.toList := by
  rw [wire, List.append_assoc]
  exact ⟨List.take_left' (length_toBeBytes 2 _), List.drop_left' (length_toBeBytes 2 _)⟩

theorem unsigned_keyLength (key : StorageKey) :
    unsigned (toBeBytes 2 (utf8Bytes key.asStr.toList).length) =
      (utf8Bytes key.asStr.toList).length := by
  have hkey := length_keyBytes key
  exact unsigned_toBeBytes (by omega)

theorem decodeKeyLength_eq_ok {bytes payload : List UInt8} {length : ℕ} :
    decodeKeyLength bytes = .ok (length, payload) ↔
      2 ≤ bytes.length ∧ length = unsigned (bytes.take 2) ∧ payload = bytes.drop 2 := by
  simp only [decodeKeyLength, bind_eq_ok, ensure_eq_ok, ofOption_eq_ok, pure_eq_ok,
    Option.ite_none_right_eq_some, Option.some.injEq, Prod.mk.injEq, exists_const]
  constructor
  · rintro ⟨hlength, _, ⟨-, rfl⟩, rfl, rfl⟩
    exact ⟨hlength, rfl, rfl⟩
  · rintro ⟨hlength, rfl, rfl⟩
    exact ⟨hlength, _, ⟨hlength, rfl⟩, rfl, rfl⟩

/-- What is behind the prefix of a locator is not too long. -/
theorem encoded_fits [Base64] (key : StorageKey) (h : ValidProviderId uploadId) :
    base64Encode (wire key uploadId) ≠ [] ∧
      (String.ofList (base64Encode (wire key uploadId))).utf8ByteSize ≤ 3416 := by
  obtain ⟨hleast, hmost⟩ := length_wire key h
  constructor
  · intro hnil
    have hlength := length_base64Encode (wire key uploadId)
    rw [hnil, List.length_nil] at hlength
    omega
  · rw [utf8ByteSize_base64Encode]
    omega

/-- The locators that are written are read. -/
theorem decode_of_wire [Base64] (h : ValidProviderId uploadId) :
    decode (String.ofList (locatorPrefix ++ base64Encode (wire key uploadId))) =
      .ok { key, uploadId } := by
  obtain ⟨hne, hfits⟩ := encoded_fits key h
  obtain ⟨hleast, -⟩ := length_wire key h
  obtain ⟨htake, hdrop⟩ := wire_split key uploadId
  have hstrip : (stripPrefix? locatorPrefix
      (String.ofList (locatorPrefix ++ base64Encode (wire key uploadId))).toList) =
        some (base64Encode (wire key uploadId)) := by
    rw [String.toList_ofList]
    exact stripPrefix?_eq_some.mpr rfl
  have hkey : StorageKey.new (String.ofList key.asStr.toList) = .ok key :=
    StorageKey.new_eq_ok.mpr String.ofList_toList.symm
  simp only [decode, bind_eq_ok, ofOption_eq_ok, ensure_eq_ok, pure_eq_ok, exists_const]
  refine ⟨_, ?_, _, base64Decode_encode _, (_, _),
    decodeKeyLength_eq_ok.mpr ⟨hleast, rfl, rfl⟩, ?_⟩
  · rw [hstrip, Option.filter_some, if_pos]
    rw [maxEncodedBytes, decide_eq_true_eq]
    exact ⟨hne, by omega⟩
  · rw [htake, unsigned_keyLength, hdrop, List.take_left, List.drop_left]
    refine ⟨?_, _, utf8Text?_eq_some.mpr rfl, _, utf8Text?_eq_some.mpr rfl, ?_, key, ?_, ?_⟩
    · rw [List.length_append]
      exact Nat.le_add_right _ _
    · rwa [String.ofList_toList]
    · rw [hkey]
      rfl
    · rw [String.ofList_toList]

/-- And nothing else is read. -/
theorem wire_of_decode [Base64] {locator : MultipartLocator} (h : decode value = .ok locator) :
    ValidProviderId locator.uploadId ∧
      value =
        String.ofList (locatorPrefix ++ base64Encode (wire locator.key locator.uploadId)) := by
  simp only [decode, bind_eq_ok, ofOption_eq_ok, ensure_eq_ok, pure_eq_ok, exists_const] at h
  obtain ⟨encoded, hencoded, bytes, hbytes, ⟨keyLength, payload⟩, hlength, hroom, keyText, hkeyText,
    idText, hidText, hid, key, hkey, rfl⟩ := h
  obtain ⟨hleast, rfl, rfl⟩ := decodeKeyLength_eq_ok.mp hlength
  obtain ⟨hstrip, -⟩ := Option.filter_eq_some_iff.mp hencoded
  have hvalue := stripPrefix?_eq_some.mp hstrip
  have hkey' : key.asStr = String.ofList keyText :=
    StorageKey.new_eq_ok.mp (mapError_eq_ok.mp hkey)
  have hlengthBytes : (utf8Bytes keyText).length = unsigned (bytes.take 2) := by
    rw [utf8Text?_eq_some.mp hkeyText]
    exact List.length_take_of_le hroom
  have hprefix : toBeBytes 2 (utf8Bytes keyText).length = bytes.take 2 := by
    have htwo : (bytes.take 2).length = 2 := List.length_take_of_le hleast
    have hbytes := toBeBytes_unsigned (bytes.take 2)
    rwa [htwo, ← hlengthBytes] at hbytes
  have hwire : wire key (String.ofList idText) = bytes := by
    rw [wire, hkey', String.toList_ofList, String.toList_ofList, hprefix,
      utf8Text?_eq_some.mp hkeyText, utf8Text?_eq_some.mp hidText, List.append_assoc,
      List.take_append_drop, List.take_append_drop]
  refine ⟨hid, ?_⟩
  rw [hwire, base64Encode_decode hbytes, ← hvalue, String.ofList_toList]

end MultipartLocator

end BlobYard
