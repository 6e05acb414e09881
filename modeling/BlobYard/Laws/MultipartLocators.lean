/-
The room for multipart locators.

The key, the provider's identifier, the text and the column of the repository each have a limit of
their own.  What is written always fits: it is read back, and the repository stores it.

* `decodeKeyLength_ne_panicked` — no bytes are cut beyond their end;
* `validateProviderUploadId_wire` — the column takes every locator that is written;
* `multipartLocator_law` — writing and reading are inverse to each other.
-/
import BlobYard.Repository.Transfers
import BlobYard.Storage.S3Locator

namespace BlobYard

namespace MultipartLocator

open Outcome

variable {key : StorageKey} {uploadId : String}

/-- The cut is made only where there are two bytes. -/
theorem decodeKeyLength_ne_panicked (bytes : List UInt8) :
    decodeKeyLength bytes ≠ .error .panicked := by
  rw [decodeKeyLength]
  by_cases hlength : 2 ≤ bytes.length
  · simp [ensure, ofOption, hlength, bind, Except.bind, pure, Except.pure]
  · simp [ensure, hlength, bind, Except.bind]

/-- None of the other steps of reading can panic. -/
theorem decode_ne_panicked [Base64] (value : String) : decode value ≠ .error .panicked := by
  have hkey : ∀ name : String, (StorageKey.new name).mapError Abort.error ≠ .error .panicked := by
    intro name
    cases StorageKey.new name <;> nofun
  intro hpanic
  simp only [decode, bind_eq_error, ofOption_eq_error, ensure_eq_error, reduceCtorEq, and_false,
    false_or, decodeKeyLength_ne_panicked, hkey] at hpanic
  obtain ⟨_, -, _, -, _, -, _, -, _, -, _, -, _, -, _, -, hpure⟩ := hpanic
  exact absurd hpure (by nofun)

/-- A locator is of printable characters. -/
theorem locator_bounds [Base64] {c : Char} {bytes : List UInt8}
    (hc : c ∈ locatorPrefix ++ base64Encode bytes) : 32 < c.toNat ∧ c.toNat < 127 := by
  have hprefix : ∀ c ∈ locatorPrefix, 32 < c.toNat ∧ c.toNat < 127 := by decide
  rcases List.mem_append.mp hc with hc | hc
  · exact hprefix c hc
  · exact base64Alphabet_bounds (base64Encode_mem bytes c hc)

/-- The column takes every locator that is written. -/
theorem validateProviderUploadId_wire [Base64] (h : ValidProviderId uploadId) :
    validateProviderUploadId
      (String.ofList (locatorPrefix ++ base64Encode (wire key uploadId))) = .ok () := by
  obtain ⟨-, hfits⟩ := encoded_fits key h
  have hsize : (String.ofList (locatorPrefix ++ base64Encode (wire key uploadId))).utf8ByteSize ≤
      3421 := by
    rw [String.ofList_append, String.utf8ByteSize_append]
    have hprefix : (String.ofList locatorPrefix).utf8ByteSize = 5 := by decide
    omega
  refine ensure_eq_ok.mpr ⟨?_, by omega, ?_⟩
  · intro hempty
    have hnil := congrArg String.toList hempty
    rw [String.toList_ofList] at hnil
    exact absurd hnil (List.append_ne_nil_of_left_ne_nil (by decide) _)
  · intro c hc
    rw [String.toList_ofList] at hc
    obtain ⟨hleast, hmost⟩ := locator_bounds hc
    simp only [isControl, Bool.or_eq_false_iff, Bool.and_eq_false_iff, decide_eq_false_iff_not]
    omega

/-- **Locators of multipart uploads.**  For every key and every identifier that `encode` accepts,
the text is read back as this key and this identifier, and it is an identifier that the repository
stores.  Reading never panics, and a text that is read is the one `encode` writes for what was
read. -/
theorem multipartLocator_law [Base64] :
    (∀ (key : StorageKey) (uploadId text : String), encode key uploadId = .ok text →
      decode text = .ok { key, uploadId } ∧ validateProviderUploadId text = .ok ()) ∧
    ∀ text : String, decode text ≠ .error .panicked ∧
      ∀ locator, decode text = .ok locator → encode locator.key locator.uploadId = .ok text := by
  refine ⟨?_, fun text => ⟨decode_ne_panicked text, fun locator h => ?_⟩⟩
  · intro key uploadId text h
    obtain ⟨hid, rfl⟩ := encode_eq_ok.mp h
    exact ⟨decode_of_wire hid, validateProviderUploadId_wire hid⟩
  · exact encode_eq_ok.mpr (wire_of_decode h)

/-! ### A locator -/

attribute [local instance] urlSafeBase64

theorem locator_read :
    encode { asStr := "a", valid := by decide } "id" = .ok "s3v1.AAFhaWQ" ∧
      decode "s3v1.AAFhaWQ" =
        .ok { key := { asStr := "a", valid := by decide }, uploadId := "id" } := by
  have hencode : encode { asStr := "a", valid := by decide } "id" = .ok "s3v1.AAFhaWQ" := by decide
  exact ⟨hencode, (multipartLocator_law.1 _ _ _ hencode).1⟩

end MultipartLocator

end BlobYard
