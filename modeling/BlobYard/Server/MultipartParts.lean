/-
The part endpoint.

* `partSize` — the size that the endpoint expects of a part;
* `buildGrants` — the grants of a batch of part numbers, each number once and within the
  count of the reservation.  The hash of a part's capability is left to `capabilityHash`.
-/
import BlobYard.Repository.Transfers
import BlobYard.Server.Objects

namespace BlobYard

namespace Multipart

open Outcome

def partSize (total size number : ℕ) : ℕ :=
  min (saturatingSub total (saturatingMul (number - 1) size)) size

/-- One turn of the loop of `build_grants`; `unique` holds the numbers before. -/
def buildGrant (capabilityHash : ℕ → String) (upload : UploadReservationRecord)
    (size count : ℕ) (unique : List ℕ) (number : ℕ) : Except ApiError NewUploadPartGrant := do
  ensure (number ≠ 0 ∧ number ≤ count ∧ number ∉ unique) .invalidRequest
  return {
    uploadId := upload.id
    partNumber := number
    expectedSize := partSize upload.expectedSize size number
    capabilityHash := capabilityHash number
    expiresAtMs := upload.expiresAtMs }

/-- The loop of `build_grants`. -/
def buildEach (capabilityHash : ℕ → String) (upload : UploadReservationRecord)
    (size count : ℕ) : List ℕ → List ℕ → Except ApiError (List NewUploadPartGrant)
  | _, [] => .ok []
  | unique, number :: rest => do
    let grant ← buildGrant capabilityHash upload size count unique number
    let grants ← buildEach capabilityHash upload size count (number :: unique) rest
    return grant :: grants

def buildGrants (capabilityHash : ℕ → String) (upload : UploadReservationRecord)
    (numbers : List ℕ) (nowMs : ℕ) : Except ApiError (List NewUploadPartGrant) := do
  let count ← ofOption .conflict upload.partCount
  let size ← ofOption .conflict upload.partSize
  ensure (upload.strategy = .multipart ∧ upload.providerUploadId.isSome ∧
    nowMs < upload.expiresAtMs) .conflict
  ensure (numbers ≠ [] ∧ numbers.length ≤ 100) .invalidRequest
  buildEach capabilityHash upload size count [] numbers

/-- Every grant of a batch asks for the size of its part. -/
theorem expectedSize_of_buildEach {capabilityHash : ℕ → String}
    {upload : UploadReservationRecord} {size count : ℕ} {unique numbers : List ℕ}
    {grants : List NewUploadPartGrant}
    (h : buildEach capabilityHash upload size count unique numbers = .ok grants) :
    ∀ grant ∈ grants, grant.partNumber ≠ 0 ∧ grant.partNumber ≤ count ∧
      grant.expectedSize = partSize upload.expectedSize size grant.partNumber := by
  induction numbers generalizing unique grants with
  | nil =>
    obtain rfl := Except.ok.inj h
    simp
  | cons number rest ih =>
    simp only [buildEach, buildGrant, bind_eq_ok, ensure_eq_ok, pure_eq_ok] at h
    obtain ⟨grant, ⟨_, ⟨hzero, hcount, -⟩, rfl⟩, grants', hrest, rfl⟩ := h
    exact List.forall_mem_cons.mpr ⟨⟨hzero, hcount, rfl⟩, ih hrest⟩

end Multipart

end BlobYard
