/-
The parts of an upload, counted and measured in three places.

A multipart reservation has the size of the upload, the size of a part and the number of
parts.  The repository checks the number when it accepts the reservation, and the size of
a part when it records the part's grant; the server computes the size of a part for its
grants; the client computes the number, and the range of the file to send for each part.

The client refuses part sizes below 8 MiB, which the repository accepts; on all others the
three agree, and nothing leaves the range of its integer type.

* `PartAt` — the part is the same range of the file in all three places;
* `partAt` — every part of a valid reservation is;
* `part_arithmetic_law` — number and parts agree, and the parts tile the file.
-/
import BlobYard.Cli.UploadMath
import BlobYard.Lib.Chunks
import BlobYard.Server.MultipartParts

namespace BlobYard

open Outcome Finset

/-! ### The number of parts -/

theorem divCeil_eq_chunkCount {total size : ℕ} (hsize : 0 < size) :
    Cli.divCeil total size = chunkCount total size := by
  have hdiv : total / size * size + total % size = total := by
    rw [Nat.mul_comm]
    exact Nat.div_add_mod total size
  have hmod := Nat.mod_lt total hsize
  rw [Cli.divCeil, chunkCount]
  symm
  split
  case isTrue hzero =>
    refine Nat.div_eq_of_lt_le (by omega) ?_
    rw [Nat.add_mul]
    omega
  case isFalse hzero =>
    refine Nat.div_eq_of_lt_le ?_ ?_
    · rw [Nat.add_mul]
      omega
    · rw [Nat.add_mul, Nat.add_mul]
      omega

/-- What the validation of a multipart reservation says about its numbers. -/
theorem plan_of_valid {value : NewUploadReservation} {size count : ℕ}
    (hvalid : validateReservation value = .ok ()) (hsize : value.partSize = some size)
    (hcount : value.partCount = some count) :
    0 < size ∧ 0 < count ∧ count ≤ Cli.maxParts ∧ chunkCount value.expectedSize size = count ∧
      value.expectedSize ≤ i64Max ∧ size ≤ i64Max := by
  simp only [validateReservation, bind_eq_ok, toI64_eq_ok, ensure_eq_ok, hsize,
    Option.getD_some] at hvalid
  obtain ⟨_, -, _, -, _, -, _, -, _, -, _, hplan, _, -, _, -, _, -, _, htotal, hpart⟩ := hvalid
  rw [ValidStrategy, hsize, hcount] at hplan
  cases hstrategy : value.strategy with
  | single =>
    rw [hstrategy] at hplan
    exact hplan.elim
  | multipart =>
    rw [hstrategy] at hplan
    obtain ⟨hpos, hsome, hmany, hceil⟩ := hplan
    exact ⟨hpos, hsome, hmany, hceil, htotal, hpart⟩

/-- The client asks for the parts of the plan, unless it finds the parts too small. -/
theorem totalParts_eq {total size count : ℕ} (hpos : 0 < size) (hsome : 0 < count)
    (hmany : count ≤ Cli.maxParts) (hceil : chunkCount total size = count) :
    Cli.totalParts total size =
      if size < Cli.minPartSize then .error Cli.contractError else .ok count := by
  have hrange : ¬ (count = 0 ∨ Cli.maxParts < count) := by omega
  have hword : Cli.lowWord count = count := by
    refine Nat.mod_eq_of_lt (Nat.lt_of_le_of_lt hmany ?_)
    decide
  simp only [Cli.totalParts, divCeil_eq_chunkCount hpos, hceil, if_neg hrange, hword]

/-! ### The range of a part -/

/-- The part with the number is the range of the size at the offset, in the repository, the
server and the client, and nothing overflows. -/
structure PartAt (total size number offset length : ℕ) : Prop where
  repository : ∀ upload : UploadReservationRecord, upload.expectedSize = total →
    Repository.expectedPartSize upload number size = length
  server : Multipart.partSize total size number = length
  client : Cli.partRange number size total = some (offset, length)
  unsaturated : saturatingMul (number - 1) size = offset
  positive : 0 < length
  bounded : length ≤ size
  within : offset + length ≤ total

/-- Part `index + 1` is chunk `index` of the file. -/
theorem partAt {total size index : ℕ} (hpos : 0 < size) (htotal : total ≤ i64Max)
    (hindex : index < chunkCount total size) :
    PartAt total size (index + 1) (index * size) (chunkSize total size index) := by
  have hstart := (lt_chunkCount_iff hpos).mp hindex
  have hmax : i64Max ≤ u64Max := by decide
  have hmul : saturatingMul index size = index * size := Nat.min_eq_left (by omega)
  exact {
    repository := by
      rintro upload rfl
      rw [Repository.expectedPartSize, Nat.add_sub_cancel, hmul]
      rfl
    server := by
      rw [Multipart.partSize, Nat.add_sub_cancel, hmul]
      rfl
    client := by
      have hproduct : checkedMul index size = some (index * size) :=
        checkedMul_eq_some.mpr ⟨rfl, by omega⟩
      have hleft : checkedSub total (index * size) = some (total - index * size) :=
        checkedSub_eq_some.mpr ⟨hstart.le, rfl⟩
      have hprevious : checkedSub (index + 1) 1 = some index :=
        checkedSub_eq_some.mpr ⟨by omega, rfl⟩
      simp only [Cli.partRange, hprevious, hproduct, hleft, Option.bind_eq_bind,
        Option.bind_some]
      rfl
    unsaturated := by rw [Nat.add_sub_cancel, hmul]
    positive := chunkSize_pos hpos hindex
    bounded := chunkSize_le
    within := by
      rw [chunkSize]
      omega }

/-- The grants of the server have the sizes that the repository asks for. -/
theorem validatePart_of_buildGrants {capabilityHash : ℕ → String}
    {upload : UploadReservationRecord} {numbers : List ℕ} {nowMs : ℕ}
    {grants : List NewUploadPartGrant}
    (h : Multipart.buildGrants capabilityHash upload numbers nowMs = .ok grants) :
    ∃ size count, upload.partSize = some size ∧ upload.partCount = some count ∧
      ∀ grant ∈ grants, grant.partNumber ≠ 0 ∧ grant.partNumber ≤ count ∧
        grant.expectedSize = Repository.expectedPartSize upload grant.partNumber size := by
  simp only [Multipart.buildGrants, bind_eq_ok, ofOption_eq_ok] at h
  obtain ⟨count, hcount, size, hsize, _, -, _, -, heach⟩ := h
  exact ⟨size, count, hsize, hcount, Multipart.expectedSize_of_buildEach heach⟩

/-! ### The law -/

/-- The sizes of the parts add up to the size of the upload. -/
theorem sum_partSize {total size count : ℕ} (hpos : 0 < size) (htotal : total ≤ i64Max)
    (hceil : chunkCount total size = count) :
    ∑ number ∈ Icc 1 count, Multipart.partSize total size number = total := by
  subst hceil
  calc ∑ number ∈ Icc 1 (chunkCount total size), Multipart.partSize total size number
      = ∑ index ∈ range (chunkCount total size), Multipart.partSize total size (index + 1) := by
        rw [← Finset.Ico_add_one_right_eq_Icc, Finset.sum_Ico_eq_sum_range]
        simp only [Nat.add_sub_cancel, Nat.add_comm 1]
    _ = ∑ index ∈ range (chunkCount total size), chunkSize total size index :=
        Finset.sum_congr rfl fun index hindex =>
          (partAt hpos htotal (Finset.mem_range.mp hindex)).server
    _ = total := sum_chunkSize hpos

/-- Every position of the file is in the range of exactly one part. -/
theorem existsUnique_partRange {total size count : ℕ} (hpos : 0 < size)
    (htotal : total ≤ i64Max) (hceil : chunkCount total size = count) {position : ℕ}
    (hposition : position < total) :
    ∃! number, (1 ≤ number ∧ number ≤ count) ∧ ∃ offset length,
      Cli.partRange number size total = some (offset, length) ∧
        offset ≤ position ∧ position < offset + length := by
  subst hceil
  obtain ⟨index, ⟨hindex, hchunk⟩, hunique⟩ := existsUnique_chunk hpos hposition
  refine ⟨index + 1, ⟨⟨by omega, by omega⟩, _, _, (partAt hpos htotal hindex).client, hchunk⟩, ?_⟩
  rintro number ⟨⟨hfirst, hlast⟩, offset, length, hrange, hinside⟩
  -- a number from one is the successor of an index
  obtain ⟨other, rfl⟩ : ∃ other, number = other + 1 := ⟨number - 1, by omega⟩
  have hother : other < chunkCount total size := by omega
  rw [(partAt hpos htotal hother).client, Option.some_inj, Prod.mk.injEq] at hrange
  obtain ⟨rfl, rfl⟩ := hrange
  rw [hunique other ⟨hother, hinside⟩]

/-- The part arithmetic of every valid multipart reservation: the client asks for the parts of
the plan unless it finds them too small, the three computations of each part agree, and the
parts tile the file. -/
theorem part_arithmetic_law {value : NewUploadReservation} {size count : ℕ}
    (hvalid : validateReservation value = .ok ()) (hsize : value.partSize = some size)
    (hcount : value.partCount = some count) :
    Cli.totalParts value.expectedSize size =
        (if size < Cli.minPartSize then .error Cli.contractError else .ok count) ∧
      (value.expectedSize ≤ i64Max ∧ size ≤ i64Max ∧ count ≤ Cli.maxParts) ∧
      (∀ number, 1 ≤ number → number ≤ count →
        ∃ offset length, PartAt value.expectedSize size number offset length) ∧
      (∀ (upload : UploadReservationRecord) (capabilityHash : ℕ → String) (numbers : List ℕ)
          (nowMs : ℕ) (grants : List NewUploadPartGrant),
        upload.partSize = some size → upload.partCount = some count →
        Multipart.buildGrants capabilityHash upload numbers nowMs = .ok grants →
        ∀ grant ∈ grants, grant.partNumber ≠ 0 ∧ grant.partNumber ≤ count ∧
          grant.expectedSize = Repository.expectedPartSize upload grant.partNumber size) ∧
      (∑ number ∈ Icc 1 count, Multipart.partSize value.expectedSize size number) =
        value.expectedSize ∧
      ∀ position < value.expectedSize, ∃! number, (1 ≤ number ∧ number ≤ count) ∧
        ∃ offset length, Cli.partRange number size value.expectedSize = some (offset, length) ∧
          offset ≤ position ∧ position < offset + length := by
  obtain ⟨hpos, hsome, hmany, hceil, htotal, hpart⟩ := plan_of_valid hvalid hsize hcount
  refine ⟨totalParts_eq hpos hsome hmany hceil, ⟨htotal, hpart, hmany⟩, ?_, ?_,
    sum_partSize hpos htotal hceil,
    fun position hposition => existsUnique_partRange hpos htotal hceil hposition⟩
  · intro number hfirst hlast
    have hindex : number - 1 < chunkCount value.expectedSize size := by omega
    have hpartAt := partAt hpos htotal hindex
    rw [Nat.sub_add_cancel hfirst] at hpartAt
    exact ⟨_, _, hpartAt⟩
  · intro upload capabilityHash numbers nowMs grants huploadSize huploadCount hgrants
    obtain ⟨size', count', hsize', hcount', hall⟩ := validatePart_of_buildGrants hgrants
    rw [huploadSize, Option.some_inj] at hsize'
    rw [huploadCount, Option.some_inj] at hcount'
    subst hsize' hcount'
    exact hall

/-! ### Two reservations -/

/-- A reservation with the numbers. -/
def plannedReservation (total size count : ℕ) : NewUploadReservation where
  id := "upload"
  projectId := "project"
  objectPath := "file"
  filename := "file"
  contentType := "text/plain"
  expectedSize := total
  expectedChecksum := "0000000000000000000000000000000000000000000000000000000000000000"
  storageKey := "versions/file"
  capabilityHash := "0000000000000000000000000000000000000000000000000000000000000000"
  expiresAtMs := 2
  createdAtMs := 1
  source := .cli
  gitRepository := none
  gitCommit := none
  gitBranch := none
  strategy := .multipart
  partSize := some size
  partCount := some count

/-- The law holds of an upload of 20 MiB in parts of 8 MiB; its third part is half a part. -/
theorem twentyMegabytes_agree :
    Cli.totalParts 20971520 8388608 = .ok 3 ∧
      Cli.partRange 3 8388608 20971520 = some (16777216, 4194304) ∧
      (∑ number ∈ Icc 1 3, Multipart.partSize 20971520 8388608 number) = 20971520 :=
  have hlaw := @part_arithmetic_law (plannedReservation 20971520 8388608 3) 8388608 3
    (by decide +kernel) rfl rfl
  ⟨hlaw.1, by decide +kernel, hlaw.2.2.2.2.1⟩

/-- The repository accepts three parts of one byte; the client does not. -/
theorem smallParts_refused :
    ¬ ∀ (value : NewUploadReservation) (size count : ℕ), validateReservation value = .ok () →
      value.partSize = some size → value.partCount = some count →
      Cli.totalParts value.expectedSize size = .ok count := by
  intro hagree
  have hparts := hagree (plannedReservation 3 1 3) 1 3 (by decide +kernel) rfl rfl
  exact absurd hparts (by decide)

end BlobYard
