/-
Cutting a length into chunks.

All chunks but the last have the same size, and the last has what is left.

* `chunkCount`, `chunkSize` — how many chunks there are, and the size of each;
* `lt_chunkCount_iff` — a chunk is there if it starts before the end;
* `sum_chunkSize` — the sizes add up to the length;
* `existsUnique_chunk` — every position is in exactly one chunk.
-/
import Mathlib.Algebra.BigOperators.Intervals
import Mathlib.Tactic.Ring

namespace BlobYard

open Finset

/-- The number of chunks of the size that cover the length. -/
def chunkCount (total size : ℕ) : ℕ := (total + size - 1) / size

/-- The size of the chunk with the index. -/
def chunkSize (total size index : ℕ) : ℕ := min (total - index * size) size

section Chunks

variable {total size : ℕ}

/-- A chunk is there if and only if it starts before the end. -/
theorem lt_chunkCount_iff (hsize : 0 < size) {index : ℕ} :
    index < chunkCount total size ↔ index * size < total := by
  rw [chunkCount, Nat.lt_iff_add_one_le, Nat.le_div_iff_mul_le hsize, Nat.add_mul]
  omega

theorem chunkSize_le {index : ℕ} : chunkSize total size index ≤ size := Nat.min_le_right _ _

theorem chunkSize_pos (hsize : 0 < size) {index : ℕ} (h : index < chunkCount total size) :
    0 < chunkSize total size index := by
  have hstart := (lt_chunkCount_iff hsize).mp h
  rw [chunkSize]
  omega

/-- The first chunks cover the length as far as they reach. -/
theorem sum_range_chunkSize (count : ℕ) :
    ∑ index ∈ range count, chunkSize total size index = min total (count * size) := by
  induction count with
  | zero => simp
  | succ count ih =>
    have hnext : (count + 1) * size = count * size + size := by ring
    rw [sum_range_succ, ih, chunkSize, hnext]
    omega

/-- The sizes of all chunks add up to the length. -/
theorem sum_chunkSize (hsize : 0 < size) :
    ∑ index ∈ range (chunkCount total size), chunkSize total size index = total := by
  have hcover : total ≤ chunkCount total size * size := by
    by_contra hlt
    have hnext := (lt_chunkCount_iff hsize).mpr (Nat.lt_of_not_le hlt)
    exact lt_irrefl _ hnext
  rw [sum_range_chunkSize, Nat.min_eq_left hcover]

/-- The position is between the start and the end of the chunk. -/
def InChunk (total size index position : ℕ) : Prop :=
  index * size ≤ position ∧ position < index * size + chunkSize total size index

/-- Every position is in exactly one chunk. -/
theorem existsUnique_chunk (hsize : 0 < size) {position : ℕ} (h : position < total) :
    ∃! index, index < chunkCount total size ∧ InChunk total size index position := by
  have hdiv : position / size * size + position % size = position := by
    rw [Nat.mul_comm]
    exact Nat.div_add_mod position size
  have hmod := Nat.mod_lt position hsize
  refine ⟨position / size, ⟨(lt_chunkCount_iff hsize).mpr (by omega), ?_⟩, ?_⟩
  · rw [InChunk, chunkSize]
    omega
  · rintro index ⟨-, hstart, hend⟩
    rw [chunkSize] at hend
    have hlow : index ≤ position / size := (Nat.le_div_iff_mul_le hsize).mpr hstart
    have hhigh : position / size < index + 1 := by
      rw [Nat.div_lt_iff_lt_mul hsize, Nat.add_mul]
      omega
    omega

end Chunks

end BlobYard
