/-
The machine integers of the code, and calls that can panic.

Unsigned 64-bit values are natural numbers; an operation that can leave the range
says so.

* `checkedAdd`, `checkedMul`, `checkedSub` — `None` where the result does not fit;
* `saturatingMul`, `saturatingSub` — the nearest value that fits;
* `parseU64` — the integer parser;
* `Abort` — the failure of a call that may also panic.
-/
import BlobYard.Contract.Text
import BlobYard.Lib.Decimal

namespace BlobYard

/-- Why a call returns no value: its own error, or a panic. -/
inductive Abort (ε : Type) where
  | panicked
  | error (e : ε)
  deriving DecidableEq

/-- The largest unsigned 32-bit integer. -/
def u32Max : ℕ := 4294967295

/-- `u64::checked_add`. -/
def checkedAdd (a b : ℕ) : Option ℕ := if a + b ≤ u64Max then some (a + b) else none

/-- `u64::checked_mul`. -/
def checkedMul (a b : ℕ) : Option ℕ := if a * b ≤ u64Max then some (a * b) else none

/-- `checked_sub` of an unsigned type. -/
def checkedSub (a b : ℕ) : Option ℕ := if b ≤ a then some (a - b) else none

/-- `u64::saturating_mul`. -/
def saturatingMul (a b : ℕ) : ℕ := min (a * b) u64Max

/-- `saturating_sub` of an unsigned type. -/
def saturatingSub (a b : ℕ) : ℕ := a - b

@[simp] theorem checkedAdd_eq_some {a b c : ℕ} :
    checkedAdd a b = some c ↔ a + b = c ∧ a + b ≤ u64Max := by
  unfold checkedAdd
  split
  case isTrue h => simp [h]
  case isFalse h => simp [h]

@[simp] theorem checkedMul_eq_some {a b c : ℕ} :
    checkedMul a b = some c ↔ a * b = c ∧ a * b ≤ u64Max := by
  unfold checkedMul
  split
  case isTrue h => simp [h]
  case isFalse h => simp [h]

@[simp] theorem checkedSub_eq_some {a b c : ℕ} :
    checkedSub a b = some c ↔ b ≤ a ∧ a - b = c := by
  unfold checkedSub
  split
  case isTrue h => simp [h]
  case isFalse h => simp [h]

/-- `str::parse::<u64>`. -/
def parseU64 (text : List Char) : Option ℕ := parseUnsigned u64Max text

end BlobYard
