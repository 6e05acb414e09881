/-
Requested lifetimes.

A share, an inbox or a preview is asked for with a duration such as `7d`.  The server
cuts the last byte off the text, so a text whose last character is longer than a byte
panics; every other text is read exactly.

* `parseDuration`, `boundedExpiry` — the parser and the policy check around it;
* `Writes` — the durations a text can write;
* `expiry_law` — when the result is exact.
-/
import BlobYard.Contract.Numbers
import BlobYard.Lib.Utf8
import BlobYard.Server.Objects

namespace BlobYard

open Outcome

namespace Expiry

/-- The milliseconds of a unit. -/
def unitMs : List Char → Option ℕ
  | ['d'] => some (24 * 60 * 60 * 1000)
  | ['h'] => some (60 * 60 * 1000)
  | ['m'] => some (60 * 1000)
  | ['s'] => some 1000
  | _ => none

def parseDuration (value : String) : Except (Abort ApiError) ℕ := do
  let split ← ofOption (.error .invalidRequest) (checkedSub value.utf8ByteSize 1)
  -- `split_at` panics at a position inside a character
  let (amount, unit) ← ofOption .panicked (splitAt? value.toList split)
  ensure (amount ≠ [] ∧ (∀ c ∈ amount, c.isDigit = true) ∧ amount.head? ≠ some '0')
    (.error .invalidRequest)
  let amount ← ofOption (.error .invalidRequest) (parseU64 amount)
  let multiplier ← ofOption (.error .invalidRequest) (unitMs unit)
  ofOption (.error .invalidRequest) (checkedMul amount multiplier)

def boundedExpiry (now : ℕ) (duration : Option String)
    (defaultLifetimeMs maximumLifetimeMs : ℕ) : Except (Abort ApiError) ℕ := do
  let lifetime ← match duration with
    | none => pure defaultLifetimeMs
    | some value => parseDuration value
  ensure (lifetime ≤ maximumLifetimeMs) (.error .invalidRequest)
  ofOption (.error .invalidRequest) (checkedAdd now lifetime)

/-- The default of shares, inboxes and previews: seven days. -/
def defaultTtlMs : ℕ := 7 * 24 * 60 * 60 * 1000

/-- The maximum of shares, inboxes and previews: thirty days. -/
def maximumTtlMs : ℕ := 30 * 24 * 60 * 60 * 1000

def shareExpiry (now : ℕ) (duration : Option String) : Except (Abort ApiError) ℕ :=
  boundedExpiry now duration defaultTtlMs maximumTtlMs

def inboxExpiry (now : ℕ) (duration : Option String) : Except (Abort ApiError) ℕ :=
  boundedExpiry now duration defaultTtlMs maximumTtlMs

def previewExpiry (now : ℕ) (duration : Option String) : Except (Abort ApiError) ℕ :=
  boundedExpiry now duration defaultTtlMs maximumTtlMs

/-! ### What a text writes -/

/-- The text is a decimal number without leading zero and one unit, and writes `lifetime`. -/
def Writes (value : String) (lifetime : ℕ) : Prop :=
  ∃ amount unit multiplier, value.toList = amount ++ [unit] ∧ IsDecimal amount ∧
    amount.head? ≠ some '0' ∧
    (unit, multiplier) ∈ [('d', 86400000), ('h', 3600000), ('m', 60000), ('s', 1000)] ∧
    lifetime = decimalValue amount * multiplier

/-- The lifetime a request asks for. -/
def Asks (duration : Option String) (defaultLifetimeMs lifetime : ℕ) : Prop :=
  match duration with
  | none => lifetime = defaultLifetimeMs
  | some value => Writes value lifetime

/-- The last character of the text, if there is one, is a single byte. -/
def EndsInByte (value : String) : Prop :=
  ∀ c, value.toList.getLast? = some c → c.toNat < 128

theorem unitMs_eq_some {unit : Char} {multiplier : ℕ} :
    unitMs [unit] = some multiplier ↔
      (unit, multiplier) ∈ [('d', 86400000), ('h', 3600000), ('m', 60000), ('s', 1000)] := by
  simp only [List.mem_cons, Prod.mk.injEq, List.not_mem_nil, or_false]
  unfold unitMs
  split <;> simp_all [eq_comm]

theorem unit_pos {unit : Char} {multiplier : ℕ}
    (h : (unit, multiplier) ∈ [('d', 86400000), ('h', 3600000), ('m', 60000), ('s', 1000)]) :
    unit.toNat < 128 ∧ 0 < multiplier := by
  simp only [List.mem_cons, Prod.mk.injEq, List.not_mem_nil, or_false] at h
  rcases h with ⟨rfl, rfl⟩ | ⟨rfl, rfl⟩ | ⟨rfl, rfl⟩ | ⟨rfl, rfl⟩ <;> decide

theorem parseDuration_empty {value : String} (h : value.toList = []) :
    parseDuration value = .error (.error .invalidRequest) := by
  have hsize : checkedSub value.utf8ByteSize 1 = none := by
    rw [utf8ByteSize_eq, h]
    rfl
  rw [parseDuration, hsize]
  rfl

/-- The text is cut before its last character, if that is a single byte. -/
theorem parseDuration_concat {value : String} {amount : List Char} {unit : Char}
    (h : value.toList = amount ++ [unit]) :
    parseDuration value =
      if unit.toNat < 128 then do
        ensure (amount ≠ [] ∧ (∀ c ∈ amount, c.isDigit = true) ∧ amount.head? ≠ some '0')
          (.error .invalidRequest)
        let amount ← ofOption (.error .invalidRequest) (parseU64 amount)
        let multiplier ← ofOption (.error .invalidRequest) (unitMs [unit])
        ofOption (.error .invalidRequest) (checkedMul amount multiplier)
      else .error .panicked := by
  have hpos : 0 < String.utf8Len (amount ++ [unit]) :=
    lt_of_lt_of_le (by simp) (length_le_utf8Len _)
  have hsize : checkedSub value.utf8ByteSize 1 = some (String.utf8Len (amount ++ [unit]) - 1) := by
    rw [utf8ByteSize_eq, h, checkedSub_eq_some]
    exact ⟨hpos, rfl⟩
  rw [parseDuration, hsize, h]
  change (ofOption Abort.panicked (splitAt? (amount ++ [unit]) _) >>= _) = _
  rw [splitAt?_pred]
  split
  · rfl
  · rfl

theorem endsInByte_concat {value : String} {amount : List Char} {unit : Char}
    (h : value.toList = amount ++ [unit]) : EndsInByte value ↔ unit.toNat < 128 := by
  simp [EndsInByte, h]

theorem parseDuration_panics {value : String} :
    parseDuration value = .error .panicked ↔ ¬ EndsInByte value := by
  rcases List.eq_nil_or_concat value.toList with hempty | ⟨amount, unit, hvalue⟩
  · rw [parseDuration_empty hempty]
    simp [EndsInByte, hempty]
  · rw [List.concat_eq_append] at hvalue
    rw [parseDuration_concat hvalue, endsInByte_concat hvalue]
    split
    case isFalse hascii => simp [hascii]
    case isTrue hascii =>
      simp only [hascii, not_true_eq_false, bind_eq_error, ensure_eq_error, ofOption_eq_error,
        reduceCtorEq, and_false, exists_false, or_self]

/-- What a text writes is what the parser reads. -/
theorem parseDuration_eq_ok {value : String} {lifetime : ℕ} :
    parseDuration value = .ok lifetime ↔ Writes value lifetime ∧ lifetime ≤ u64Max := by
  rcases List.eq_nil_or_concat value.toList with hempty | ⟨amount, unit, hvalue⟩
  · rw [parseDuration_empty hempty]
    simp [Writes, hempty]
  rw [List.concat_eq_append] at hvalue
  have hwrites : Writes value lifetime ↔ ∃ multiplier, IsDecimal amount ∧
      amount.head? ≠ some '0' ∧
      (unit, multiplier) ∈ [('d', 86400000), ('h', 3600000), ('m', 60000), ('s', 1000)] ∧
      lifetime = decimalValue amount * multiplier := by
    constructor
    · rintro ⟨amount', unit', multiplier, heq, hrest⟩
      obtain ⟨rfl, hunit⟩ := List.append_inj' (hvalue.symm.trans heq) rfl
      rw [List.cons.injEq] at hunit
      exact ⟨multiplier, hunit.1 ▸ hrest⟩
    · rintro ⟨multiplier, hrest⟩
      exact ⟨amount, unit, multiplier, hvalue, hrest⟩
  rw [parseDuration_concat hvalue, hwrites]
  split
  case isTrue hascii =>
    simp only [bind_eq_ok, ensure_eq_ok, ofOption_eq_ok, checkedMul_eq_some, unitMs_eq_some]
    constructor
    · rintro ⟨-, ⟨hne, hdigits, hhead⟩, number, hnumber, multiplier, hunit, rfl, hle⟩
      obtain ⟨rfl, -⟩ := (parseUnsigned_digits ⟨hne, hdigits⟩).mp hnumber
      exact ⟨⟨multiplier, ⟨hne, hdigits⟩, hhead, hunit, rfl⟩, hle⟩
    · rintro ⟨⟨multiplier, hdecimal, hhead, hunit, rfl⟩, hle⟩
      have hfits : decimalValue amount ≤ u64Max :=
        le_trans (Nat.le_mul_of_pos_right _ (unit_pos hunit).2) hle
      exact ⟨(), ⟨hdecimal.1, hdecimal.2, hhead⟩, decimalValue amount,
        (parseUnsigned_digits hdecimal).mpr ⟨rfl, hfits⟩, multiplier, hunit, rfl, hle⟩
  case isFalse hascii =>
    simp only [reduceCtorEq, false_iff]
    rintro ⟨⟨multiplier, -, -, hunit, -⟩, -⟩
    exact hascii (unit_pos hunit).1

/-- A requested expiry is exact, and never a panic, if and only if the duration is left out, is
empty, or ends in a single byte. -/
theorem expiry_law (now : ℕ) (duration : Option String)
    (defaultLifetimeMs maximumLifetimeMs : ℕ) :
    (boundedExpiry now duration defaultLifetimeMs maximumLifetimeMs ≠ .error .panicked ∧
      ∀ expiry, boundedExpiry now duration defaultLifetimeMs maximumLifetimeMs = .ok expiry ↔
        ∃ lifetime, Asks duration defaultLifetimeMs lifetime ∧ lifetime ≤ u64Max ∧
          lifetime ≤ maximumLifetimeMs ∧ now + lifetime ≤ u64Max ∧ expiry = now + lifetime) ↔
      ∀ value, duration = some value → EndsInByte value := by
  have hok : ∀ expiry, boundedExpiry now duration defaultLifetimeMs maximumLifetimeMs =
      .ok expiry ↔ ∃ lifetime, Asks duration defaultLifetimeMs lifetime ∧ lifetime ≤ u64Max ∧
        lifetime ≤ maximumLifetimeMs ∧ now + lifetime ≤ u64Max ∧ expiry = now + lifetime := by
    intro expiry
    cases duration with
    | none =>
      simp only [boundedExpiry, bind_eq_ok, pure_eq_ok, ensure_eq_ok, ofOption_eq_ok,
        checkedAdd_eq_some, Asks]
      constructor
      · rintro ⟨lifetime, rfl, -, hmax, rfl, hsum⟩
        exact ⟨defaultLifetimeMs, rfl, by omega, hmax, hsum, rfl⟩
      · rintro ⟨lifetime, rfl, -, hmax, hsum, rfl⟩
        exact ⟨lifetime, rfl, (), hmax, rfl, hsum⟩
    | some value =>
      simp only [boundedExpiry, bind_eq_ok, ensure_eq_ok, ofOption_eq_ok, checkedAdd_eq_some,
        Asks, parseDuration_eq_ok]
      constructor
      · rintro ⟨lifetime, ⟨hwrites, hle⟩, -, hmax, rfl, hsum⟩
        exact ⟨lifetime, hwrites, hle, hmax, hsum, rfl⟩
      · rintro ⟨lifetime, hwrites, hle, hmax, hsum, rfl⟩
        exact ⟨lifetime, ⟨hwrites, hle⟩, (), hmax, rfl, hsum⟩
  have hpanics : boundedExpiry now duration defaultLifetimeMs maximumLifetimeMs =
      .error .panicked ↔ ∃ value, duration = some value ∧ ¬ EndsInByte value := by
    cases duration with
    | none =>
      simp [boundedExpiry, bind_eq_error]
    | some value =>
      simp [boundedExpiry, bind_eq_error, parseDuration_panics]
  rw [Ne, hpanics]
  constructor
  · rintro ⟨hnot, -⟩ value rfl
    by_contra hends
    exact hnot ⟨value, rfl, hends⟩
  · intro hends
    refine ⟨?_, hok⟩
    rintro ⟨value, heq, hnot⟩
    exact hnot (hends value heq)

/-- `1é` brings the server down. -/
theorem accented_duration_panics : shareExpiry 0 (some "1é") = .error .panicked := by
  have hends : ¬ EndsInByte "1é" := fun h => absurd (h 'é' (by decide)) (by decide)
  rw [shareExpiry, boundedExpiry, parseDuration_panics.mpr hends]
  rfl

end Expiry

end BlobYard
