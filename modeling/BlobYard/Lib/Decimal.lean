/-
Decimal numbers in texts.

* `IsDecimal`, `decimalValue` — a non-empty run of digits and its value;
* `Digits`, `Signed` — the texts of a number, without and with a plus sign in front;
* `parseUnsigned` — the integer parser of the standard library of the code, which
  also takes a plus sign and refuses a value above the maximum of its type;
* `parseUnsigned_iff`, `parseUnsigned_digits` — what it reads, and that on digits it reads
  their value;
* `parseUnsigned_toDigits` — it reads back what was printed.
-/
import Mathlib.Data.List.Basic

namespace BlobYard

/-- At least one character, all of them digits. -/
def IsDecimal (text : List Char) : Prop :=
  text ≠ [] ∧ ∀ c ∈ text, c.isDigit = true

instance (text : List Char) : Decidable (IsDecimal text) :=
  decidable_of_iff (text ≠ [] ∧ text.all Char.isDigit = true) (by simp [IsDecimal])

/-- The number that the digits write. -/
def decimalValue (text : List Char) : ℕ := Nat.ofDigitChars 10 text 0

/-- A number as digits. -/
def Digits (text : List Char) (number : ℕ) : Prop := IsDecimal text ∧ decimalValue text = number

/-- A number as digits, perhaps behind a plus sign. -/
def Signed (text : List Char) (number : ℕ) : Prop :=
  Digits text number ∨ ∃ digits, text = '+' :: digits ∧ Digits digits number

/-- The digits behind an optional plus sign. -/
def withoutSign : List Char → List Char
  | '+' :: digits => digits
  | text => text

/-- `parse` of an unsigned integer type with the largest value `maximum`. -/
def parseUnsigned (maximum : ℕ) (text : List Char) : Option ℕ :=
  if IsDecimal (withoutSign text) ∧ decimalValue (withoutSign text) ≤ maximum then
    some (decimalValue (withoutSign text))
  else none

section Texts

variable {text : List Char} {value : ℕ}

theorem IsDecimal.not_mem (h : IsDecimal text) {c : Char} (hc : c.isDigit = false) : c ∉ text := by
  intro hmem
  rw [h.2 c hmem] at hc
  exact Bool.noConfusion hc

theorem withoutSign_of_ne (h : text.head? ≠ some '+') : withoutSign text = text := by
  unfold withoutSign
  split
  · exact absurd rfl h
  · rfl

theorem IsDecimal.withoutSign (h : IsDecimal text) : withoutSign text = text :=
  withoutSign_of_ne fun hhead => h.not_mem (by decide) (List.mem_of_head? hhead)

theorem parseUnsigned_eq_some {maximum : ℕ} :
    parseUnsigned maximum text = some value ↔
      IsDecimal (withoutSign text) ∧ decimalValue (withoutSign text) = value ∧
        value ≤ maximum := by
  unfold parseUnsigned
  split
  · simp_all only [Option.some.injEq, true_and]
    constructor
    · rintro rfl
      tauto
    · exact fun h => h.1
  · simp only [reduceCtorEq, false_iff]
    rintro ⟨hdecimal, rfl, hle⟩
    tauto

theorem signed_iff : Signed text value ↔ Digits (withoutSign text) value := by
  constructor
  · rintro (h | ⟨digits, rfl, h⟩)
    · rwa [h.1.withoutSign]
    · exact h
  · intro h
    by_cases hsign : text.head? = some '+'
    · obtain ⟨digits, rfl⟩ := List.head?_eq_some_iff.mp hsign
      exact Or.inr ⟨digits, rfl, h⟩
    · rw [withoutSign_of_ne hsign] at h
      exact Or.inl h

theorem Digits.signed (h : Digits text value) : Signed text value := Or.inl h

theorem Signed.digits (h : Signed text value) (hplus : '+' ∉ text) : Digits text value := by
  rcases h with h | ⟨digits, rfl, -⟩
  · exact h
  · exact absurd List.mem_cons_self hplus

theorem Signed.ne_nil (h : Signed text value) : text ≠ [] := by
  rcases h with h | ⟨digits, rfl, -⟩
  · exact h.1.1
  · exact List.cons_ne_nil _ _

theorem Signed.not_mem (h : Signed text value) {c : Char} (hc : c.isDigit = false)
    (hplus : c ≠ '+') : c ∉ text := by
  rcases h with h | ⟨digits, rfl, h⟩
  · exact h.1.not_mem hc
  · simp [hplus, h.1.not_mem hc]

/-- A text writes one number. -/
theorem Signed.unique {value' : ℕ} (h : Signed text value) (h' : Signed text value') :
    value = value' :=
  (signed_iff.mp h).2.symm.trans (signed_iff.mp h').2

theorem parseUnsigned_iff {maximum : ℕ} :
    parseUnsigned maximum text = some value ↔ Signed text value ∧ value ≤ maximum := by
  rw [parseUnsigned_eq_some, signed_iff, Digits, and_assoc]

/-- On digits the parser reads their value. -/
theorem parseUnsigned_digits (h : IsDecimal text) {maximum : ℕ} :
    parseUnsigned maximum text = some value ↔ decimalValue text = value ∧ value ≤ maximum := by
  rw [parseUnsigned_eq_some, h.withoutSign]
  exact and_iff_right h

theorem isDecimal_toDigits (value : ℕ) : IsDecimal (Nat.toDigits 10 value) :=
  ⟨Nat.toDigits_ne_nil, fun _ hc => Nat.isDigit_of_mem_toDigits (by decide) (by decide) hc⟩

@[simp] theorem decimalValue_toDigits (value : ℕ) :
    decimalValue (Nat.toDigits 10 value) = value :=
  Nat.ofDigitChars_ten_toDigits

/-- A printed number is read back, if it fits. -/
theorem parseUnsigned_toDigits {maximum value : ℕ} (h : value ≤ maximum) :
    parseUnsigned maximum (Nat.toDigits 10 value) = some value :=
  (parseUnsigned_digits (isDecimal_toDigits value)).mpr ⟨decimalValue_toDigits value, h⟩

end Texts

end BlobYard
