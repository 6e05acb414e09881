/-
The validated texts and numbers of the service contracts.

Repository adapters store plain strings and integers and validate them at the
door; the storage contract wraps its keys and checksums in types that only a
successful validation builds.

* `validateText` — the check every identifier passes (`rows::validate_text`);
* `StorageKey`, `ObjectChecksum`, `Slug` — the wrapped texts;
* `toI64` — the range check of an unsigned input that becomes a SQL integer.
-/
import BlobYard.Lib.Outcome
import BlobYard.Lib.Utf8
import Mathlib.Data.List.Basic

namespace BlobYard

open Outcome

/-- Stable metadata failure classes. -/
inductive RepositoryError where
  | notFound
  | conflict
  | invalidInput
  | schemaTooNew
  | unavailable
  deriving DecidableEq

/-- Stable storage failure classes shared by every adapter. -/
inductive StorageError where
  | notFound
  | conflict
  | invalidInput
  | integrityMismatch
  | unavailable
  deriving DecidableEq

/-- The Unicode control characters (category `Cc`). -/
def isControl (c : Char) : Bool :=
  c.toNat ≤ 0x1F || (0x7F ≤ c.toNat && c.toNat ≤ 0x9F)

/-- The Unicode `White_Space` characters. -/
def isWhitespace (c : Char) : Bool :=
  (0x9 ≤ c.toNat && c.toNat ≤ 0xD) || c.toNat == 0x20 || c.toNat == 0x85 || c.toNat == 0xA0 ||
    c.toNat == 0x1680 || (0x2000 ≤ c.toNat && c.toNat ≤ 0x200A) || c.toNat == 0x2028 ||
    c.toNat == 0x2029 || c.toNat == 0x202F || c.toNat == 0x205F || c.toNat == 0x3000

/-- A condition on the characters of a text is decided by looking at each of them. -/
instance decidableForallChar (characters : List Char) (p : Char → Prop) [DecidablePred p] :
    Decidable (∀ c ∈ characters, p c) :=
  List.decidableBAll p characters

instance decidableExistsChar (characters : List Char) (p : Char → Prop) [DecidablePred p] :
    Decidable (∃ c ∈ characters, p c) :=
  List.decidableBEx p characters

/-- A non-empty text of at most 512 bytes without control characters. -/
def ValidText (value : String) : Prop :=
  value ≠ "" ∧ value.utf8ByteSize ≤ 512 ∧ ∀ c ∈ value.toList, isControl c = false

instance (value : String) : Decidable (ValidText value) :=
  inferInstanceAs (Decidable (_ ∧ _ ∧ _))

/-- The check of one text column. -/
def validateText (value : String) : Except RepositoryError Unit :=
  ensure (ValidText value) .invalidInput

/-- The check of several, in their order. -/
def validateTexts (values : List String) : Except RepositoryError Unit :=
  forM values validateText

@[simp] theorem validateText_eq_ok {value : String} {u : Unit} :
    validateText value = .ok u ↔ ValidText value := by
  simp [validateText]

@[simp] theorem validateTexts_eq_ok {values : List String} {u : Unit} :
    validateTexts values = .ok u ↔ ∀ value ∈ values, ValidText value := by
  simp [validateTexts]

/-- The largest signed 64-bit integer, the bound of a SQL integer column. -/
def i64Max : ℕ := 9223372036854775807

/-- The largest unsigned 64-bit integer. -/
def u64Max : ℕ := 18446744073709551615

/-- `i64::try_from` on an unsigned input; the converted value is the input itself. -/
def toI64 (value : ℕ) : Except RepositoryError Unit :=
  ensure (value ≤ i64Max) .invalidInput

@[simp] theorem toI64_eq_ok {value : ℕ} {u : Unit} : toI64 value = .ok u ↔ value ≤ i64Max := by
  simp [toI64]

/-! ### Keys and checksums -/

/-- A lowercase hexadecimal digit. -/
def isHexDigit (c : Char) : Bool :=
  ('0' ≤ c && c ≤ '9') || ('a' ≤ c && c ≤ 'f')

theorem isHexDigit_ascii {c : Char} (h : isHexDigit c = true) : c.toNat < 128 := by
  simp only [isHexDigit, Bool.or_eq_true, Bool.and_eq_true, decide_eq_true_eq, Char.le_def,
    UInt32.le_iff_toNat_le] at h
  have hnine : '9'.val.toNat = 57 := rfl
  have hf : 'f'.val.toNat = 102 := rfl
  have hc : c.toNat = c.val.toNat := rfl
  omega

/-- Exactly 64 lowercase hexadecimal digits. -/
def ValidChecksum (value : String) : Prop :=
  value.utf8ByteSize = 64 ∧ ∀ c ∈ value.toList, isHexDigit c = true

instance (value : String) : Decidable (ValidChecksum value) :=
  inferInstanceAs (Decidable (_ ∧ _))

/-- A lowercase SHA-256 checksum. -/
structure ObjectChecksum where
  asStr : String
  valid : ValidChecksum asStr
  deriving DecidableEq

/-- `ObjectChecksum::new`. -/
def ObjectChecksum.new (value : String) : Except StorageError ObjectChecksum :=
  if h : ValidChecksum value then .ok ⟨value, h⟩ else .error .invalidInput

/-- `ObjectChecksum::new(..)` with its error mapped to `InvalidInput`. -/
def validateHash (value : String) : Except RepositoryError Unit :=
  ensure (ValidChecksum value) .invalidInput

@[simp] theorem validateHash_eq_ok {value : String} {u : Unit} :
    validateHash value = .ok u ↔ ValidChecksum value := by
  simp [validateHash]

/-- The checksum text made of one repeated digit. -/
def repeatedDigit (digit : Char) : String := String.ofList (List.replicate 64 digit)

/-- The segments of a `/`-separated text. -/
def segments (value : String) : List (List Char) := value.toList.splitOn '/'

/-- `is_valid_relative_path`: a relative path that cannot escape its root. -/
def ValidRelativePath (value : String) (maximumBytes : ℕ) : Prop :=
  value ≠ "" ∧ value.utf8ByteSize ≤ maximumBytes ∧
    value.toList.head? ≠ some '/' ∧ value.toList.getLast? ≠ some '/' ∧
    '\\' ∉ value.toList ∧ (∀ c ∈ value.toList, isControl c = false) ∧
    ∀ segment ∈ segments value, segment ≠ [] ∧ segment ≠ ['.'] ∧ segment ≠ ['.', '.']

instance (value : String) (maximumBytes : ℕ) : Decidable (ValidRelativePath value maximumBytes) :=
  inferInstanceAs (Decidable (_ ∧ _ ∧ _ ∧ _ ∧ _ ∧ _ ∧ _))

/-- A provider-independent object key that cannot escape an adapter root. -/
structure StorageKey where
  asStr : String
  valid : ValidRelativePath asStr 512
  deriving DecidableEq

namespace StorageKey

@[ext] theorem ext {k k' : StorageKey} (h : k.asStr = k'.asStr) : k = k' := by
  cases k
  cases k'
  cases h
  rfl

/-- `StorageKey::new`: a portable relative path of at most 512 bytes. -/
def new (value : String) : Except StorageError StorageKey :=
  if h : ValidRelativePath value 512 then .ok ⟨value, h⟩ else .error .invalidInput

theorem new_eq_ok {value : String} {key : StorageKey} :
    new value = .ok key ↔ key.asStr = value := by
  unfold new
  by_cases h : ValidRelativePath value 512
  · rw [dif_pos h, Except.ok.injEq, StorageKey.ext_iff]
    exact eq_comm
  · rw [dif_neg h]
    refine ⟨nofun, ?_⟩
    rintro rfl
    exact absurd key.valid h

end StorageKey

/-! ### Slugs -/

/-- `char::is_ascii_alphanumeric`. -/
def isAsciiAlphanumeric (c : Char) : Bool :=
  ('0' ≤ c && c ≤ '9') || ('a' ≤ c && c ≤ 'z') || ('A' ≤ c && c ≤ 'Z')

theorem isAsciiAlphanumeric_bounds {c : Char} (h : isAsciiAlphanumeric c = true) :
    48 ≤ c.toNat ∧ c.toNat ≤ 122 := by
  simp only [isAsciiAlphanumeric, Bool.or_eq_true, Bool.and_eq_true, decide_eq_true_eq,
    Char.le_def, UInt32.le_iff_toNat_le] at h
  have hnine : '9'.val.toNat = 57 := rfl
  have hupper : 'Z'.val.toNat = 90 := rfl
  have hlower : 'z'.val.toNat = 122 := rfl
  have hzero : '0'.val.toNat = 48 := rfl
  have hA : 'A'.val.toNat = 65 := rfl
  have ha : 'a'.val.toNat = 97 := rfl
  have hc : c.toNat = c.val.toNat := rfl
  omega

theorem isAsciiAlphanumeric_ascii {c : Char} (h : isAsciiAlphanumeric c = true) :
    c.toNat < 128 ∧ c ≠ '-' := by
  have hbounds := isAsciiAlphanumeric_bounds h
  refine ⟨by omega, ?_⟩
  rintro rfl
  have hhyphen : '-'.toNat = 45 := rfl
  omega

/-- 1 to 63 ASCII letters, digits, hyphens or underscores with alphanumeric edges. -/
def ValidSlug (value : String) : Prop :=
  value ≠ "" ∧ value.utf8ByteSize ≤ 63 ∧
    (value.toList.head?.any isAsciiAlphanumeric) = true ∧
    (value.toList.getLast?.any isAsciiAlphanumeric) = true ∧
    ∀ c ∈ value.toList, isAsciiAlphanumeric c = true ∨ c = '-' ∨ c = '_'

instance (value : String) : Decidable (ValidSlug value) :=
  inferInstanceAs (Decidable (_ ∧ _ ∧ _ ∧ _ ∧ _))

/-- A validated workspace or project slug. -/
structure Slug where
  asStr : String
  valid : ValidSlug asStr
  deriving DecidableEq

end BlobYard
