/-
Elements of the distinguished encoding rules: a tag, length octets and contents.

The readers are strict.  They refuse a length that is longer than it has to be, and an integer with
octets that it does not need.

* `derLength`, `derElement`, `derUnsigned` — the readers;
* `derLength_short`, `derLength_long`, `derElement_append`, `derUnsigned_append` — what they read;
* `derLength_inj`, `derElement_inj`, `derUnsigned_inj` — nothing else is read as the same.
-/
import BlobYard.Lib.Radix
import Mathlib.Data.List.TakeDrop

namespace BlobYard

/-! ### Reading -/

/-- The length at the beginning of the bytes: one octet below 128, or the number of the octets that
follow and the octets, without a leading zero and of a length that needs them. -/
def derLength : List UInt8 → Option (ℕ × List UInt8)
  | [] => none
  | first :: rest =>
    if first.toNat < 128 then some (first.toNat, rest)
    else if first.toNat < 255 ∧ first.toNat - 128 ≤ rest.length ∧
        (rest.take (first.toNat - 128)).head? ≠ some 0 ∧
        128 ≤ unsigned (rest.take (first.toNat - 128)) then
      some (unsigned (rest.take (first.toNat - 128)), rest.drop (first.toNat - 128))
    else none

/-- The contents of an element with the tag, and what is behind it. -/
def derElement (tag : UInt8) : List UInt8 → Option (List UInt8 × List UInt8)
  | [] => none
  | first :: rest =>
    if first = tag then
      (derLength rest).bind fun length =>
        if length.1 ≤ length.2.length then
          some (length.2.take length.1, length.2.drop length.1)
        else none
    else none

/-- The contents of an integer that is not negative: the sign bit of the first octet is zero, and
the octet is not there for nothing. -/
def MinimalUnsigned (contents : List UInt8) : Prop :=
  (∃ first, contents.head? = some first ∧ first.toNat < 128) ∧
    ∀ second rest, contents = 0 :: second :: rest → 128 ≤ second.toNat

instance (contents : List UInt8) : Decidable (MinimalUnsigned contents) :=
  match contents with
  | [] => .isFalse fun h => by
    obtain ⟨⟨first, hfirst, -⟩, -⟩ := h
    cases hfirst
  | [first] => decidable_of_iff (first.toNat < 128) (by simp [MinimalUnsigned])
  | first :: second :: rest =>
    decidable_of_iff (first.toNat < 128 ∧ (first = 0 → 128 ≤ second.toNat))
      (by simp [MinimalUnsigned])

def derUnsigned (contents : List UInt8) : Option ℕ :=
  if MinimalUnsigned contents then some (unsigned contents) else none

/-- An integer that is not negative at the beginning of the bytes, and what is behind it. -/
def derInteger (bytes : List UInt8) : Option (ℕ × List UInt8) :=
  (derElement 0x02 bytes).bind fun element =>
    (derUnsigned element.1).map fun value => (value, element.2)

/-! ### What the readers read -/

section Reading

variable {bytes bytes' rest : List UInt8} {length : ℕ} {tag : UInt8}

theorem derLength_short (h : length < 128) :
    derLength (UInt8.ofNat length :: rest) = some (length, rest) := by
  have hfirst : (UInt8.ofNat length).toNat = length := by
    rw [UInt8.toNat_ofNat']
    omega
  rw [derLength, hfirst, if_pos h]

theorem derLength_long {octets : List UInt8} (hcount : octets.length < 127)
    (hhead : octets.head? ≠ some 0) (hvalue : 128 ≤ unsigned octets) :
    derLength (UInt8.ofNat (128 + octets.length) :: (octets ++ rest)) =
      some (unsigned octets, rest) := by
  have hfirst : (UInt8.ofNat (128 + octets.length)).toNat = 128 + octets.length := by
    rw [UInt8.toNat_ofNat']
    omega
  have hsub : 128 + octets.length - 128 = octets.length := by omega
  rw [derLength, hfirst, if_neg (by omega), hsub, List.take_left, List.drop_left, if_pos]
  refine ⟨by omega, ?_, hhead, hvalue⟩
  rw [List.length_append]
  omega

/-- A length is one octet, or octets behind their number. -/
theorem derLength_eq_some (h : derLength bytes = some (length, rest)) :
    (length < 128 ∧ bytes = UInt8.ofNat length :: rest) ∨
      ∃ octets, octets.length < 127 ∧ octets.head? ≠ some 0 ∧ 128 ≤ length ∧
        unsigned octets = length ∧
        bytes = UInt8.ofNat (128 + octets.length) :: (octets ++ rest) := by
  cases bytes with
  | nil => cases h
  | cons first tail =>
    have hfirst : UInt8.ofNat first.toNat = first := UInt8.ofNat_toNat
    rw [derLength] at h
    split at h
    case isTrue hshort =>
      rw [Option.some.injEq, Prod.mk.injEq] at h
      obtain ⟨rfl, rfl⟩ := h
      exact Or.inl ⟨hshort, by rw [hfirst]⟩
    case isFalse hlong =>
      split at h
      case isTrue hstrict =>
        obtain ⟨hmaximum, hroom, hhead, hvalue⟩ := hstrict
        rw [Option.some.injEq, Prod.mk.injEq] at h
        obtain ⟨rfl, rfl⟩ := h
        have hcount : (tail.take (first.toNat - 128)).length = first.toNat - 128 :=
          List.length_take_of_le hroom
        have hadd : 128 + (first.toNat - 128) = first.toNat := by omega
        refine Or.inr ⟨_, by omega, hhead, hvalue, rfl, ?_⟩
        rw [hcount, hadd, hfirst, List.take_append_drop]
      case isFalse => cases h

/-- A length is read from one spelling only. -/
theorem derLength_inj (h : derLength bytes = some (length, rest))
    (h' : derLength bytes' = some (length, rest)) : bytes = bytes' := by
  rcases derLength_eq_some h with ⟨hshort, rfl⟩ | ⟨octets, -, hhead, hlong, hvalue, rfl⟩
  · rcases derLength_eq_some h' with ⟨-, rfl⟩ | ⟨octets, -, -, hlong, -⟩
    · rfl
    · omega
  · rcases derLength_eq_some h' with ⟨hshort, -⟩ | ⟨octets', -, hhead', -, hvalue', rfl⟩
    · omega
    · rw [unsigned_inj_of_head hhead hhead' (hvalue.trans hvalue'.symm)]

theorem derElement_append {octets contents : List UInt8}
    (h : derLength (octets ++ (contents ++ rest)) = some (contents.length, contents ++ rest)) :
    derElement tag (tag :: (octets ++ (contents ++ rest))) = some (contents, rest) := by
  rw [derElement, if_pos rfl, h, Option.bind_some, if_pos, List.take_left, List.drop_left]
  rw [List.length_append]
  exact Nat.le_add_right _ _

theorem derElement_eq_some {contents : List UInt8}
    (h : derElement tag bytes = some (contents, rest)) :
    ∃ tail, bytes = tag :: tail ∧ derLength tail = some (contents.length, contents ++ rest) := by
  cases bytes with
  | nil => cases h
  | cons first tail =>
    rw [derElement] at h
    split at h
    case isTrue htag =>
      obtain ⟨⟨length, behind⟩, hlength, hcut⟩ := Option.bind_eq_some_iff.mp h
      split at hcut
      case isTrue hroom =>
        rw [Option.some.injEq, Prod.mk.injEq] at hcut
        obtain ⟨rfl, rfl⟩ := hcut
        refine ⟨tail, by rw [htag], ?_⟩
        rw [hlength, List.take_append_drop, List.length_take_of_le hroom]
      case isFalse => cases hcut
    case isFalse => cases h

/-- An element is read from one spelling only. -/
theorem derElement_inj {contents : List UInt8} (h : derElement tag bytes = some (contents, rest))
    (h' : derElement tag bytes' = some (contents, rest)) : bytes = bytes' := by
  obtain ⟨tail, rfl, hlength⟩ := derElement_eq_some h
  obtain ⟨tail', rfl, hlength'⟩ := derElement_eq_some h'
  rw [derLength_inj hlength hlength']

theorem derUnsigned_eq_some {value : ℕ} :
    derUnsigned bytes = some value ↔ MinimalUnsigned bytes ∧ unsigned bytes = value := by
  rw [derUnsigned, Option.ite_none_right_eq_some, Option.some.injEq]

/-- The number of octets that a number needs, from above and below. -/
theorem MinimalUnsigned.bounds (h : MinimalUnsigned bytes) :
    ∃ count, bytes.length = count + 1 ∧ unsigned bytes < 128 * 256 ^ count ∧
      ∀ fewer, count = fewer + 1 → 128 * 256 ^ fewer ≤ unsigned bytes := by
  obtain ⟨⟨first, hfirst, hsign⟩, hneeded⟩ := h
  obtain ⟨tail, rfl⟩ := List.head?_eq_some_iff.mp hfirst
  refine ⟨tail.length, rfl, ?_, fun fewer hfewer => ?_⟩
  · have hlt := unsigned_lt tail
    have hle : first.toNat * 256 ^ tail.length ≤ 127 * 256 ^ tail.length :=
      Nat.mul_le_mul_right _ (by omega)
    rw [unsigned_cons]
    omega
  · by_cases hzero : first = 0
    · cases tail with
      | nil => cases hfewer
      | cons second rest =>
        have hsecond := hneeded second rest (by rw [hzero])
        have hlength : rest.length = fewer := by
          rw [List.length_cons] at hfewer
          omega
        have hle : 128 * 256 ^ fewer ≤ second.toNat * 256 ^ rest.length := by
          rw [hlength]
          exact Nat.mul_le_mul_right _ hsecond
        rw [unsigned_cons, unsigned_cons second, hzero]
        have hnone : (0 : UInt8).toNat * 256 ^ (second :: rest).length = 0 := Nat.zero_mul _
        omega
    · have hle := le_unsigned_cons hzero tail
      rw [hfewer, pow_succ] at hle
      omega

/-- A number is read from one spelling only. -/
theorem derUnsigned_inj {value : ℕ} (h : derUnsigned bytes = some value)
    (h' : derUnsigned bytes' = some value) : bytes = bytes' := by
  obtain ⟨hminimal, hvalue⟩ := derUnsigned_eq_some.mp h
  obtain ⟨hminimal', hvalue'⟩ := derUnsigned_eq_some.mp h'
  have hshorter : ∀ {short long : List UInt8}, MinimalUnsigned short → MinimalUnsigned long →
      unsigned short = unsigned long → long.length ≤ short.length := by
    intro short long hshort hlong heq
    obtain ⟨count, hcount, hbelow, -⟩ := hshort.bounds
    obtain ⟨count', hcount', -, habove⟩ := hlong.bounds
    by_contra hlonger
    have hle := habove (count' - 1) (by omega)
    have hpow : 256 ^ count ≤ 256 ^ (count' - 1) := Nat.pow_le_pow_right (by decide) (by omega)
    omega
  have heq := hvalue.trans hvalue'.symm
  exact unsigned_inj (Nat.le_antisymm (hshorter hminimal' hminimal heq.symm)
    (hshorter hminimal hminimal' heq)) heq

theorem derInteger_inj {value : ℕ} (h : derInteger bytes = some (value, rest))
    (h' : derInteger bytes' = some (value, rest)) : bytes = bytes' := by
  obtain ⟨⟨contents, behind⟩, helement, hvalue⟩ := Option.bind_eq_some_iff.mp h
  obtain ⟨⟨contents', behind'⟩, helement', hvalue'⟩ := Option.bind_eq_some_iff.mp h'
  simp only [Option.map_eq_some_iff, Prod.mk.injEq] at hvalue hvalue'
  obtain ⟨_, hvalue, rfl, rfl⟩ := hvalue
  obtain ⟨_, hvalue', rfl, rfl⟩ := hvalue'
  obtain rfl := derUnsigned_inj hvalue hvalue'
  exact derElement_inj helement helement'

end Reading

end BlobYard
