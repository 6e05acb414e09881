/-
The public keys of an identity provider.

A provider publishes the modulus and the exponent of an RSA key as bytes; the verifier of signatures
wants them as one element of the distinguished encoding rules.

* `rsaPublicKeyDer` — the element, a sequence of two integers;
* `appendDerInteger`, `appendDerLength` — its parts;
* `appendDerLength_spec`, `appendDerInteger_spec` — what a strict reader makes of them.
-/
import BlobYard.Contract.Numbers
import BlobYard.Contract.Storage
import BlobYard.Lib.Der
import BlobYard.Lib.Outcome
import Mathlib.Data.Nat.Bitwise

namespace BlobYard

open Outcome

inductive OidcVerificationError where
  | invalid
  | providerUnavailable
  deriving DecidableEq

namespace OidcJwt

/-- The position of the first byte that is not zero. -/
def firstNonZero (bytes : Bytes) : Option ℕ := bytes.findIdx? (· != 0)

/-- `usize::to_be_bytes`, and its last byte. -/
def leastSignificantByte (value : ℕ) : UInt8 := (toBeBytes 8 value).getD 7 0

def appendDerLength (encoded : Bytes) (length : ℕ) : Bytes :=
  if length < 128 then encoded ++ [leastSignificantByte length]
  else
    let bytes := toBeBytes 8 length
    let first := (firstNonZero bytes).getD (bytes.length - 1)
    let lengthBytes := bytes.length - first
    encoded ++ [0x80 ||| leastSignificantByte lengthBytes] ++ bytes.drop first

/-- The value without leading zeros, and the last of the zeros if there is nothing else. -/
def withoutLeadingZeros (value : Bytes) : Except (Abort OidcVerificationError) Bytes :=
  match firstNonZero value with
  | some index => pure (value.drop index)
  | none => do
    -- `value.len() - 1` underflows on no bytes
    ensure (value ≠ []) .panicked
    pure (value.drop (value.length - 1))

def appendDerInteger (encoded value : Bytes) : Except (Abort OidcVerificationError) Bytes := do
  let value ← withoutLeadingZeros value
  let first ← ofOption .panicked value.head?
  let needsPositivePrefix := first &&& 0x80 ≠ 0
  let length := value.length + if needsPositivePrefix then 1 else 0
  let encoded := appendDerLength (encoded ++ [0x02]) length
  pure (encoded ++ (if needsPositivePrefix then [0] else []) ++ value)

def rsaPublicKeyDer (modulus exponent : Bytes) : Except (Abort OidcVerificationError) Bytes := do
  ensure ((256 ≤ modulus.length ∧ modulus.length ≤ 1024) ∧
    1 ≤ exponent.length ∧ exponent.length ≤ 8) (.error .invalid)
  let integers ← appendDerInteger [] modulus
  let integers ← appendDerInteger integers exponent
  pure (appendDerLength [0x30] integers.length ++ integers)

/-! ### What the parts are read as -/

theorem firstNonZero_eq_none {bytes : Bytes} (h : firstNonZero bytes = none) :
    bytes = List.replicate bytes.length 0 := by
  refine List.eq_replicate_iff.mpr ⟨rfl, fun byte hbyte => ?_⟩
  have hzero := List.findIdx?_eq_none_iff.mp h byte hbyte
  simpa using hzero

theorem firstNonZero_eq_some {bytes : Bytes} {index : ℕ} (h : firstNonZero bytes = some index) :
    ∃ first rest, first ≠ 0 ∧ bytes = List.replicate index 0 ++ first :: rest := by
  induction bytes generalizing index with
  | nil => cases h
  | cons byte bytes ih =>
    rw [firstNonZero, List.findIdx?_cons] at h
    split at h
    case isTrue hbyte =>
      cases h
      exact ⟨byte, bytes, by simpa using hbyte, rfl⟩
    case isFalse hbyte =>
      obtain ⟨index, hindex, rfl⟩ := Option.map_eq_some_iff.mp h
      obtain ⟨first, rest, hfirst, heq⟩ := ih hindex
      have hzero : byte = 0 := by simpa using hbyte
      exact ⟨first, rest, hfirst, by rw [hzero, List.replicate_succ, List.cons_append, ← heq]⟩

theorem leastSignificantByte_eq (value : ℕ) : leastSignificantByte value = UInt8.ofNat value := by
  have hlength : (toBeBytes 7 (value / 256)).length = 7 := length_toBeBytes 7 _
  rw [leastSignificantByte, toBeBytes, List.getD_eq_getElem?_getD,
    List.getElem?_append_right (by omega), hlength]
  rfl

/-- The flag of the long form is added to the number of octets. -/
theorem longForm_eq {count : ℕ} (h : count ≤ 8) :
    (0x80 : UInt8) ||| UInt8.ofNat count = UInt8.ofNat (128 + count) := by
  interval_cases count <;> rfl

theorem appendDerLength_long {length index : ℕ} (hlong : ¬length < 128)
    (hfirst : firstNonZero (toBeBytes 8 length) = some index) (encoded : Bytes) :
    appendDerLength encoded length =
      encoded ++ [0x80 ||| leastSignificantByte ((toBeBytes 8 length).length - index)] ++
        (toBeBytes 8 length).drop index := by
  simp only [appendDerLength, if_neg hlong, hfirst, Option.getD_some]

/-- The length octets of a machine word are read as the word. -/
theorem appendDerLength_spec {length : ℕ} (h : length < 256 ^ 8) (encoded : Bytes) :
    ∃ octets, appendDerLength encoded length = encoded ++ octets ∧ octets.length ≤ 9 ∧
      ∀ rest, derLength (octets ++ rest) = some (length, rest) := by
  by_cases hshort : length < 128
  · refine ⟨[leastSignificantByte length], by rw [appendDerLength, if_pos hshort], ?_,
      fun rest => ?_⟩
    · exact Nat.le_add_left 1 8
    · rw [leastSignificantByte_eq]
      exact derLength_short hshort
  -- the long form: the octets without the zeros in front, behind their count
  · have hvalue := unsigned_toBeBytes h
    cases hfirst : firstNonZero (toBeBytes 8 length) with
    | none =>
      rw [firstNonZero_eq_none hfirst, unsigned_zeros] at hvalue
      omega
    | some index =>
      obtain ⟨first, tail, hne, heq⟩ := firstNonZero_eq_some hfirst
      have hlength := length_toBeBytes 8 length
      rw [heq, unsigned_zeros_append] at hvalue
      rw [heq, List.length_append, List.length_replicate, List.length_cons] at hlength
      have hdrop : (toBeBytes 8 length).drop index = first :: tail := by
        rw [heq, List.drop_left' List.length_replicate]
      have hcount : (toBeBytes 8 length).length - index = (first :: tail).length := by
        rw [length_toBeBytes, List.length_cons]
        omega
      have hsmall : (first :: tail).length ≤ 8 := by
        rw [List.length_cons]
        omega
      refine ⟨UInt8.ofNat (128 + (first :: tail).length) :: (first :: tail), ?_,
        Nat.succ_le_succ hsmall, fun rest => ?_⟩
      · rw [appendDerLength_long hshort hfirst, hcount, hdrop, leastSignificantByte_eq,
          longForm_eq hsmall, List.append_assoc, List.singleton_append]
      · rw [List.cons_append, derLength_long (by omega) _ (by omega), hvalue]
        rintro hzero
        exact hne (Option.some.inj hzero)

theorem withoutLeadingZeros_spec {value : Bytes} (h : value ≠ []) :
    ∃ first rest, withoutLeadingZeros value = .ok (first :: rest) ∧
      rest.length < value.length ∧ unsigned (first :: rest) = unsigned value ∧
      (first = 0 → rest = []) := by
  rw [withoutLeadingZeros]
  cases hfirst : firstNonZero value with
  -- the value is zero, and one octet of it is kept
  | none =>
    obtain ⟨count, hcount⟩ := Nat.exists_eq_add_of_lt (List.length_pos_of_ne_nil h)
    rw [Nat.zero_add] at hcount
    have hzeros := firstNonZero_eq_none hfirst
    have hdrop : value.drop (value.length - 1) = [0] := by
      rw [hzeros, List.drop_replicate, List.length_replicate, hcount]
      simp
    refine ⟨0, [], ?_, by rw [hcount]; simp, ?_, fun _ => rfl⟩
    · exact bind_eq_ok.mpr ⟨(), ensure_eq_ok.mpr h, by rw [hdrop]; rfl⟩
    · rw [hzeros, unsigned_zeros]
      rfl
  -- from the first octet that is not zero
  | some index =>
    obtain ⟨first, rest, hne, heq⟩ := firstNonZero_eq_some hfirst
    have hdrop : value.drop index = first :: rest := by
      rw [heq]
      exact List.drop_left' List.length_replicate
    refine ⟨first, rest, ?_, ?_, ?_, fun hzero => absurd hzero hne⟩
    · show pure (value.drop index) = _
      rw [hdrop]
      rfl
    · rw [heq, List.length_append, List.length_cons]
      omega
    · rw [heq, unsigned_zeros_append]

theorem signBit_iff (byte : UInt8) : byte &&& 0x80 ≠ 0 ↔ 128 ≤ byte.toNat := by
  have hand : (byte &&& 0x80).toNat = (byte.toNat.testBit 7).toNat * 2 ^ 7 := by
    rw [UInt8.toNat_and]
    exact Nat.and_two_pow byte.toNat 7
  have hbit : byte.toNat.testBit 7 = decide (128 ≤ byte.toNat) := by
    have hlt := byte.toNat_lt
    rw [Nat.testBit_eq_decide_div_mod_eq, decide_eq_decide]
    omega
  rw [Ne, ← UInt8.toNat_inj, hand, hbit]
  by_cases h : 128 ≤ byte.toNat <;> simp [h]

/-- The octets of the number, with a zero in front if the sign bit is set, are minimal. -/
theorem derUnsigned_prefixed {first : UInt8} {rest : Bytes} (h : first = 0 → rest = []) :
    derUnsigned ((if first &&& 0x80 ≠ 0 then [0] else []) ++ first :: rest) =
      some (unsigned (first :: rest)) := by
  refine derUnsigned_eq_some.mpr ?_
  split
  case isTrue hsign =>
    refine ⟨⟨⟨0, rfl, by decide⟩, fun second tail heq => ?_⟩, unsigned_zeros_append 1 _⟩
    cases heq
    exact (signBit_iff first).mp hsign
  case isFalse hsign =>
    rw [List.nil_append]
    refine ⟨⟨⟨first, rfl, ?_⟩, fun second tail heq => ?_⟩, rfl⟩
    · rw [signBit_iff] at hsign
      omega
    · cases heq
      cases h rfl

/-- What `append_der_integer` writes is read as the number, whatever is behind it. -/
theorem appendDerInteger_spec {value : Bytes} (hne : value ≠ []) (hsmall : value.length < 256 ^ 7)
    (encoded : Bytes) :
    ∃ element, appendDerInteger encoded value = .ok (encoded ++ element) ∧
      element.length ≤ value.length + 11 ∧
      ∀ rest, derInteger (element ++ rest) = some (unsigned value, rest) := by
  obtain ⟨first, tail, hstrip, hshorter, hvalue, hzero⟩ := withoutLeadingZeros_spec hne
  -- the contents are at most one octet longer than the value
  have hcontents : ((if first &&& 0x80 ≠ 0 then [0] else []) ++ first :: tail : Bytes).length =
      (first :: tail).length + if first &&& 0x80 ≠ 0 then 1 else 0 := by
    split <;> simp
  have hlength : (first :: tail).length + (if first &&& 0x80 ≠ 0 then 1 else 0) ≤
      value.length + 1 := by
    rw [List.length_cons]
    split <;> omega
  obtain ⟨octets, hoctets, hfew, hread⟩ := appendDerLength_spec
    (hlength.trans_lt (by omega) : _ < 256 ^ 8) (encoded ++ [0x02])
  refine ⟨0x02 :: (octets ++ ((if first &&& 0x80 ≠ 0 then [0] else []) ++ first :: tail)), ?_, ?_,
    fun rest => ?_⟩
  · simp only [appendDerInteger, bind_eq_ok, ofOption_eq_ok, pure_eq_ok]
    refine ⟨_, hstrip, first, rfl, ?_⟩
    rw [hoctets]
    simp only [List.append_assoc, List.cons_append, List.nil_append]
  · rw [List.length_cons, List.length_append, hcontents]
    omega
  · rw [derInteger, List.cons_append, List.append_assoc, derElement_append, Option.bind_some,
      derUnsigned_prefixed hzero, Option.map_some, hvalue]
    rw [hcontents]
    exact hread _

end OidcJwt

end BlobYard
