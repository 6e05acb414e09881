/-
Numbers read from their digits, the highest digit first.

* `bigEndian` — the value of a list of digits;
* `bigEndian_inj` — lists of one length with one value are equal;
* `exists_bigEndian` — every number below `b ^ n` is the value of `n` digits;
* `unsigned`, `toBeBytes` — numbers and their bytes;
* `unsigned_inj_of_head` — without leading zeros a number has one spelling.
-/
import Mathlib.Data.Nat.Digits.Lemmas

namespace BlobYard

/-- The value of the digits in base `b`, the highest digit first. -/
def bigEndian (b : ℕ) (digits : List ℕ) : ℕ :=
  Nat.ofDigits b digits.reverse

namespace Radix

variable {b : ℕ} {digits digits' : List ℕ}

@[simp] theorem bigEndian_nil : bigEndian b [] = 0 := rfl

@[simp] theorem bigEndian_concat (digit : ℕ) :
    bigEndian b (digits ++ [digit]) = bigEndian b digits * b + digit := by
  simp only [bigEndian, List.reverse_append, List.reverse_singleton, List.singleton_append,
    Nat.ofDigits_cons]
  ring

theorem bigEndian_append (digits digits' : List ℕ) :
    bigEndian b (digits ++ digits') =
      bigEndian b digits * b ^ digits'.length + bigEndian b digits' := by
  simp only [bigEndian, List.reverse_append, Nat.ofDigits_append, List.length_reverse]
  ring

/-- A number whose first digit is not zero has no fewer digits than written. -/
theorem le_bigEndian_cons {digit : ℕ} (h : digit ≠ 0) :
    b ^ digits.length ≤ bigEndian b (digit :: digits) := by
  have happend : bigEndian b ([digit] ++ digits) =
      bigEndian b [digit] * b ^ digits.length + bigEndian b digits := bigEndian_append _ _
  have hone : bigEndian b [digit] = digit := Nat.ofDigits_singleton
  rw [List.singleton_append, hone] at happend
  rw [happend]
  exact (Nat.le_mul_of_pos_left _ (Nat.pos_of_ne_zero h)).trans (Nat.le_add_right _ _)

theorem bigEndian_lt (hb : 1 < b) (h : ∀ d ∈ digits, d < b) :
    bigEndian b digits < b ^ digits.length := by
  rw [← List.length_reverse]
  exact Nat.ofDigits_lt_base_pow_length hb fun d hd => h d (List.mem_reverse.mp hd)

/-- The digits are found again from the value and the number of digits. -/
theorem bigEndian_inj (hb : 1 < b) (hlen : digits.length = digits'.length)
    (h : ∀ d ∈ digits, d < b) (h' : ∀ d ∈ digits', d < b)
    (heq : bigEndian b digits = bigEndian b digits') : digits = digits' := by
  refine List.reverse_injective (Nat.ofDigits_inj_of_len_eq hb (by simpa using hlen) ?_ ?_ heq)
  · exact fun d hd => h d (List.mem_reverse.mp hd)
  · exact fun d hd => h' d (List.mem_reverse.mp hd)

theorem exists_bigEndian (hb : 1 < b) (n value : ℕ) (hvalue : value < b ^ n) :
    ∃ digits, digits.length = n ∧ (∀ d ∈ digits, d < b) ∧ bigEndian b digits = value := by
  induction n generalizing value with
  | zero =>
    refine ⟨[], rfl, by simp, ?_⟩
    rw [pow_zero] at hvalue
    rw [bigEndian_nil]
    omega
  | succ n ih =>
    have hhigh : value / b < b ^ n := by
      rw [Nat.div_lt_iff_lt_mul (by omega)]
      rwa [pow_succ] at hvalue
    obtain ⟨digits, hlen, hdigits, hdiv⟩ := ih (value / b) hhigh
    refine ⟨digits ++ [value % b], by simp [hlen], fun d hd => ?_, ?_⟩
    · rcases List.mem_append.mp hd with hd | hd
      · exact hdigits d hd
      · rw [List.mem_singleton.mp hd]
        exact Nat.mod_lt _ (by omega)
    · rw [bigEndian_concat, hdiv, mul_comm, Nat.div_add_mod]

end Radix

open Radix

/-! ### Numbers and their bytes -/

/-- The number that the bytes write. -/
def unsigned (bytes : List UInt8) : ℕ := bigEndian 256 (bytes.map UInt8.toNat)

/-- `to_be_bytes`, of a number with so many bytes. -/
def toBeBytes : ℕ → ℕ → List UInt8
  | 0, _ => []
  | width + 1, value => toBeBytes width (value / 256) ++ [UInt8.ofNat value]

theorem octet_lt {bytes : List UInt8} {d : ℕ} (hd : d ∈ bytes.map UInt8.toNat) : d < 256 := by
  obtain ⟨byte, -, rfl⟩ := List.mem_map.mp hd
  exact byte.toNat_lt

theorem unsigned_append (bytes bytes' : List UInt8) :
    unsigned (bytes ++ bytes') = unsigned bytes * 256 ^ bytes'.length + unsigned bytes' := by
  rw [unsigned, List.map_append, bigEndian_append, List.length_map]
  rfl

theorem unsigned_zeros (count : ℕ) : unsigned (List.replicate count 0) = 0 := by
  induction count with
  | zero => rfl
  | succ count ih =>
    rw [List.replicate_succ', unsigned_append, ih, Nat.zero_mul]
    rfl

/-- Leading zeros do not count. -/
theorem unsigned_zeros_append (count : ℕ) (bytes : List UInt8) :
    unsigned (List.replicate count 0 ++ bytes) = unsigned bytes := by
  rw [unsigned_append, unsigned_zeros, Nat.zero_mul, Nat.zero_add]

theorem unsigned_lt (bytes : List UInt8) : unsigned bytes < 256 ^ bytes.length := by
  have hlt : unsigned bytes < 256 ^ (bytes.map UInt8.toNat).length :=
    bigEndian_lt (by decide) fun _ => octet_lt
  rwa [List.length_map] at hlt

theorem unsigned_cons (first : UInt8) (rest : List UInt8) :
    unsigned (first :: rest) = first.toNat * 256 ^ rest.length + unsigned rest := by
  have hone : unsigned [first] = first.toNat := Nat.ofDigits_singleton
  rw [← List.singleton_append, unsigned_append, hone]

theorem le_unsigned_cons {first : UInt8} (h : first ≠ 0) (rest : List UInt8) :
    256 ^ rest.length ≤ unsigned (first :: rest) := by
  have hne : first.toNat ≠ 0 := fun hzero => h (UInt8.toNat_inj.mp hzero)
  have hle : 256 ^ (rest.map UInt8.toNat).length ≤ unsigned (first :: rest) := le_bigEndian_cons hne
  rwa [List.length_map] at hle

theorem unsigned_inj {bytes bytes' : List UInt8} (hlength : bytes.length = bytes'.length)
    (h : unsigned bytes = unsigned bytes') : bytes = bytes' := by
  have hmap := bigEndian_inj (b := 256) (by decide)
    (by rw [List.length_map, List.length_map, hlength])
    (fun _ => octet_lt) (fun _ => octet_lt) h
  exact List.map_injective_iff.mpr (fun _ _ h => UInt8.toNat_inj.mp h) hmap

/-- Without leading zeros a number has one spelling. -/
theorem unsigned_inj_of_head {bytes bytes' : List UInt8} (hhead : bytes.head? ≠ some 0)
    (hhead' : bytes'.head? ≠ some 0) (h : unsigned bytes = unsigned bytes') : bytes = bytes' := by
  have hshorter : ∀ {short long : List UInt8}, long.head? ≠ some 0 →
      unsigned short = unsigned long → long.length ≤ short.length := by
    intro short long hlong heq
    cases long with
    | nil => exact Nat.zero_le _
    | cons first rest =>
      have hfirst : first ≠ 0 := fun hzero => hlong (by rw [hzero]; rfl)
      have hle := le_unsigned_cons hfirst rest
      have hlt := unsigned_lt short
      rw [heq] at hlt
      have hpow := (Nat.pow_lt_pow_iff_right (by decide)).mp (hle.trans_lt hlt)
      rw [List.length_cons]
      omega
  exact unsigned_inj (Nat.le_antisymm (hshorter hhead h.symm) (hshorter hhead' h)) h

theorem length_toBeBytes (width value : ℕ) : (toBeBytes width value).length = width := by
  induction width generalizing value with
  | zero => rfl
  | succ width ih => rw [toBeBytes, List.length_append, ih, List.length_singleton]

theorem unsigned_toBeBytes {width value : ℕ} (h : value < 256 ^ width) :
    unsigned (toBeBytes width value) = value := by
  induction width generalizing value with
  | zero =>
    rw [pow_zero] at h
    show 0 = value
    omega
  | succ width ih =>
    have hhigh : value / 256 < 256 ^ width := by
      rw [Nat.div_lt_iff_lt_mul (by decide)]
      rwa [pow_succ] at h
    have hlow : unsigned [UInt8.ofNat value] = value % 256 := by
      show bigEndian 256 [(UInt8.ofNat value).toNat] = _
      rw [UInt8.toNat_ofNat']
      exact Nat.ofDigits_singleton
    rw [toBeBytes, unsigned_append, ih hhigh, hlow, List.length_singleton, pow_one]
    omega

/-- Bytes are the bytes of their number. -/
theorem toBeBytes_unsigned (bytes : List UInt8) : toBeBytes bytes.length (unsigned bytes) = bytes :=
  unsigned_inj (length_toBeBytes _ _) (unsigned_toBeBytes (unsigned_lt bytes))

end BlobYard
