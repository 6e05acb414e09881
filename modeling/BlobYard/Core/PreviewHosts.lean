/-
The host label of a preview capability.

Thirty-two bytes of entropy are written as lowercase base32: a sixteen-bit buffer
takes a byte at a time and gives up its bits five at a time, and the one bit that
is left fills the last symbol from the top.

* `encodePreviewHost` — the encoder, with the arithmetic of its `u16` buffer;
* `validHostCapability` — the check of a host label in a request;
* `Packs` — what the buffer holds after any number of bytes;
* `encodePreviewHost_eq` — the symbols written are the number of the entropy in
  base 32, shifted by four bits.
-/
import Mathlib.Data.Nat.Bitwise
import Mathlib.Data.List.OfFn
import BlobYard.Lib.Radix
import BlobYard.Lib.Utf8

namespace BlobYard

namespace PreviewHosts

open Radix

/-- `PREVIEW_HOST_ALPHABET`. -/
def previewHostAlphabet : List Char := "abcdefghijklmnopqrstuvwxyz234567".toList

theorem length_previewHostAlphabet : previewHostAlphabet.length = 32 := by decide

/-- The symbol of five bits. -/
def symbol (index : Fin 32) : Char :=
  previewHostAlphabet.get (index.cast length_previewHostAlphabet.symm)

/-- `PREVIEW_HOST_ALPHABET[usize::from(bits & 0x1f)]`. -/
def symbolOf (bits : ℕ) : Char :=
  symbol ⟨bits &&& 0x1f, lt_of_le_of_lt Nat.and_le_right (by decide)⟩

/-- `value << count` on a `u16`: the bits above the sixteenth are lost. -/
def shiftLeft16 (value count : ℕ) : ℕ := (value <<< count) % 65536

/-- The loop variables of the encoder. -/
structure Packing where
  output : List Char := []
  buffer : ℕ := 0
  bitCount : ℕ := 0

namespace Packing

/-- `while bit_count >= 5`: the symbols whose bits are all in the buffer. -/
def drain (p : Packing) : Packing :=
  if 5 ≤ p.bitCount then
    drain
      { output := p.output ++ [symbolOf (p.buffer >>> (p.bitCount - 5))]
        buffer := p.buffer &&& (shiftLeft16 1 (p.bitCount - 5) - 1)
        bitCount := p.bitCount - 5 }
  else p
termination_by p.bitCount

/-- The buffer with one more byte in it. -/
def fill (p : Packing) (byte : UInt8) : Packing :=
  { p with buffer := shiftLeft16 p.buffer 8 ||| byte.toNat, bitCount := p.bitCount + 8 }

/-- One turn of `for byte in entropy`. -/
def push (p : Packing) (byte : UInt8) : Packing := (p.fill byte).drain

/-- The loop over `bytes`. -/
def pack (bytes : List UInt8) : Packing := bytes.foldl push {}

/-- The symbol of the bits that are left. -/
def tail (p : Packing) : Char := symbolOf (shiftLeft16 p.buffer (5 - p.bitCount))

end Packing

open Packing

/-- `encode_preview_host`: 51 characters of five bits each and one of the bit that is left. -/
def encodePreviewHost (entropy : Vector UInt8 32) : String :=
  let p := pack entropy.toList
  String.ofList (p.output ++ [p.tail])

/-- The characters of the alphabet. -/
def isBase32 (c : Char) : Bool := ('a' ≤ c && c ≤ 'z') || ('2' ≤ c && c ≤ '7')

/-- A byte outside ASCII is in no alphabet, so the bytes of the value are its characters. -/
def validHostCapability (value : String) : Bool :=
  value.utf8ByteSize == 52 &&
    value.toList.zipIdx.all fun (c, index) =>
      isBase32 c && (index != 51 || c ∈ "acegikmoqsuwy246".toList)

/-! ### The buffer -/

/-- The bytes as digits in base 256. -/
def octets (bytes : List UInt8) : List ℕ := bytes.map UInt8.toNat

/-- The number written by the symbols. -/
def word (indices : List (Fin 32)) : ℕ := bigEndian 32 (indices.map Fin.val)

@[simp] theorem word_concat (indices : List (Fin 32)) (index : Fin 32) :
    word (indices ++ [index]) = word indices * 32 + index := by
  simp [word]

/-- The symbols and the buffer together hold the first `bits` bits, the number `value`. -/
structure Holds (p : Packing) (indices : List (Fin 32)) (bits value : ℕ) : Prop where
  output : p.output = indices.map symbol
  buffer_lt : p.buffer < 2 ^ p.bitCount
  bits_eq : 5 * indices.length + p.bitCount = bits
  value_eq : word indices * 2 ^ p.bitCount + p.buffer = value

/-- The state of the loop between two bytes. -/
structure Packs (p : Packing) (indices : List (Fin 32)) (bytes : List UInt8) : Prop
    extends Holds p indices (8 * bytes.length) (bigEndian 256 (octets bytes)) where
  bitCount_lt : p.bitCount < 5

theorem shiftLeft16_eq {value count : ℕ} (h : value * 2 ^ count < 65536) :
    shiftLeft16 value count = value * 2 ^ count := by
  rw [shiftLeft16, Nat.shiftLeft_eq, Nat.mod_eq_of_lt h]

theorem symbolOf_eq {bits : ℕ} (h : bits < 32) : symbolOf bits = symbol ⟨bits, h⟩ := by
  have hmask : bits &&& 0x1f = bits := by
    have := Nat.and_two_pow_sub_one_eq_mod bits 5
    rw [show (2 : ℕ) ^ 5 - 1 = 0x1f by decide] at this
    rw [this, Nat.mod_eq_of_lt h]
  simp [symbolOf, hmask]

/-- One symbol leaves the buffer from the top. -/
theorem Holds.emit {p : Packing} {indices : List (Fin 32)} {bits value : ℕ}
    (h : Holds p indices bits value) (hfive : 5 ≤ p.bitCount) (hmax : p.bitCount ≤ 16) :
    ∃ index : Fin 32,
      Holds { output := p.output ++ [symbolOf (p.buffer >>> (p.bitCount - 5))]
              buffer := p.buffer &&& (shiftLeft16 1 (p.bitCount - 5) - 1)
              bitCount := p.bitCount - 5 } (indices ++ [index]) bits value := by
  obtain ⟨k, hk⟩ : ∃ k, p.bitCount = k + 5 := ⟨p.bitCount - 5, by omega⟩
  have hsplit : (2 : ℕ) ^ p.bitCount = 32 * 2 ^ k := by
    rw [hk, pow_add]
    ring
  have hpow : (2 : ℕ) ^ k ≤ 2 ^ 11 := Nat.pow_le_pow_right (by decide) (by omega)
  have hhigh : p.buffer / 2 ^ k < 32 := by
    rw [Nat.div_lt_iff_lt_mul (by positivity), ← hsplit]
    exact h.buffer_lt
  have hlow : p.buffer &&& (shiftLeft16 1 k - 1) = p.buffer % 2 ^ k := by
    rw [shiftLeft16_eq (by omega), one_mul, Nat.and_two_pow_sub_one_eq_mod]
  have hparts := Nat.div_add_mod p.buffer (2 ^ k)
  rw [show p.bitCount - 5 = k by omega, hlow, Nat.shiftRight_eq_div_pow, symbolOf_eq hhigh]
  refine ⟨⟨_, hhigh⟩, by simp [h.output], Nat.mod_lt _ (by positivity), ?_, ?_⟩
  · have := h.bits_eq
    simp only [List.length_append, List.length_singleton]
    omega
  -- the five bits become the last digit of the word
  · rw [word_concat, ← h.value_eq, hsplit]
    calc (word indices * 32 + p.buffer / 2 ^ k) * 2 ^ k + p.buffer % 2 ^ k
        = word indices * (32 * 2 ^ k) + (2 ^ k * (p.buffer / 2 ^ k) + p.buffer % 2 ^ k) := by ring
      _ = word indices * (32 * 2 ^ k) + p.buffer := by rw [hparts]

theorem Holds.drain {p : Packing} {indices : List (Fin 32)} {bits value : ℕ}
    (h : Holds p indices bits value) (hmax : p.bitCount ≤ 16) :
    ∃ indices', Holds p.drain indices' bits value ∧ p.drain.bitCount < 5 := by
  -- by induction on the bits in the buffer
  induction p using Packing.drain.induct generalizing indices with
  | case1 p hfive ih =>
    obtain ⟨index, hemit⟩ := h.emit hfive hmax
    rw [Packing.drain, if_pos hfive]
    exact ih hemit (by simp only; omega)
  | case2 p hfive =>
    rw [Packing.drain, if_neg hfive]
    exact ⟨indices, h, by omega⟩

/-- A byte goes into the buffer from the bottom, and nothing is shifted out of it. -/
theorem Packs.fill {p : Packing} {indices : List (Fin 32)} {bytes : List UInt8}
    (h : Packs p indices bytes) (byte : UInt8) :
    (p.fill byte).buffer = p.buffer * 256 + byte.toNat ∧
      Holds (p.fill byte) indices (8 * (bytes ++ [byte]).length)
        (bigEndian 256 (octets (bytes ++ [byte]))) := by
  have hbyte := byte.toNat_lt
  have hpow : (2 : ℕ) ^ p.bitCount ≤ 2 ^ 4 :=
    Nat.pow_le_pow_right (by decide) (by have := h.bitCount_lt; omega)
  have hbuffer : p.buffer < 2 ^ p.bitCount := h.buffer_lt
  have hfill : (p.fill byte).buffer = p.buffer * 256 + byte.toNat := by
    have := Nat.shiftLeft_add_eq_or_of_lt (i := 8) hbyte p.buffer
    rw [Packing.fill, shiftLeft16_eq (by omega), ← Nat.shiftLeft_eq, ← this, Nat.shiftLeft_eq]
  refine ⟨hfill, h.output, ?_, ?_, ?_⟩
  · rw [hfill, Packing.fill, pow_add]
    omega
  · have := h.bits_eq
    simp only [Packing.fill, List.length_append, List.length_singleton]
    omega
  · have hvalue := h.value_eq
    rw [hfill, octets, List.map_append, List.map_singleton, bigEndian_concat]
    change _ = bigEndian 256 (octets bytes) * 256 + byte.toNat
    rw [← hvalue, Packing.fill, pow_add]
    ring

theorem packs_pack (bytes : List UInt8) : ∃ indices, Packs (pack bytes) indices bytes := by
  -- by induction on the bytes read, the last one first
  induction bytes using List.reverseRecOn with
  | nil => exact ⟨[], ⟨⟨rfl, by decide, rfl, rfl⟩, by decide⟩⟩
  | append_singleton bytes byte ih =>
    obtain ⟨indices, h⟩ := ih
    have hmax : ((pack bytes).fill byte).bitCount ≤ 16 := by
      have := h.bitCount_lt
      simp only [Packing.fill]
      omega
    obtain ⟨indices', hdrain, hlt⟩ := (h.fill byte).2.drain hmax
    refine ⟨indices', ?_⟩
    rw [pack, List.foldl_append]
    exact ⟨hdrain, hlt⟩

/-! ### The label -/

theorem symbol_injective : Function.Injective symbol := by
  have hnodup : previewHostAlphabet.Nodup := by decide
  intro i j h
  have := List.nodup_iff_injective_get.mp hnodup h
  simpa [Fin.ext_iff] using this

theorem length_octets (entropy : Vector UInt8 32) : (octets entropy.toList).length = 32 := by
  simp [octets]

theorem octets_lt (bytes : List UInt8) : ∀ d ∈ octets bytes, d < 256 := by
  intro d hd
  obtain ⟨byte, -, rfl⟩ := List.mem_map.mp hd
  exact byte.toNat_lt

theorem word_lt (indices : List (Fin 32)) : word indices < 32 ^ indices.length := by
  have hlt : ∀ d ∈ indices.map Fin.val, d < 32 := by
    intro d hd
    obtain ⟨index, -, rfl⟩ := List.mem_map.mp hd
    exact index.isLt
  have := bigEndian_lt (by decide) hlt
  simpa [word] using this

theorem word_inj {indices indices' : List (Fin 32)} (hlen : indices.length = indices'.length)
    (h : word indices = word indices') : indices = indices' := by
  have hlt : ∀ l : List (Fin 32), ∀ d ∈ l.map Fin.val, d < 32 := by
    intro l d hd
    obtain ⟨index, -, rfl⟩ := List.mem_map.mp hd
    exact index.isLt
  exact List.map_injective_iff.mpr Fin.val_injective
    (bigEndian_inj (by decide) (by simpa using hlen) (hlt _) (hlt _) h)

/-- After the thirty-two bytes one bit is left, and the last symbol is that bit. -/
theorem pack_entropy (entropy : Vector UInt8 32) :
    ∃ indices, Packs (pack entropy.toList) indices entropy.toList ∧ indices.length = 51 ∧
      (pack entropy.toList).bitCount = 1 := by
  obtain ⟨indices, h⟩ := packs_pack entropy.toList
  have hbits := h.bits_eq
  have hlt := h.bitCount_lt
  rw [Vector.length_toList] at hbits
  exact ⟨indices, h, by omega, by omega⟩

/-- The label is the number of the entropy in base 32, with four zero bits after it. -/
theorem encodePreviewHost_eq (entropy : Vector UInt8 32) :
    ∃ indices : List (Fin 32), indices.length = 52 ∧
      encodePreviewHost entropy = String.ofList (indices.map symbol) ∧
      word indices = bigEndian 256 (octets entropy.toList) * 16 := by
  obtain ⟨indices, h, hlen, hone⟩ := pack_entropy entropy
  have hbuffer : (pack entropy.toList).buffer < 2 := by
    have := h.buffer_lt
    rwa [hone] at this
  have htail : (pack entropy.toList).tail =
      symbol ⟨(pack entropy.toList).buffer * 16, by omega⟩ := by
    rw [Packing.tail, hone, shiftLeft16_eq (by omega), symbolOf_eq (by omega)]
    rfl
  refine ⟨indices ++ [⟨(pack entropy.toList).buffer * 16, by omega⟩], by simp [hlen], ?_, ?_⟩
  · simp [encodePreviewHost, htail, h.output]
  · have := h.value_eq
    rw [hone] at this
    rw [word_concat, ← this]
    ring

theorem encodePreviewHost_injective : Function.Injective encodePreviewHost := by
  intro entropy entropy' h
  obtain ⟨indices, hlen, hlabel, hword⟩ := encodePreviewHost_eq entropy
  obtain ⟨indices', hlen', hlabel', hword'⟩ := encodePreviewHost_eq entropy'
  rw [hlabel, hlabel', String.ofList_inj] at h
  have hindices : indices = indices' := List.map_injective_iff.mpr symbol_injective h
  rw [hindices, hword'] at hword
  have hvalue := Nat.eq_of_mul_eq_mul_right (by decide : 0 < 16) hword
  have hoctets := bigEndian_inj (by decide)
    ((length_octets entropy').trans (length_octets entropy).symm) (octets_lt _) (octets_lt _)
    hvalue
  have hbytes : entropy'.toList = entropy.toList :=
    List.map_injective_iff.mpr (fun _ _ => UInt8.toNat_inj.mp) hoctets
  exact Vector.toList_inj.mp hbytes.symm

/-- A label of fifty-two symbols is an encoding when its last four bits are zero. -/
theorem exists_encodePreviewHost_iff {value : String} :
    (∃ entropy, encodePreviewHost entropy = value) ↔
      ∃ indices : List (Fin 32), indices.length = 52 ∧ value = String.ofList (indices.map symbol) ∧
        16 ∣ word indices := by
  constructor
  · rintro ⟨entropy, rfl⟩
    obtain ⟨indices, hlen, hlabel, hword⟩ := encodePreviewHost_eq entropy
    exact ⟨indices, hlen, hlabel, hword ▸ dvd_mul_left 16 _⟩
  · rintro ⟨indices, hlen, rfl, number, hnumber⟩
    have hlt : number < 256 ^ 32 := by
      have := word_lt indices
      rw [hlen, hnumber, show (32 : ℕ) ^ 52 = 16 * 256 ^ 32 by norm_num] at this
      exact Nat.lt_of_mul_lt_mul_left this
    obtain ⟨digits, hdigits, hbytes, hvalue⟩ :=
      exists_bigEndian (b := 256) (by decide) 32 number hlt
    have hoctets : octets (digits.map UInt8.ofNat) = digits := by
      rw [octets, List.map_map]
      conv_rhs => rw [← List.map_id digits]
      refine List.map_congr_left fun d hd => ?_
      have := hbytes d hd
      simp only [Function.comp_apply, UInt8.toNat_ofNat', id_eq]
      omega
    let entropy : Vector UInt8 32 := ⟨(digits.map UInt8.ofNat).toArray, by simp [hdigits]⟩
    have hentropy : entropy.toList = digits.map UInt8.ofNat := by simp [entropy, Vector.toList]
    obtain ⟨indices', hlen', hlabel, hword⟩ := encodePreviewHost_eq entropy
    refine ⟨entropy, ?_⟩
    rw [hentropy, hoctets, hvalue, mul_comm, ← hnumber] at hword
    rw [hlabel, word_inj (hlen'.trans hlen.symm) hword]

/-- Whether a label is a multiple of sixteen shows in its last symbol. -/
theorem sixteen_dvd_word_concat (indices : List (Fin 32)) (index : Fin 32) :
    16 ∣ word (indices ++ [index]) ↔ symbol index = 'a' ∨ symbol index = 'q' := by
  have hdvd : 16 ∣ word (indices ++ [index]) ↔ 16 ∣ index.val := by
    rw [word_concat, Nat.dvd_add_right (Dvd.dvd.mul_left (by decide) _)]
  have hlast : ∀ i : Fin 32, 16 ∣ i.val ↔ symbol i = 'a' ∨ symbol i = 'q' := by decide
  rw [hdvd, hlast]

/-! ### The check of a host -/

theorem symbol_toNat (index : Fin 32) :
    (symbol index).toNat = if index.val < 26 then 97 + index.val else 24 + index.val := by
  revert index
  decide

theorem isBase32_iff {c : Char} : isBase32 c = true ↔ ∃ index, symbol index = c := by
  have hbound : ∀ c d : Char, c ≤ d ↔ c.toNat ≤ d.toNat := fun _ _ => Iff.rfl
  simp only [isBase32, Bool.or_eq_true, Bool.and_eq_true, decide_eq_true_eq, hbound]
  change (97 ≤ c.toNat ∧ c.toNat ≤ 122 ∨ 50 ≤ c.toNat ∧ c.toNat ≤ 55) ↔ _
  constructor
  · rintro (⟨hlow, hhigh⟩ | ⟨hlow, hhigh⟩)
    · refine ⟨⟨c.toNat - 97, by omega⟩, Char.toNat_inj.mp ?_⟩
      rw [symbol_toNat, if_pos (by simp only; omega)]
      simp only
      omega
    · refine ⟨⟨c.toNat - 24, by omega⟩, Char.toNat_inj.mp ?_⟩
      rw [symbol_toNat, if_neg (by simp only; omega)]
      simp only
      omega
  · rintro ⟨index, rfl⟩
    have := index.isLt
    rw [symbol_toNat]
    split <;> omega

/-- A text over the alphabet is written by symbols. -/
theorem exists_symbols_iff {characters : List Char} :
    (∀ c ∈ characters, isBase32 c = true) ↔
      ∃ indices : List (Fin 32), indices.map symbol = characters := by
  rw [← Set.mem_range, Set.range_list_map]
  simp only [Set.mem_ofPred_eq, Set.mem_range, isBase32_iff]

theorem utf8Len_symbols (indices : List (Fin 32)) :
    String.utf8Len (indices.map symbol) = indices.length := by
  rw [utf8Len_eq_length, List.length_map]
  intro c hc
  obtain ⟨index, -, rfl⟩ := List.mem_map.mp hc
  have := index.isLt
  rw [symbol_toNat]
  split <;> omega

/-- The labels that the check of a host lets through: fifty-two symbols, the last of them from the
sixteen that end in a zero bit. -/
theorem validHostCapability_iff {value : String} :
    validHostCapability value = true ↔
      ∃ indices : List (Fin 32), ∃ index : Fin 32, indices.length = 51 ∧
        value = String.ofList ((indices ++ [index]).map symbol) ∧
        symbol index ∈ "acegikmoqsuwy246".toList := by
  have hzip : ∀ indices : List (Fin 32), ∀ index : Fin 32, indices.length = 51 →
      (((indices ++ [index]).map symbol).zipIdx.all fun (c, i) =>
        isBase32 c && (i != 51 || c ∈ "acegikmoqsuwy246".toList)) =
        decide (symbol index ∈ "acegikmoqsuwy246".toList) := by
    intro indices index hlen
    have hinit : ((indices.map symbol).zipIdx.all fun (c, i) =>
        isBase32 c && (i != 51 || c ∈ "acegikmoqsuwy246".toList)) = true := by
      refine List.all_eq_true.mpr fun (c, i) hmem => ?_
      obtain ⟨-, hi, hc⟩ := List.mem_zipIdx hmem
      have hsymbol : isBase32 c = true := by
        refine exists_symbols_iff.mpr ⟨indices, rfl⟩ c ?_
        rw [hc]
        exact List.getElem_mem _
      have hlt : i ≠ 51 := by
        rw [List.length_map] at hi
        omega
      simp [hsymbol, hlt]
    have hsymbol : isBase32 (symbol index) = true := isBase32_iff.mpr ⟨index, rfl⟩
    rw [List.map_append, List.zipIdx_append, List.all_append, hinit]
    simp [hsymbol, hlen]
  simp only [validHostCapability, Bool.and_eq_true, beq_iff_eq, utf8ByteSize_eq]
  constructor
  · rintro ⟨hsize, hall⟩
    have hsymbols : ∀ c ∈ value.toList, isBase32 c = true := by
      intro c hc
      obtain ⟨i, hi, rfl⟩ := List.getElem_of_mem hc
      have := List.all_eq_true.mp hall _ (List.mk_mem_zipIdx_iff_getElem?.mpr
        (List.getElem?_eq_getElem hi))
      simp only [Bool.and_eq_true] at this
      exact this.1
    obtain ⟨symbols, hvalue⟩ := exists_symbols_iff.mp hsymbols
    rw [← hvalue, utf8Len_symbols] at hsize
    rcases List.eq_nil_or_concat symbols with rfl | ⟨indices, index, rfl⟩
    · exact absurd hsize (by decide)
    · rw [List.concat_eq_append] at hvalue hsize
      have hlen : indices.length = 51 := by simpa using hsize
      rw [← hvalue, hzip _ _ hlen, decide_eq_true_eq] at hall
      refine ⟨indices, index, hlen, ?_, hall⟩
      rw [hvalue, String.ofList_toList]
  · rintro ⟨indices, index, hlen, rfl, hlast⟩
    rw [String.toList_ofList, utf8Len_symbols, hzip _ _ hlen]
    exact ⟨by simp [hlen], by simpa using hlast⟩

end PreviewHosts

end BlobYard
