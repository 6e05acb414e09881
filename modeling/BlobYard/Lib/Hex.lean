/-
Bytes in hexadecimal.

Every byte is two digits, written in lower case.  Digits of either case are read.  Programs that
take the encoding from elsewhere are stated over the class.

* `Hex` — a writer and a reader, and what is promised of them;
* `HexDigits.encode`, `HexDigits.decode` — a writer and a reader that keep the promises;
* `hexDigits` — as an instance of the class.
-/
import Mathlib.Data.List.Basic

namespace BlobYard

def lowerHexDigits : List Char :=
  ['0', '1', '2', '3', '4', '5', '6', '7', '8', '9', 'a', 'b', 'c', 'd', 'e', 'f']

/-- A writer and a reader of hexadecimal texts. -/
class Hex where
  hexEncode : List UInt8 → List Char
  hexDecode : List Char → Option (List UInt8)
  /-- What was written is read, -/
  hexDecode_encode : ∀ bytes, hexDecode (hexEncode bytes) = some bytes
  /-- and a text of lower-case digits is read as the bytes it is written for. -/
  hexEncode_decode : ∀ {text bytes}, (∀ c ∈ text, c ∈ lowerHexDigits) →
    hexDecode text = some bytes → hexEncode bytes = text
  /-- Every byte is two digits, -/
  length_hexEncode : ∀ bytes, (hexEncode bytes).length = 2 * bytes.length
  /-- in lower case. -/
  hexEncode_lower : ∀ bytes, ∀ c ∈ hexEncode bytes, c ∈ lowerHexDigits

export Hex (hexEncode hexDecode hexDecode_encode hexEncode_decode length_hexEncode hexEncode_lower)

/-! ### A writer and a reader -/

def upperHexDigits : List Char :=
  ['0', '1', '2', '3', '4', '5', '6', '7', '8', '9', 'A', 'B', 'C', 'D', 'E', 'F']

def lowerHexDigit (value : ℕ) : Char := lowerHexDigits.getD value '0'

/-- The value of a digit of either case. -/
def hexDigit? (c : Char) : Option ℕ :=
  (lowerHexDigits.idxOf? c).or (upperHexDigits.idxOf? c)

namespace HexDigits

def encode (bytes : List UInt8) : List Char :=
  bytes.flatMap fun byte => [lowerHexDigit (byte.toNat / 16), lowerHexDigit (byte.toNat % 16)]

def decode : List Char → Option (List UInt8)
  | [] => some []
  | [_] => none
  | high :: low :: rest => do
    let high ← hexDigit? high
    let low ← hexDigit? low
    let bytes ← decode rest
    some (UInt8.ofNat (16 * high + low) :: bytes)

theorem hexDigit?_lower {value : ℕ} (h : value < 16) :
    hexDigit? (lowerHexDigit value) = some value := by
  revert value
  decide

/-- A lower-case digit has a value that is written as the digit. -/
theorem lowerHexDigit_value {c : Char} (h : c ∈ lowerHexDigits) :
    ∃ value < 16, hexDigit? c = some value ∧ lowerHexDigit value = c := by
  have hall : lowerHexDigits.all (fun c => (hexDigit? c).any fun value =>
      decide (value < 16 ∧ lowerHexDigit value = c)) = true := by decide
  obtain ⟨value, hvalue, hdigit⟩ := (Option.any_eq_true _ _).mp (List.all_eq_true.mp hall c h)
  exact ⟨value, (of_decide_eq_true hdigit).1, hvalue, (of_decide_eq_true hdigit).2⟩

theorem lowerHexDigit_mem {value : ℕ} (h : value < 16) : lowerHexDigit value ∈ lowerHexDigits := by
  revert value
  decide

theorem encode_cons (byte : UInt8) (bytes : List UInt8) :
    encode (byte :: bytes) =
      lowerHexDigit (byte.toNat / 16) :: lowerHexDigit (byte.toNat % 16) :: encode bytes := rfl

/-- What was written is read. -/
theorem decode_encode (bytes : List UInt8) : decode (encode bytes) = some bytes := by
  induction bytes with
  | nil => rfl
  | cons byte bytes ih =>
    have hbyte : byte.toNat < 256 := byte.toNat_lt
    have hsplit : UInt8.ofNat (16 * (byte.toNat / 16) + byte.toNat % 16) = byte := by
      rw [Nat.div_add_mod, UInt8.ofNat_toNat]
    rw [encode_cons, decode, hexDigit?_lower (by omega), hexDigit?_lower (by omega), ih]
    exact congrArg some (congrArg (· :: bytes) hsplit)

/-- A text of lower-case digits is written in one way only. -/
theorem encode_decode {text : List Char} {bytes : List UInt8}
    (hlower : ∀ c ∈ text, c ∈ lowerHexDigits) (h : decode text = some bytes) :
    encode bytes = text := by
  induction text using decode.induct generalizing bytes with
  | case1 =>
    obtain rfl := Option.some.inj h
    rfl
  | case2 c => exact absurd h nofun
  | case3 high low rest ih =>
    obtain ⟨a, ha, hhigh, rfl⟩ := lowerHexDigit_value (hlower high List.mem_cons_self)
    obtain ⟨b, hb, hlow, rfl⟩ := lowerHexDigit_value (hlower low (by simp))
    simp only [decode, hhigh, hlow, Option.bind_eq_bind, Option.bind_some,
      Option.bind_eq_some_iff, Option.some.injEq] at h
    obtain ⟨bytes', hrest, rfl⟩ := h
    have hvalue : (UInt8.ofNat (16 * a + b)).toNat = 16 * a + b :=
      UInt8.toNat_ofNat_of_lt' (by show _ < 256; omega)
    rw [encode_cons, hvalue, ih (fun c hc => hlower c (by simp [hc])) hrest,
      show (16 * a + b) / 16 = a by omega, show (16 * a + b) % 16 = b by omega]

theorem length_encode (bytes : List UInt8) : (encode bytes).length = 2 * bytes.length := by
  induction bytes with
  | nil => rfl
  | cons byte bytes ih =>
    rw [encode_cons, List.length_cons, List.length_cons, ih, List.length_cons]
    omega

theorem encode_lower (bytes : List UInt8) : ∀ c ∈ encode bytes, c ∈ lowerHexDigits := by
  intro c hc
  obtain ⟨byte, -, hbyte⟩ := List.mem_flatMap.mp hc
  have hlt : byte.toNat < 256 := byte.toNat_lt
  rcases List.mem_pair.mp hbyte with rfl | rfl
  · exact lowerHexDigit_mem (by omega)
  · exact lowerHexDigit_mem (by omega)

end HexDigits

/-- The writer and the reader. -/
@[reducible] def hexDigits : Hex where
  hexEncode := HexDigits.encode
  hexDecode := HexDigits.decode
  hexDecode_encode := HexDigits.decode_encode
  hexEncode_decode := HexDigits.encode_decode
  length_hexEncode := HexDigits.length_encode
  hexEncode_lower := HexDigits.encode_lower

end BlobYard
