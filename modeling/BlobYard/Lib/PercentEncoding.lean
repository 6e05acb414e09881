/-
Percent encoding of texts.

A text is written byte by byte; a byte that may not stand for itself becomes an escape, a
percent sign and two hexadecimal digits.  Which bytes those are is the parameter `escaped`.
Programs that take the encoding from elsewhere are stated over the class `PercentEncoding`.

* `percentEncode`, `percentDecode` — writing and reading;
* `wellEscaped` — every percent sign begins an escape;
* `percentDecode_percentEncode` — what is written is read back;
* `mem_percentEncode` — the characters that are written;
* `encodeBytes_append_inj` — two writers agree on a text when they agree on each of its bytes;
* `Spelled` — the texts that are read as given bytes, with escapes wherever a writer likes;
* `PercentEncoding` — an encoder of such texts, and a decoder of all of them;
* `percentEscapes` — these functions as an instance of the class.
-/
import BlobYard.Lib.Utf8
import Mathlib.Algebra.GroupWithZero.Nat
import Mathlib.Algebra.Order.Group.Nat

namespace BlobYard

/-- The byte of the percent sign. -/
def percentSign : UInt8 := 37

/-- The value of a hexadecimal digit. -/
def hexValue? (byte : UInt8) : Option ℕ :=
  if 48 ≤ byte.toNat ∧ byte.toNat ≤ 57 then some (byte.toNat - 48)
  else if 65 ≤ byte.toNat ∧ byte.toNat ≤ 70 then some (byte.toNat - 55)
  else if 97 ≤ byte.toNat ∧ byte.toNat ≤ 102 then some (byte.toNat - 87)
  else none

/-- The hexadecimal digit with the value. -/
def upperHexDigit (value : ℕ) : Char := Char.ofNat (if value < 10 then 48 + value else 55 + value)

/-- The escape of a byte. -/
def escapeByte (byte : UInt8) : List Char :=
  ['%', upperHexDigit (byte.toNat / 16), upperHexDigit (byte.toNat % 16)]

def encodeByte (escaped : UInt8 → Bool) (byte : UInt8) : List Char :=
  if escaped byte then escapeByte byte else [Char.ofNat byte.toNat]

/-- The text with its escaped bytes written as escapes. -/
def percentEncode (escaped : UInt8 → Bool) (text : List Char) : List Char :=
  (utf8Bytes text).flatMap (encodeByte escaped)

/-- The byte behind a percent sign. -/
def escapedByte? (high low : UInt8) : Option UInt8 := do
  let high ← hexValue? high
  let low ← hexValue? low
  some (UInt8.ofNat (16 * high + low))

/-- The bytes with their escapes read; a percent sign that begins none stands for itself. -/
def percentDecode : List UInt8 → List UInt8
  | [] => []
  | [a] => [a]
  | [a, b] => [a, b]
  | a :: b :: c :: rest =>
    match (if a = percentSign then escapedByte? b c else none) with
    | some byte => byte :: percentDecode rest
    | none => a :: percentDecode (b :: c :: rest)

/-- Every percent sign begins an escape. -/
def wellEscaped : List UInt8 → Bool
  | [] => true
  | [a] => a != percentSign
  | [a, b] => a != percentSign && b != percentSign
  | a :: b :: c :: rest =>
    if a = percentSign then (hexValue? b).isSome && (hexValue? c).isSome && wellEscaped rest
    else wellEscaped (b :: c :: rest)

/-! ### One byte -/

theorem percentDecode_cons {a : UInt8} (h : a ≠ percentSign) (rest : List UInt8) :
    percentDecode (a :: rest) = a :: percentDecode rest := by
  rcases rest with _ | ⟨b, _ | ⟨c, rest⟩⟩
  · rfl
  · rfl
  · rw [percentDecode, if_neg h]

theorem wellEscaped_cons {a : UInt8} (h : a ≠ percentSign) (rest : List UInt8) :
    wellEscaped (a :: rest) = wellEscaped rest := by
  rcases rest with _ | ⟨b, _ | ⟨c, rest⟩⟩
  · simpa [wellEscaped] using h
  · simp [wellEscaped, h]
  · rw [wellEscaped, if_neg h]

theorem upperHexDigit_ascii {value : ℕ} (h : value < 16) : (upperHexDigit value).toNat < 128 := by
  revert value
  decide

theorem hexValue?_upperHexDigit {value : ℕ} (h : value < 16) :
    hexValue? (UInt8.ofNat (upperHexDigit value).toNat) = some value := by
  revert value
  decide

/-- The digits of an escape are the digits of its byte. -/
theorem utf8Bytes_escapeByte (byte : UInt8) :
    ∃ high low, utf8Bytes (escapeByte byte) = [percentSign, high, low] ∧
      escapedByte? high low = some byte := by
  have hhigh : byte.toNat / 16 < 16 := by
    have := byte.toNat_lt
    omega
  have hlow : byte.toNat % 16 < 16 := Nat.mod_lt _ (by decide)
  have hbyte : UInt8.ofNat (16 * (byte.toNat / 16) + byte.toNat % 16) = byte := by
    rw [Nat.div_add_mod]
    exact UInt8.ofNat_toNat
  refine ⟨UInt8.ofNat (upperHexDigit (byte.toNat / 16)).toNat,
    UInt8.ofNat (upperHexDigit (byte.toNat % 16)).toNat, ?_, ?_⟩
  · rw [escapeByte, utf8Bytes_ascii (by decide), utf8Bytes_ascii (upperHexDigit_ascii hhigh),
      utf8Bytes_ascii (upperHexDigit_ascii hlow)]
    rfl
  · simp only [escapedByte?, hexValue?_upperHexDigit hhigh, hexValue?_upperHexDigit hlow,
      Option.bind_eq_bind, Option.bind_some, hbyte]

theorem toNat_ofNat_ascii {code : ℕ} (h : code < 128) : (Char.ofNat code).toNat = code := by
  rw [Char.ofNat, dif_pos (Or.inl (by omega))]
  rfl

/-! ### Texts -/

section Encoding

variable {escaped : UInt8 → Bool} (hascii : ∀ byte, escaped byte = false → byte.toNat < 128)
  (hpercent : escaped percentSign = true)

include hascii hpercent

/-- What a byte is written as is read as that byte. -/
theorem percentDecode_encodeByte (byte : UInt8) (rest : List UInt8) :
    percentDecode (utf8Bytes (encodeByte escaped byte) ++ rest) = byte :: percentDecode rest := by
  cases hescaped : escaped byte with
  | false =>
    have hcode := hascii byte hescaped
    have hne : byte ≠ percentSign := by
      rintro rfl
      rw [hpercent] at hescaped
      cases hescaped
    have hbytes : utf8Bytes (encodeByte escaped byte) = [byte] := by
      rw [encodeByte, hescaped, if_neg Bool.false_ne_true,
        utf8Bytes_ascii (by rw [toNat_ofNat_ascii hcode]; exact hcode), toNat_ofNat_ascii hcode,
        UInt8.ofNat_toNat]
      rfl
    rw [hbytes]
    exact percentDecode_cons hne rest
  | true =>
    obtain ⟨high, low, hbytes, hbyte⟩ := utf8Bytes_escapeByte byte
    rw [encodeByte, hescaped, if_pos rfl, hbytes]
    simp only [List.cons_append, List.nil_append, percentDecode, if_true, hbyte]

theorem percentDecode_flatMap (bytes rest : List UInt8) :
    percentDecode (utf8Bytes (bytes.flatMap (encodeByte escaped)) ++ rest) =
      bytes ++ percentDecode rest := by
  induction bytes with
  | nil => rfl
  | cons byte bytes ih =>
    rw [List.flatMap_cons, utf8Bytes_append, List.append_assoc,
      percentDecode_encodeByte hascii hpercent, ih]
    rfl

/-- An encoded text is read back. -/
theorem percentDecode_percentEncode (text : List Char) :
    percentDecode (utf8Bytes (percentEncode escaped text)) = utf8Bytes text := by
  have h := percentDecode_flatMap hascii hpercent (utf8Bytes text) []
  rwa [List.append_nil, percentDecode, List.append_nil] at h

omit hpercent in
/-- A character of an encoded text is a percent sign, a digit of an escape, or a byte that stands
for itself. -/
theorem mem_percentEncode {text : List Char} {c : Char} (h : c ∈ percentEncode escaped text) :
    c = '%' ∨ (∃ value < 16, c = upperHexDigit value) ∨
      c.toNat < 128 ∧ escaped (UInt8.ofNat c.toNat) = false := by
  obtain ⟨byte, -, hc⟩ := List.mem_flatMap.mp h
  rw [encodeByte] at hc
  cases hescaped : escaped byte with
  | false =>
    rw [hescaped, if_neg Bool.false_ne_true, List.mem_singleton] at hc
    have hcode := hascii byte hescaped
    rw [hc, toNat_ofNat_ascii hcode, UInt8.ofNat_toNat]
    exact Or.inr (Or.inr ⟨hcode, hescaped⟩)
  | true =>
    have hsize := byte.toNat_lt
    rw [hescaped, if_pos rfl, escapeByte, List.mem_cons, List.mem_pair] at hc
    rcases hc with rfl | rfl | rfl
    · exact Or.inl rfl
    · exact Or.inr (Or.inl ⟨_, by omega, rfl⟩)
    · exact Or.inr (Or.inl ⟨_, by omega, rfl⟩)

end Encoding

theorem percentEncode_eq_nil {escaped : UInt8 → Bool} {text : List Char} :
    percentEncode escaped text = [] ↔ text = [] := by
  refine ⟨fun h => ?_, fun h => by rw [h]; rfl⟩
  cases text with
  | nil => rfl
  | cons c rest =>
    obtain ⟨byte, bytes, hbytes⟩ :=
      List.exists_cons_of_ne_nil (String.utf8EncodeChar_ne_nil (c := c))
    rw [percentEncode, utf8Bytes_cons, hbytes, List.cons_append, List.flatMap_cons,
      List.append_eq_nil_iff, encodeByte] at h
    split at h
    · exact absurd h.1 (List.cons_ne_nil _ _)
    · exact absurd h.1 (List.cons_ne_nil _ _)

/-- A text whose bytes all stand for themselves is written as it is. -/
theorem percentEncode_raw {escaped : UInt8 → Bool} {text : List Char}
    (h : ∀ c ∈ text, c.toNat < 128 ∧ escaped (UInt8.ofNat c.toNat) = false) :
    percentEncode escaped text = text := by
  induction text with
  | nil => rfl
  | cons c rest ih =>
    obtain ⟨hascii, hraw⟩ := h c List.mem_cons_self
    have hcode : (UInt8.ofNat c.toNat).toNat = c.toNat :=
      UInt8.toNat_ofNat_of_lt' (hascii.trans (by decide))
    have hrest := ih fun d hd => h d (List.mem_cons_of_mem c hd)
    rw [percentEncode] at hrest
    rw [percentEncode, utf8Bytes_ascii hascii, List.flatMap_cons, hrest, encodeByte, hraw,
      if_neg Bool.false_ne_true, hcode, Char.ofNat_toNat]
    rfl

/-- The bytes that a byte is written in. -/
def encodedSize (escaped : UInt8 → Bool) (byte : UInt8) : ℕ := if escaped byte then 3 else 1

/-- The size of an encoded text. -/
theorem length_percentEncode {escaped : UInt8 → Bool} (text : List Char) :
    (percentEncode escaped text).length = ((utf8Bytes text).map (encodedSize escaped)).sum := by
  rw [percentEncode, List.length_flatMap]
  refine congrArg List.sum (List.map_congr_left fun byte _ => ?_)
  rw [encodeByte, encodedSize]
  split <;> rfl

/-! ### Two writers -/

/-- What two writers make of a byte is the same or differs in its first character. -/
theorem encodeByte_append_inj {escaped escaped' : UInt8 → Bool} {byte : UInt8}
    (hascii : escaped byte ≠ escaped' byte → byte.toNat < 128 ∧ byte ≠ percentSign)
    {rest rest' : List Char} :
    encodeByte escaped byte ++ rest = encodeByte escaped' byte ++ rest' ↔
      escaped byte = escaped' byte ∧ rest = rest' := by
  by_cases hsame : escaped byte = escaped' byte
  · rw [encodeByte, encodeByte, hsame, List.append_cancel_left_eq]
    exact (and_iff_right rfl).symm
  · refine ⟨fun h => ?_, fun h => absurd h.1 hsame⟩
    obtain ⟨hcode, hsign⟩ := hascii hsame
    -- the raw byte would have to be the percent sign of the escape
    have hraw : Char.ofNat byte.toNat ≠ '%' := by
      intro heq
      have hvalue := congrArg Char.toNat heq
      rw [toNat_ofNat_ascii hcode] at hvalue
      exact hsign (UInt8.toNat_inj.mp hvalue)
    rw [encodeByte, encodeByte] at h
    split at h <;> split at h
    · simp_all
    · exact absurd (List.cons.inj h).1.symm hraw
    · exact absurd (List.cons.inj h).1 hraw
    · simp_all

/-- Two writers agree on bytes when they agree on each of them. -/
theorem encodeBytes_append_inj {escaped escaped' : UInt8 → Bool} {bytes : List UInt8}
    (hascii : ∀ byte ∈ bytes, escaped byte ≠ escaped' byte →
      byte.toNat < 128 ∧ byte ≠ percentSign) {rest rest' : List Char} :
    bytes.flatMap (encodeByte escaped) ++ rest = bytes.flatMap (encodeByte escaped') ++ rest' ↔
      (∀ byte ∈ bytes, escaped byte = escaped' byte) ∧ rest = rest' := by
  induction bytes with
  | nil => simp
  | cons byte bytes ih =>
    rw [List.flatMap_cons, List.flatMap_cons, List.append_assoc, List.append_assoc,
      encodeByte_append_inj (hascii byte List.mem_cons_self),
      ih fun b hb => hascii b (List.mem_cons_of_mem byte hb), List.forall_mem_cons, and_assoc]

/-! ### Any spelling -/

/-- The text is a percent sign and the two digits of the byte, in either case. -/
def IsEscape (byte : UInt8) (escape : List Char) : Prop :=
  ∃ high low, utf8Bytes escape = [percentSign, high, low] ∧ escapedByte? high low = some byte

/-- The spellings of bytes: a plain byte may stand for itself, and any byte may be escaped. -/
inductive Spelled (plain : UInt8 → Prop) : List UInt8 → List Char → Prop
  | nil : Spelled plain [] []
  | plain {byte : UInt8} {bytes : List UInt8} {spelled : List Char} (hbyte : plain byte)
      (hrest : Spelled plain bytes spelled) :
      Spelled plain (byte :: bytes) (Char.ofNat byte.toNat :: spelled)
  | escape {byte : UInt8} {bytes : List UInt8} {escape spelled : List Char}
      (hescape : IsEscape byte escape) (hrest : Spelled plain bytes spelled) :
      Spelled plain (byte :: bytes) (escape ++ spelled)

theorem isEscape_escapeByte (byte : UInt8) : IsEscape byte (escapeByte byte) := by
  obtain ⟨high, low, hbytes, hbyte⟩ := utf8Bytes_escapeByte byte
  exact ⟨high, low, hbytes, hbyte⟩

theorem hexValue?_of_escapedByte? {high low byte : UInt8} (h : escapedByte? high low = some byte) :
    hexValue? high ≠ none ∧ hexValue? low ≠ none := by
  rw [escapedByte?, Option.bind_eq_bind, Option.bind_eq_some_iff] at h
  obtain ⟨first, hfirst, h⟩ := h
  rw [Option.bind_eq_some_iff] at h
  obtain ⟨second, hsecond, -⟩ := h
  rw [hfirst, hsecond]
  exact ⟨nofun, nofun⟩

theorem hexValue?_ascii {byte : UInt8} (h : hexValue? byte ≠ none) : byte.toNat < 128 := by
  by_contra hnot
  refine h ?_
  rw [hexValue?, if_neg (by omega), if_neg (by omega), if_neg (by omega)]

theorem utf8Bytes_ofNat {byte : UInt8} (h : byte.toNat < 128) (rest : List Char) :
    utf8Bytes (Char.ofNat byte.toNat :: rest) = byte :: utf8Bytes rest := by
  have hcode := toNat_ofNat_ascii h
  rw [utf8Bytes_ascii (by omega), hcode, UInt8.ofNat_toNat]

theorem mem_utf8Bytes {c : Char} {text : List Char} (hascii : c.toNat < 128) (hc : c ∈ text) :
    UInt8.ofNat c.toNat ∈ utf8Bytes text := by
  obtain ⟨before, after, rfl⟩ := List.append_of_mem hc
  rw [utf8Bytes_append, utf8Bytes_ascii hascii]
  exact List.mem_append_right _ List.mem_cons_self

/-- What the encoder writes is one of the spellings. -/
theorem spelled_encodeBytes {plain : UInt8 → Prop} {escaped : UInt8 → Bool}
    (hplain : ∀ byte, escaped byte = false → plain byte) (bytes : List UInt8) :
    Spelled plain bytes (bytes.flatMap (encodeByte escaped)) := by
  induction bytes with
  | nil => exact Spelled.nil
  | cons byte bytes ih =>
    rw [List.flatMap_cons, encodeByte]
    split
    · exact Spelled.escape (isEscape_escapeByte byte) ih
    · rename_i hescaped
      exact Spelled.plain (hplain byte (Bool.eq_false_iff.mpr hescaped)) ih

namespace Spelled

variable {plain : UInt8 → Prop} {bytes : List UInt8} {spelled : List Char}

theorem mono {plain' : UInt8 → Prop} (hplain : ∀ byte, plain byte → plain' byte)
    (h : Spelled plain bytes spelled) : Spelled plain' bytes spelled := by
  induction h with
  | nil => exact Spelled.nil
  | plain hbyte hrest ih => exact Spelled.plain (hplain _ hbyte) ih
  | escape hescape hrest ih => exact Spelled.escape hescape ih

/-- A spelling is read as the bytes. -/
theorem percentDecode (hplain : ∀ byte, plain byte → byte.toNat < 128 ∧ byte ≠ percentSign)
    (h : Spelled plain bytes spelled) : percentDecode (utf8Bytes spelled) = bytes := by
  induction h with
  | nil => rfl
  | plain hbyte hrest ih =>
    obtain ⟨hascii, hsign⟩ := hplain _ hbyte
    rw [utf8Bytes_ofNat hascii, percentDecode_cons hsign, ih]
  | escape hescape hrest ih =>
    obtain ⟨high, low, hbytes, hbyte⟩ := hescape
    rw [utf8Bytes_append, hbytes]
    simp only [List.cons_append, List.nil_append, BlobYard.percentDecode, if_true, hbyte, ih]

/-- An ASCII character that is neither plain nor part of an escape is in no spelling. -/
theorem not_mem (hplain : ∀ byte, plain byte → byte.toNat < 128) {c : Char}
    (hascii : c.toNat < 128) (hsign : UInt8.ofNat c.toNat ≠ percentSign)
    (hdigit : hexValue? (UInt8.ofNat c.toNat) = none) (hspecial : ¬plain (UInt8.ofNat c.toNat))
    (h : Spelled plain bytes spelled) : c ∉ spelled := by
  induction h with
  | nil => exact List.not_mem_nil
  | plain hbyte hrest ih =>
    rw [List.mem_cons, not_or]
    refine ⟨?_, ih⟩
    rintro rfl
    rw [toNat_ofNat_ascii (hplain _ hbyte), UInt8.ofNat_toNat] at hspecial
    exact hspecial hbyte
  | escape hescape hrest ih =>
    rw [List.mem_append, not_or]
    refine ⟨fun hc => ?_, ih⟩
    obtain ⟨high, low, hbytes, hbyte⟩ := hescape
    obtain ⟨hhigh, hlow⟩ := hexValue?_of_escapedByte? hbyte
    have hmem := mem_utf8Bytes hascii hc
    rw [hbytes, List.mem_cons, List.mem_pair] at hmem
    rcases hmem with heq | heq | heq
    · exact hsign heq
    · exact hhigh (heq ▸ hdigit)
    · exact hlow (heq ▸ hdigit)

theorem ne_nil (h : Spelled plain bytes spelled) (hbytes : bytes ≠ []) : spelled ≠ [] := by
  cases h with
  | nil => exact absurd rfl hbytes
  | plain hbyte hrest => exact List.cons_ne_nil _ _
  | escape hescape hrest =>
    rintro hnil
    obtain ⟨high, low, hescaped, -⟩ := hescape
    rw [(List.append_eq_nil_iff.mp hnil).1] at hescaped
    cases hescaped

/-- A spelling is of ASCII characters. -/
theorem ascii (hplain : ∀ byte, plain byte → byte.toNat < 128) (h : Spelled plain bytes spelled) :
    ∀ c ∈ spelled, c.toNat < 128 := by
  induction h with
  | nil => exact fun _ hc => absurd hc List.not_mem_nil
  | plain hbyte hrest ih =>
    have hcode := hplain _ hbyte
    refine List.forall_mem_cons.mpr ⟨?_, ih⟩
    rwa [toNat_ofNat_ascii hcode]
  | escape hescape hrest ih =>
    intro c hc
    rcases List.mem_append.mp hc with hc | hc
    · obtain ⟨high, low, hbytes, hbyte⟩ := hescape
      obtain ⟨hhigh, hlow⟩ := hexValue?_of_escapedByte? hbyte
      obtain ⟨before, after, rfl⟩ := List.append_of_mem hc
      -- the bytes of the character are among the sign and the two digits
      refine ascii_of_utf8EncodeChar fun byte hmem => ?_
      have hin : byte ∈ utf8Bytes (before ++ c :: after) := by
        rw [utf8Bytes_append, utf8Bytes_cons]
        exact List.mem_append_right _ (List.mem_append_left _ hmem)
      rw [hbytes, List.mem_cons, List.mem_pair] at hin
      rcases hin with rfl | rfl | rfl
      · decide
      · exact hexValue?_ascii hhigh
      · exact hexValue?_ascii hlow
    · exact ih c hc

/-- In a spelling every percent sign begins an escape. -/
theorem wellEscaped (hplain : ∀ byte, plain byte → byte.toNat < 128 ∧ byte ≠ percentSign)
    (h : Spelled plain bytes spelled) (rest : List UInt8) :
    wellEscaped (utf8Bytes spelled ++ rest) = wellEscaped rest := by
  induction h with
  | nil => rfl
  | plain hbyte hrest ih =>
    obtain ⟨hascii, hsign⟩ := hplain _ hbyte
    rw [utf8Bytes_ofNat hascii, List.cons_append, wellEscaped_cons hsign, ih]
  | escape hescape hrest ih =>
    obtain ⟨high, low, hbytes, hbyte⟩ := hescape
    obtain ⟨hhigh, hlow⟩ := hexValue?_of_escapedByte? hbyte
    have hdigits := And.intro (Option.isSome_iff_ne_none.mpr hhigh)
      (Option.isSome_iff_ne_none.mpr hlow)
    rw [utf8Bytes_append, hbytes]
    simp only [List.cons_append, List.nil_append, BlobYard.wellEscaped, if_true, hdigits.1,
      hdigits.2, Bool.true_and, ih]

end Spelled

/-! ### Encodings from elsewhere -/

/-- An encoder of texts, given the bytes to be escaped, and a decoder. -/
class PercentEncoding where
  utf8PercentEncode : (UInt8 → Bool) → List Char → List Char
  percentDecodeStr : List Char → List UInt8
  /-- The other bytes stand for themselves, if they are ASCII. -/
  spelled_utf8PercentEncode : ∀ escaped, (∀ byte, escaped byte = false → byte.toNat < 128) →
    ∀ text, Spelled (fun byte => escaped byte = false) (utf8Bytes text)
      (utf8PercentEncode escaped text)
  length_utf8PercentEncode : ∀ escaped text,
    (utf8PercentEncode escaped text).length = ((utf8Bytes text).map (encodedSize escaped)).sum
  /-- Every spelling is read. -/
  percentDecodeStr_spelled : ∀ plain : UInt8 → Prop,
    (∀ byte, plain byte → byte.toNat < 128 ∧ byte ≠ percentSign) →
      ∀ bytes spelled, Spelled plain bytes spelled → percentDecodeStr spelled = bytes

export PercentEncoding (utf8PercentEncode percentDecodeStr spelled_utf8PercentEncode
  length_utf8PercentEncode percentDecodeStr_spelled)

section Encodings

variable [PercentEncoding] {escaped : UInt8 → Bool}

/-- A text whose bytes all stand for themselves becomes no longer. -/
theorem length_utf8PercentEncode_raw {text : List Char}
    (h : ∀ c ∈ text, c.toNat < 128 ∧ escaped (UInt8.ofNat c.toNat) = false) :
    (utf8PercentEncode escaped text).length = text.length := by
  rw [length_utf8PercentEncode]
  induction text with
  | nil => rfl
  | cons c rest ih =>
    obtain ⟨hcode, hraw⟩ := h c List.mem_cons_self
    rw [utf8Bytes_ascii hcode, List.map_cons, List.sum_cons, List.length_cons, encodedSize, hraw,
      if_neg Bool.false_ne_true, ih fun d hd => h d (List.mem_cons_of_mem c hd), Nat.add_comm]

variable (hascii : ∀ byte, escaped byte = false → byte.toNat < 128)

include hascii

theorem utf8PercentEncode_ascii {text : List Char} {c : Char}
    (h : c ∈ utf8PercentEncode escaped text) : c.toNat < 128 :=
  (spelled_utf8PercentEncode escaped hascii text).ascii hascii c h

theorem utf8PercentEncode_ne_nil {text : List Char} (h : text ≠ []) :
    utf8PercentEncode escaped text ≠ [] := by
  refine (spelled_utf8PercentEncode escaped hascii text).ne_nil fun hnil => h ?_
  have hlength := length_utf8Bytes text
  rw [hnil, List.length_nil] at hlength
  have hle := length_le_utf8Len text
  exact List.length_eq_zero_iff.mp (by omega)

variable (hpercent : escaped percentSign = true)

include hpercent

omit [PercentEncoding] in
theorem plain_of_kept (byte : UInt8) (h : escaped byte = false) :
    byte.toNat < 128 ∧ byte ≠ percentSign := by
  refine ⟨hascii byte h, ?_⟩
  rintro rfl
  rw [hpercent] at h
  cases h

/-- An encoded text is read back. -/
theorem percentDecodeStr_utf8PercentEncode (text : List Char) :
    percentDecodeStr (utf8PercentEncode escaped text) = utf8Bytes text :=
  percentDecodeStr_spelled _ (plain_of_kept hascii hpercent) _ _
    (spelled_utf8PercentEncode escaped hascii text)

theorem wellEscaped_utf8PercentEncode (text : List Char) (rest : List UInt8) :
    wellEscaped (utf8Bytes (utf8PercentEncode escaped text) ++ rest) = wellEscaped rest :=
  (spelled_utf8PercentEncode escaped hascii text).wellEscaped (plain_of_kept hascii hpercent) rest

end Encodings

@[reducible] def percentEscapes : PercentEncoding where
  utf8PercentEncode := percentEncode
  percentDecodeStr text := percentDecode (utf8Bytes text)
  spelled_utf8PercentEncode _ _ text := spelled_encodeBytes (fun _ h => h) (utf8Bytes text)
  length_utf8PercentEncode _ := length_percentEncode
  percentDecodeStr_spelled _ hplain _ _ h := h.percentDecode hplain

end BlobYard
