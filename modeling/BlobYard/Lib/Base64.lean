/-
Bytes in sixty-four characters, with the alphabet for URLs and without padding.

Three bytes are four characters; one or two bytes at the end are two or three, whose unused bits
are zero.  Programs that take the encoding from elsewhere are stated over the class.

* `Base64` — a writer and a reader, and what is promised of them;
* `utf8ByteSize_base64Encode` — the size of a text;
* `UrlSafe.encode`, `UrlSafe.decode` — a writer and a reader that keep the promises;
* `urlSafeBase64` — as an instance of the class.
-/
import BlobYard.Lib.Utf8

namespace BlobYard

/-! ### The promises -/

def base64Alphabet : List Char :=
  "ABCDEFGHIJKLMNOPQRSTUVWXYZabcdefghijklmnopqrstuvwxyz0123456789-_".toList

theorem base64Alphabet_bounds {c : Char} (h : c ∈ base64Alphabet) :
    32 < c.toNat ∧ c.toNat < 127 := by
  have hall : base64Alphabet.all (fun c => decide (32 < c.toNat ∧ c.toNat < 127)) = true := by
    decide
  exact of_decide_eq_true (List.all_eq_true.mp hall c h)

/-- A writer and a reader of base64. -/
class Base64 where
  base64Encode : List UInt8 → List Char
  base64Decode : List Char → Option (List UInt8)
  /-- What was written is read, -/
  base64Decode_encode : ∀ bytes, base64Decode (base64Encode bytes) = some bytes
  /-- and nothing else is. -/
  base64Encode_decode : ∀ {text bytes}, base64Decode text = some bytes → base64Encode bytes = text
  /-- Three bytes are four characters, -/
  length_base64Encode : ∀ bytes, (base64Encode bytes).length = (4 * bytes.length + 2) / 3
  /-- and all characters are in the alphabet. -/
  base64Encode_mem : ∀ bytes, ∀ c ∈ base64Encode bytes, c ∈ base64Alphabet

export Base64 (base64Encode base64Decode base64Decode_encode base64Encode_decode
  length_base64Encode base64Encode_mem)

section Sizes

variable [Base64]

theorem base64Encode_ascii (bytes : List UInt8) : ∀ c ∈ base64Encode bytes, c.toNat < 128 := by
  intro c hc
  have hbounds := base64Alphabet_bounds (base64Encode_mem bytes c hc)
  omega

/-- The size of a text in bytes. -/
theorem utf8ByteSize_base64Encode (bytes : List UInt8) :
    (String.ofList (base64Encode bytes)).utf8ByteSize = (4 * bytes.length + 2) / 3 := by
  rw [String.utf8ByteSize_ofList, utf8Len_eq_length (base64Encode_ascii bytes), length_base64Encode]

end Sizes

/-! ### A writer and a reader -/

namespace UrlSafe

/-- The character of six bits. -/
def character (value : ℕ) : Char := base64Alphabet.getD value 'A'

/-- The six bits of a character. -/
def value? (c : Char) : Option ℕ := base64Alphabet.idxOf? c

def encode : List UInt8 → List Char
  | [] => []
  | [a] => [character (a.toNat / 4), character (a.toNat % 4 * 16)]
  | [a, b] =>
    [character (a.toNat / 4), character (a.toNat % 4 * 16 + b.toNat / 16),
      character (b.toNat % 16 * 4)]
  | a :: b :: c :: rest =>
    character (a.toNat / 4) :: character (a.toNat % 4 * 16 + b.toNat / 16) ::
      character (b.toNat % 16 * 4 + c.toNat / 64) :: character (c.toNat % 64) ::
        encode rest

def decode : List Char → Option (List UInt8)
  | [] => some []
  | [_] => none
  | [w, x] => do
    let w ← value? w
    let x ← value? x
    if x % 16 = 0 then some [UInt8.ofNat (w * 4 + x / 16)] else none
  | [w, x, y] => do
    let w ← value? w
    let x ← value? x
    let y ← value? y
    if y % 4 = 0 then some [UInt8.ofNat (w * 4 + x / 16), UInt8.ofNat (x % 16 * 16 + y / 4)]
    else none
  | w :: x :: y :: z :: rest => do
    let w ← value? w
    let x ← value? x
    let y ← value? y
    let z ← value? z
    let bytes ← decode rest
    some (UInt8.ofNat (w * 4 + x / 16) :: UInt8.ofNat (x % 16 * 16 + y / 4) ::
      UInt8.ofNat (y % 4 * 64 + z) :: bytes)

theorem value?_character {value : ℕ} (h : value < 64) :
    value? (character value) = some value := by
  revert value
  decide

theorem character_mem (value : ℕ) : character value ∈ base64Alphabet := by
  rw [character, List.getD_eq_getElem?_getD]
  cases h : base64Alphabet[value]? with
  | none => decide
  | some c => exact List.mem_of_getElem? h

theorem value?_eq_some {c : Char} {value : ℕ} (h : value? c = some value) :
    value < 64 ∧ character value = c := by
  obtain ⟨hlt, hc, -⟩ := List.findIdx?_eq_some_iff_getElem.mp h
  have hlength : base64Alphabet.length = 64 := by decide
  refine ⟨hlength ▸ hlt, ?_⟩
  rw [character, List.getD_eq_getElem?_getD, List.getElem?_eq_getElem hlt]
  exact beq_iff_eq.mp hc

/-- The number of a byte, put together again, is the byte. -/
theorem ofNat_eq {byte : UInt8} {value : ℕ} (h : value = byte.toNat) : UInt8.ofNat value = byte := by
  rw [h, UInt8.ofNat_toNat]

theorem decode_encode (bytes : List UInt8) :
    decode (encode bytes) = some bytes := by
  induction bytes using encode.induct with
  | case1 => rfl
  | case2 a =>
    have ha := a.toNat_lt
    have hfirst : UInt8.ofNat (a.toNat / 4 * 4 + a.toNat % 4 * 16 / 16) = a := ofNat_eq (by omega)
    simp only [encode, decode, value?_character (show a.toNat / 4 < 64 by omega),
      value?_character (show a.toNat % 4 * 16 < 64 by omega), Option.bind_eq_bind,
      Option.bind_some]
    rw [if_pos (by omega), hfirst]
  | case3 a b =>
    have ha := a.toNat_lt
    have hb := b.toNat_lt
    have hfirst : UInt8.ofNat (a.toNat / 4 * 4 + (a.toNat % 4 * 16 + b.toNat / 16) / 16) = a :=
      ofNat_eq (by omega)
    have hsecond :
        UInt8.ofNat ((a.toNat % 4 * 16 + b.toNat / 16) % 16 * 16 + b.toNat % 16 * 4 / 4) = b :=
      ofNat_eq (by omega)
    simp only [encode, decode, value?_character (show a.toNat / 4 < 64 by omega),
      value?_character (show a.toNat % 4 * 16 + b.toNat / 16 < 64 by omega),
      value?_character (show b.toNat % 16 * 4 < 64 by omega), Option.bind_eq_bind,
      Option.bind_some]
    rw [if_pos (by omega), hfirst, hsecond]
  | case4 a b c rest ih =>
    have ha := a.toNat_lt
    have hb := b.toNat_lt
    have hc := c.toNat_lt
    have hfirst : UInt8.ofNat (a.toNat / 4 * 4 + (a.toNat % 4 * 16 + b.toNat / 16) / 16) = a :=
      ofNat_eq (by omega)
    have hsecond : UInt8.ofNat ((a.toNat % 4 * 16 + b.toNat / 16) % 16 * 16 +
        (b.toNat % 16 * 4 + c.toNat / 64) / 4) = b := ofNat_eq (by omega)
    have hthird : UInt8.ofNat ((b.toNat % 16 * 4 + c.toNat / 64) % 4 * 64 + c.toNat % 64) = c :=
      ofNat_eq (by omega)
    simp only [encode, decode, value?_character (show a.toNat / 4 < 64 by omega),
      value?_character (show a.toNat % 4 * 16 + b.toNat / 16 < 64 by omega),
      value?_character (show b.toNat % 16 * 4 + c.toNat / 64 < 64 by omega),
      value?_character (show c.toNat % 64 < 64 by omega), ih, Option.bind_eq_bind,
      Option.bind_some, hfirst, hsecond, hthird]

theorem toNat_ofNat_byte {value : ℕ} (h : value < 256) : (UInt8.ofNat value).toNat = value := by
  rw [UInt8.toNat_ofNat']
  exact Nat.mod_eq_of_lt h

/-- Only what was written is read: the unused bits at the end are zero. -/
theorem encode_decode {text : List Char} {bytes : List UInt8}
    (h : decode text = some bytes) : encode bytes = text := by
  induction text using decode.induct generalizing bytes with
  | case1 =>
    cases h
    rfl
  | case2 w => cases h
  | case3 w x =>
    simp only [decode, Option.bind_eq_bind, Option.bind_eq_some_iff,
      Option.ite_none_right_eq_some, Option.some.injEq] at h
    obtain ⟨w', hw, x', hx, hunused, rfl⟩ := h
    obtain ⟨hw', rfl⟩ := value?_eq_some hw
    obtain ⟨hx', rfl⟩ := value?_eq_some hx
    have hbyte := toNat_ofNat_byte (show w' * 4 + x' / 16 < 256 by omega)
    have hfirst : (w' * 4 + x' / 16) / 4 = w' := by omega
    have hsecond : (w' * 4 + x' / 16) % 4 * 16 = x' := by omega
    rw [encode, hbyte, hfirst, hsecond]
  | case4 w x y =>
    simp only [decode, Option.bind_eq_bind, Option.bind_eq_some_iff,
      Option.ite_none_right_eq_some, Option.some.injEq] at h
    obtain ⟨w', hw, x', hx, y', hy, hunused, rfl⟩ := h
    obtain ⟨hw', rfl⟩ := value?_eq_some hw
    obtain ⟨hx', rfl⟩ := value?_eq_some hx
    obtain ⟨hy', rfl⟩ := value?_eq_some hy
    have hbyte := toNat_ofNat_byte (show w' * 4 + x' / 16 < 256 by omega)
    have hbyte' := toNat_ofNat_byte (show x' % 16 * 16 + y' / 4 < 256 by omega)
    have hfirst : (w' * 4 + x' / 16) / 4 = w' := by omega
    have hsecond : (w' * 4 + x' / 16) % 4 * 16 + (x' % 16 * 16 + y' / 4) / 16 = x' := by omega
    have hthird : (x' % 16 * 16 + y' / 4) % 16 * 4 = y' := by omega
    rw [encode, hbyte, hbyte', hfirst, hsecond, hthird]
  | case5 w x y z rest ih =>
    simp only [decode, Option.bind_eq_bind, Option.bind_eq_some_iff,
      Option.some.injEq] at h
    obtain ⟨w', hw, x', hx, y', hy, z', hz, bytes, hrest, rfl⟩ := h
    obtain ⟨hw', rfl⟩ := value?_eq_some hw
    obtain ⟨hx', rfl⟩ := value?_eq_some hx
    obtain ⟨hy', rfl⟩ := value?_eq_some hy
    obtain ⟨hz', rfl⟩ := value?_eq_some hz
    have hbyte := toNat_ofNat_byte (show w' * 4 + x' / 16 < 256 by omega)
    have hbyte' := toNat_ofNat_byte (show x' % 16 * 16 + y' / 4 < 256 by omega)
    have hbyte'' := toNat_ofNat_byte (show y' % 4 * 64 + z' < 256 by omega)
    have hfirst : (w' * 4 + x' / 16) / 4 = w' := by omega
    have hsecond : (w' * 4 + x' / 16) % 4 * 16 + (x' % 16 * 16 + y' / 4) / 16 = x' := by omega
    have hthird : (x' % 16 * 16 + y' / 4) % 16 * 4 + (y' % 4 * 64 + z') / 64 = y' := by omega
    have hfourth : (y' % 4 * 64 + z') % 64 = z' := by omega
    rw [encode, hbyte, hbyte', hbyte'', hfirst, hsecond, hthird, hfourth, ih hrest]

theorem length_encode (bytes : List UInt8) :
    (encode bytes).length = (4 * bytes.length + 2) / 3 := by
  induction bytes using encode.induct with
  | case1 => rfl
  | case2 a => simp [encode]
  | case3 a b => simp [encode]
  | case4 a b c rest ih =>
    simp only [encode, List.length_cons, ih]
    omega

/-- A text is made of the alphabet. -/
theorem encode_mem (bytes : List UInt8) : ∀ c ∈ encode bytes, c ∈ base64Alphabet := by
  induction bytes using encode.induct with
  | case1 => exact fun c hc => absurd hc List.not_mem_nil
  | case2 a => simp [encode, character_mem]
  | case3 a b => simp [encode, character_mem]
  | case4 a b c rest ih => simpa [encode, character_mem] using ih

end UrlSafe

/-- The writer and the reader. -/
@[reducible] def urlSafeBase64 : Base64 where
  base64Encode := UrlSafe.encode
  base64Decode := UrlSafe.decode
  base64Decode_encode := UrlSafe.decode_encode
  base64Encode_decode := UrlSafe.encode_decode
  length_base64Encode := UrlSafe.length_encode
  base64Encode_mem := UrlSafe.encode_mem

end BlobYard
