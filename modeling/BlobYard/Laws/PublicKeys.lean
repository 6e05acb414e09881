/-
The encoding of public keys.

`rsaPublicKeyDer` writes a sequence of two integers.  A strict reader gets back the two numbers, and
since it refuses every longer spelling there is no other text for them.

* `publicKeyNumbers` — the strict reader of a key;
* `publicKeyNumbers_inj` — a key is read from one spelling only;
* `publicKey_law` — every modulus and exponent of the accepted sizes are encoded and read back.
-/
import BlobYard.Server.OidcJwt

namespace BlobYard

namespace OidcJwt

open Outcome

/-- A sequence of exactly two integers that are not negative, and nothing behind it. -/
def publicKeyNumbers (der : Bytes) : Option (ℕ × ℕ) := do
  let sequence ← derElement 0x30 der
  let modulus ← derInteger sequence.1
  let exponent ← derInteger modulus.2
  if sequence.2 = [] ∧ exponent.2 = [] then some (modulus.1, exponent.1) else none

theorem publicKeyNumbers_eq_some {der : Bytes} {n e : ℕ} :
    publicKeyNumbers der = some (n, e) ↔
      ∃ contents behind, derElement 0x30 der = some (contents, []) ∧
        derInteger contents = some (n, behind) ∧ derInteger behind = some (e, []) := by
  simp only [publicKeyNumbers, Option.bind_eq_bind, Option.bind_eq_some_iff,
    Option.ite_none_right_eq_some, Option.some.injEq, Prod.mk.injEq, Prod.exists]
  constructor
  · rintro ⟨contents, _, hsequence, _, behind, hmodulus, _, _, hexponent, ⟨rfl, rfl⟩, rfl, rfl⟩
    exact ⟨contents, behind, hsequence, hmodulus, hexponent⟩
  · rintro ⟨contents, behind, hsequence, hmodulus, hexponent⟩
    exact ⟨contents, [], hsequence, n, behind, hmodulus, e, [], hexponent, ⟨rfl, rfl⟩, rfl, rfl⟩

/-- A key is read from one spelling only. -/
theorem publicKeyNumbers_inj {der der' : Bytes} {numbers : ℕ × ℕ}
    (h : publicKeyNumbers der = some numbers) (h' : publicKeyNumbers der' = some numbers) :
    der = der' := by
  obtain ⟨contents, behind, hsequence, hmodulus, hexponent⟩ := publicKeyNumbers_eq_some.mp h
  obtain ⟨contents', behind', hsequence', hmodulus', hexponent'⟩ := publicKeyNumbers_eq_some.mp h'
  obtain rfl := derInteger_inj hexponent hexponent'
  obtain rfl := derInteger_inj hmodulus hmodulus'
  exact derElement_inj hsequence hsequence'

/-- The sizes that are accepted. -/
def KeySizes (modulus exponent : Bytes) : Prop :=
  (256 ≤ modulus.length ∧ modulus.length ≤ 1024) ∧ 1 ≤ exponent.length ∧ exponent.length ≤ 8

instance (modulus exponent : Bytes) : Decidable (KeySizes modulus exponent) :=
  inferInstanceAs (Decidable (_ ∧ _))

/-- Other sizes are refused, which is no panic either. -/
theorem rsaPublicKeyDer_refused {modulus exponent : Bytes} (h : ¬KeySizes modulus exponent) :
    rsaPublicKeyDer modulus exponent = .error (.error .invalid) :=
  bind_eq_error.mpr (Or.inl (ensure_eq_error.mpr ⟨h, rfl⟩))

/-- A modulus and an exponent of the accepted sizes, leading zeros or zeros only included, are
encoded without a panic; the encoding is read back as the two numbers, and no other bytes are. -/
theorem publicKey_law (modulus exponent : Bytes) (h : KeySizes modulus exponent) :
    ∃ der, rsaPublicKeyDer modulus exponent = .ok der ∧
      publicKeyNumbers der = some (unsigned modulus, unsigned exponent) ∧
      ∀ other, publicKeyNumbers other = some (unsigned modulus, unsigned exponent) →
        other = der := by
  obtain ⟨⟨hmodulus, hmodulus'⟩, hexponent, hexponent'⟩ := h
  obtain ⟨first, hfirst, hfirstSize, hreadFirst⟩ :=
    appendDerInteger_spec (List.ne_nil_of_length_pos (by omega)) (by omega : modulus.length < _) []
  obtain ⟨second, hsecond, hsecondSize, hreadSecond⟩ :=
    appendDerInteger_spec (List.ne_nil_of_length_pos hexponent)
      (by omega : exponent.length < _) first
  have hsize : (first ++ second).length < 256 ^ 8 := by
    rw [List.length_append]
    omega
  obtain ⟨octets, hoctets, -, hread⟩ := appendDerLength_spec hsize [0x30]
  have hnumbers : publicKeyNumbers (0x30 :: (octets ++ ((first ++ second) ++ []))) =
      some (unsigned modulus, unsigned exponent) := by
    refine publicKeyNumbers_eq_some.mpr ⟨first ++ second, second, derElement_append (hread _),
      hreadFirst second, ?_⟩
    have hlast := hreadSecond []
    rwa [List.append_nil] at hlast
  refine ⟨_, ?_, hnumbers, fun other hother => publicKeyNumbers_inj hother hnumbers⟩
  simp only [rsaPublicKeyDer, bind_eq_ok, ensure_eq_ok, pure_eq_ok]
  refine ⟨(), ⟨⟨hmodulus, hmodulus'⟩, hexponent, hexponent'⟩, _, hfirst, _, hsecond, ?_⟩
  rw [hoctets, List.append_nil, List.append_assoc, List.singleton_append]

/-- A modulus of 256 bytes with its top bit set. -/
def sampleModulus : Bytes := 0xc5 :: List.replicate 254 0x3a ++ [0x0b]

/-- It is encoded behind a zero, so that it is no negative number, with the exponent 65537. -/
theorem sampleModulus_encoded :
    (rsaPublicKeyDer sampleModulus [1, 0, 1]).toOption.map (fun der => (der.take 10, der.length)) =
        some ([0x30, 0x82, 0x01, 0x0a, 0x02, 0x82, 0x01, 0x01, 0x00, 0xc5], 270) ∧
      ∃ der, rsaPublicKeyDer sampleModulus [1, 0, 1] = .ok der ∧
        publicKeyNumbers der = some (unsigned sampleModulus, unsigned [1, 0, 1]) ∧
        ∀ other, publicKeyNumbers other = some (unsigned sampleModulus, unsigned [1, 0, 1]) →
          other = der :=
  ⟨by decide +kernel, publicKey_law sampleModulus [1, 0, 1] (by decide +kernel)⟩

end OidcJwt

end BlobYard
