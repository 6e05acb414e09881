/-
Preview hosts.

The encoder of preview labels loses no bit of the entropy, and the labels are as
different as the entropy.  The check of a host lets through every label that ends in
one zero bit; the labels of the encoder end in four of them.

* `ExactPacking` — what the arithmetic of the encoder does for one entropy;
* `Loose` — the labels that pass the check and encode nothing;
* `preview_host_law` — the encoder is exact and injective, and the check is right on
  every text that is not loose.
-/
import BlobYard.Core.PreviewHosts

namespace BlobYard

namespace PreviewHosts

open Packing Radix

/-- Every byte goes into the sixteen bits of the buffer whole, the bit that is left is moved into
the last symbol whole, and the symbols are the number of the entropy with four zero bits. -/
structure ExactPacking (entropy : Vector UInt8 32) : Prop where
  fills : ∀ read byte, read ++ [byte] <+: entropy.toList →
    (pack read).bitCount < 5 ∧
      ((pack read).fill byte).buffer = (pack read).buffer * 256 + byte.toNat ∧
      ((pack read).fill byte).buffer < 65536
  leaves : (pack entropy.toList).bitCount = 1 ∧ (pack entropy.toList).buffer < 2
  word_eq : ∃ indices : List (Fin 32), indices.length = 52 ∧
    encodePreviewHost entropy = String.ofList (indices.map symbol) ∧
    word indices = bigEndian 256 (octets entropy.toList) * 16

theorem exactPacking (entropy : Vector UInt8 32) : ExactPacking entropy := by
  refine ⟨fun read byte _ => ?_, ?_, encodePreviewHost_eq entropy⟩
  · obtain ⟨indices, h⟩ := packs_pack read
    obtain ⟨hfill, hholds⟩ := h.fill byte
    refine ⟨h.bitCount_lt, hfill, ?_⟩
    have hpow : (2 : ℕ) ^ ((pack read).fill byte).bitCount ≤ 2 ^ 16 := by
      have := h.bitCount_lt
      exact Nat.pow_le_pow_right (by decide) (by simp only [Packing.fill]; omega)
    have hbuffer := hholds.buffer_lt
    omega
  · obtain ⟨indices, h, -, hone⟩ := pack_entropy entropy
    have hbuffer := h.buffer_lt
    rw [hone] at hbuffer
    exact ⟨hone, hbuffer⟩

/-- A label of fifty-two symbols whose last symbol ends in one zero bit and not in four. -/
def Loose (value : String) : Prop :=
  value.toList.length = 52 ∧ (∀ c ∈ value.toList, isBase32 c = true) ∧
    ∃ c ∈ "cegikmosuwy246".toList, value.toList.getLast? = some c

/-- The last symbols that the check allows are those of the encoder and the loose ones. -/
theorem canonicalTail_iff (c : Char) :
    c ∈ "acegikmoqsuwy246".toList ↔ (c = 'a' ∨ c = 'q') ∨ c ∈ "cegikmosuwy246".toList := by
  change c ∈ ['a', 'c', 'e', 'g', 'i', 'k', 'm', 'o', 'q', 's', 'u', 'w', 'y', '2', '4', '6'] ↔
    _ ∨ c ∈ ['c', 'e', 'g', 'i', 'k', 'm', 'o', 's', 'u', 'w', 'y', '2', '4', '6']
  simp only [List.mem_cons, List.not_mem_nil, or_false]
  tauto

theorem loose_iff {indices : List (Fin 32)} {index : Fin 32} (hlen : indices.length = 51) :
    Loose (String.ofList ((indices ++ [index]).map symbol)) ↔
      symbol index ∈ "cegikmosuwy246".toList := by
  rw [Loose, String.toList_ofList]
  constructor
  · rintro ⟨-, -, c, hc, hlast⟩
    rw [List.map_append, List.map_singleton, List.getLast?_concat, Option.some.injEq] at hlast
    rwa [hlast]
  · intro h
    exact ⟨by simp [hlen], exists_symbols_iff.mpr ⟨_, rfl⟩, _, h, by simp⟩

/-- A word of fifty-two symbols has a last one. -/
theorem exists_last {indices : List (Fin 32)} (h : indices.length = 52) :
    ∃ init index, init.length = 51 ∧ indices = init ++ [index] := by
  rcases List.eq_nil_or_concat indices with rfl | ⟨init, index, rfl⟩
  · exact absurd h (by decide)
  · rw [List.concat_eq_append] at h ⊢
    exact ⟨init, index, by simpa using h, rfl⟩

/-- The labels of the encoder end in `a` or `q`. -/
theorem encodes_iff {indices : List (Fin 32)} {index : Fin 32} (hlen : indices.length = 51) :
    (∃ entropy, encodePreviewHost entropy = String.ofList ((indices ++ [index]).map symbol)) ↔
      symbol index = 'a' ∨ symbol index = 'q' := by
  rw [exists_encodePreviewHost_iff, ← sixteen_dvd_word_concat indices index]
  constructor
  · rintro ⟨indices', -, hlabel, hdvd⟩
    have := List.map_injective_iff.mpr symbol_injective (String.ofList_injective hlabel)
    rwa [this]
  · exact fun hdvd => ⟨_, by simp [hlen], rfl, hdvd⟩

/-- The encoder is exact and injective and writes fifty-two characters.  A text passes the check if
and only if it is a label of the encoder, for the texts that are not loose and for no others. -/
theorem preview_host_law (value : String) :
    (∀ entropy, ExactPacking entropy ∧ (encodePreviewHost entropy).length = 52) ∧
      Function.Injective encodePreviewHost ∧
      ((validHostCapability value = true ↔ ∃ entropy, encodePreviewHost entropy = value) ↔
        ¬ Loose value) := by
  refine ⟨fun entropy => ⟨exactPacking entropy, ?_⟩, encodePreviewHost_injective, ?_⟩
  · obtain ⟨indices, hlen, hlabel, -⟩ := encodePreviewHost_eq entropy
    rw [hlabel, String.length_ofList, List.length_map, hlen]
  by_cases hlabel : ∃ indices : List (Fin 32), ∃ index, indices.length = 51 ∧
      value = String.ofList ((indices ++ [index]).map symbol)
  · obtain ⟨indices, index, hlen, rfl⟩ := hlabel
    have hvalid : validHostCapability (String.ofList ((indices ++ [index]).map symbol)) = true ↔
        symbol index ∈ "acegikmoqsuwy246".toList := by
      rw [validHostCapability_iff]
      constructor
      · rintro ⟨indices', index', -, heq, hmem⟩
        have := List.map_injective_iff.mpr symbol_injective (String.ofList_injective heq)
        obtain ⟨-, hindex⟩ := List.append_inj' this rfl
        rw [List.cons.injEq] at hindex
        rwa [hindex.1]
      · exact fun hmem => ⟨indices, index, hlen, rfl, hmem⟩
    rw [hvalid, encodes_iff hlen, loose_iff hlen, canonicalTail_iff]
    constructor
    · intro h hloose
      -- no symbol is of both kinds
      rcases h.mp (Or.inr hloose) with ha | ha <;> rw [ha] at hloose <;> revert hloose <;> decide
    · exact fun hloose => or_iff_left hloose
  -- the text has another length or a character of no alphabet
  · have hvalid : ¬ validHostCapability value = true := fun h => by
      obtain ⟨indices, index, hlen, heq, -⟩ := validHostCapability_iff.mp h
      exact hlabel ⟨indices, index, hlen, heq⟩
    have hencoded : ¬ ∃ entropy, encodePreviewHost entropy = value := fun h => by
      obtain ⟨indices, hlen, heq, -⟩ := exists_encodePreviewHost_iff.mp h
      obtain ⟨init, index, hinit, rfl⟩ := exists_last hlen
      exact hlabel ⟨init, index, hinit, heq⟩
    have hloose : ¬ Loose value := by
      rintro ⟨hlen, hsymbols, _⟩
      obtain ⟨indices, hindices⟩ := exists_symbols_iff.mp hsymbols
      rw [← hindices, List.length_map] at hlen
      obtain ⟨init, index, hinit, rfl⟩ := exists_last hlen
      exact hlabel ⟨init, index, hinit, by rw [hindices, String.ofList_toList]⟩
    exact ⟨fun _ => hloose, fun _ => ⟨fun h => absurd h hvalid, fun h => absurd h hencoded⟩⟩

/-- Fifty-one times `a`, and a `c`. -/
def looseLabel : String := String.ofList ((List.replicate 51 (0 : Fin 32) ++ [2]).map symbol)

/-- The label passes the check and is the label of no capability. -/
theorem looseLabel_passes :
    validHostCapability looseLabel = true ∧ ∀ entropy, encodePreviewHost entropy ≠ looseLabel := by
  refine ⟨validHostCapability_iff.mpr ⟨List.replicate 51 0, 2, rfl, rfl,
    by decide⟩, ?_⟩
  intro entropy h
  have hlen : (List.replicate 51 (0 : Fin 32)).length = 51 := rfl
  have hlast : symbol 2 = 'a' ∨ symbol 2 = 'q' := (encodes_iff hlen).mp ⟨entropy, h⟩
  revert hlast
  decide

end PreviewHosts

end BlobYard
