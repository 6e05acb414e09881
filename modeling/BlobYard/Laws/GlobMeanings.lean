/-
What the wildcards of the two matchers stand for.

* `retentionGlob_law` — a retention glob matches exactly the concatenations with one fitting text
  for each of its tokens, and the matcher looks at existing indices only;
* `refGlob_law` — a ref glob matches exactly the values that texts in the places of its stars
  give.
-/
import BlobYard.Laws.RetentionRuns
import BlobYard.Repository.Ci
import BlobYard.Repository.RetentionGlobs

namespace BlobYard

namespace GlobMeanings

open RetentionRuns

/-- The value is a concatenation with one text for each token of the glob, and every text fits
its token. -/
def Concatenates (glob value : String) : Prop :=
  ∃ texts : List (List Char),
    List.Forall₂ (Glob.Piece.Fits '/') (globPieces glob.toList) texts ∧
      texts.flatten = value.toList

theorem denotes_iff_concatenates {glob value : String} :
    Denotes glob value ↔ Concatenates glob value :=
  Glob.piecesMatch_iff

/-- The indices of the glob and of the value that the matcher has worked out. -/
def Visited (glob value : String) (patternIndex inputIndex : ℕ) : Prop :=
  ∃ answer,
    (globAtMemo glob.toList value.toList 0 0 fun _ => none).2 (patternIndex, inputIndex) =
      some answer

/-- A retention glob matches the concatenations of its tokens, and none of the indices that the
matcher works out lies past an end. -/
theorem retentionGlob_law (glob value : String) :
    (globMatchesMemo glob value = true ↔ Concatenates glob value) ∧
      ∀ patternIndex inputIndex, Visited glob value patternIndex inputIndex →
        patternIndex ≤ glob.toList.length ∧ inputIndex ≤ value.toList.length := by
  constructor
  · rw [globMatchesMemo_eq, globMatches_iff, denotes_iff_concatenates]
  · rintro patternIndex inputIndex ⟨answer, hanswer⟩
    have hempty : MemoSound glob.toList value.toList fun _ => none := memoSound_empty
    have hsound := (globAtMemo_spec hempty (Nat.zero_le _) (Nat.zero_le _)).2
    obtain ⟨hpattern, hinput, -⟩ := hsound patternIndex inputIndex answer hanswer
    exact ⟨hpattern, hinput⟩

/-- The glob with the texts in the places of its stars. -/
def withTexts (glob : String) (texts : List String) : String :=
  String.ofList (Glob.filled '*' glob.toList (texts.map String.toList))

/-- A ref glob matches the values that texts in the places of its stars give. -/
theorem refGlob_law (value glob : String) :
    refMatches value glob = true ↔
      ∃ texts : List String, texts.length = glob.toList.count '*' ∧ withTexts glob texts = value := by
  rw [refMatches, Glob.globMatch_iff, Glob.matches_iff_filled]
  constructor
  · rintro ⟨texts, hlength, hfilled⟩
    refine ⟨texts.map String.ofList, by rw [List.length_map, hlength], ?_⟩
    have hback : (texts.map String.ofList).map String.toList = texts := by
      rw [List.map_map]
      exact List.map_id'' (fun text => String.toList_ofList) texts
    rw [withTexts, hback, hfilled, String.ofList_toList]
  · rintro ⟨texts, hlength, rfl⟩
    refine ⟨texts.map String.toList, by rw [List.length_map, hlength], ?_⟩
    rw [withTexts, String.toList_ofList]

end GlobMeanings

end BlobYard
