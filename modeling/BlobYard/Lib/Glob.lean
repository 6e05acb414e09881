/-
Patterns with a wildcard.

A pattern is a text in which one letter, the wildcard, stands for any text.  The matcher
splits the pattern at its wildcards and walks through the value once: each segment is taken
at its first occurrence after the previous one, and the last segment at the end.

* `Matches star glob value` — the meaning of a pattern;
* `matchSegments` — the walk;
* `afterFirst_le`, `Fits.extend` — taking the first occurrence leaves the longest rest, and a
  longer rest only helps;
* `globMatch_iff` — the walk decides the meaning;
* `matches_iff_filled` — the meaning with the texts in the places of the wildcards written out.

Where texts have parts, a pattern may also ask for texts and letters inside one part.

* `Piece`, `PiecesMatch` — such a pattern and its meaning;
* `matchPieces`, `matchPieces_iff` — backtracking decides it;
* `piecesMatch_iff` — the meaning as a concatenation with one text for each place.
-/
import Mathlib.Data.List.Basic
import Mathlib.Data.List.Infix

namespace Glob

variable {α : Type}

/-- The value is the pattern with a text in the place of each wildcard. -/
inductive Matches (star : α) : List α → List α → Prop
  | nil : Matches star [] []
  | letter {c : α} {glob value : List α} :
    c ≠ star → Matches star glob value → Matches star (c :: glob) (c :: value)
  | wildcard {glob value : List α} (text : List α) :
    Matches star glob value → Matches star (star :: glob) (text ++ value)

variable [DecidableEq α]

/-! ### The walk -/

/-- What follows the first occurrence of the segment. -/
def afterFirst (segment : List α) : List α → Option (List α)
  | [] => if segment = [] then some [] else none
  | c :: rest =>
    if segment <+: c :: rest then some ((c :: rest).drop segment.length)
    else afterFirst segment rest

/-- The segments after the first one: each at its first occurrence, the last one at the end. -/
def matchSegments : List (List α) → List α → Bool
  | [], remaining => remaining.isEmpty
  | [last], remaining => decide (last <:+ remaining)
  | segment :: next :: segments, remaining =>
    match afterFirst segment remaining with
    | none => false
    | some remaining => matchSegments (next :: segments) remaining

/-- The whole walk: the first segment at the start, and then the others. -/
def globMatch (star : α) (glob value : List α) : Bool :=
  match glob.splitOn star with
  | [] => false
  | first :: segments =>
    decide (first <+: value) && matchSegments segments (value.drop first.length)

/-! ### The first occurrence -/

theorem afterFirst_eq_some {segment remaining rest : List α}
    (h : afterFirst segment remaining = some rest) :
    ∃ before, remaining = before ++ segment ++ rest := by
  induction remaining with
  | nil =>
    rw [afterFirst] at h
    split at h
    · rename_i hnil
      obtain rfl := Option.some.inj h
      exact ⟨[], by simp [hnil]⟩
    · cases h
  | cons c remaining ih =>
    rw [afterFirst] at h
    split at h
    · rename_i hstart
      obtain ⟨rest', hrest'⟩ := hstart
      refine ⟨[], ?_⟩
      rw [← Option.some.inj h, ← hrest', List.drop_left, List.nil_append]
    · obtain ⟨before, hbefore⟩ := ih h
      exact ⟨c :: before, by simp [hbefore]⟩

/-- The first occurrence leaves the longest rest. -/
theorem afterFirst_le (segment before after : List α) :
    ∃ rest, afterFirst segment (before ++ segment ++ after) = some rest ∧ after <:+ rest := by
  induction before with
  | nil =>
    rw [List.nil_append]
    cases hall : segment ++ after with
    | nil =>
      obtain ⟨rfl, rfl⟩ := List.append_eq_nil_iff.mp hall
      exact ⟨[], by simp [afterFirst]⟩
    | cons c tail =>
      refine ⟨after, ?_, List.suffix_refl _⟩
      rw [afterFirst, if_pos ⟨after, hall⟩, ← hall, List.drop_left]
  | cons c before ih =>
    obtain ⟨rest, hrest, hsuffix⟩ := ih
    rw [List.cons_append, List.cons_append, afterFirst]
    split
    · rename_i hstart
      obtain ⟨rest', hrest'⟩ := hstart
      refine ⟨rest', by rw [← hrest', List.drop_left], ?_⟩
      -- both are ends of the same text, and the one after the start is the longer one
      have hwhole : after <:+ c :: (before ++ segment ++ after) := ⟨c :: (before ++ segment), by simp⟩
      refine List.suffix_of_suffix_length_le hwhole ⟨segment, hrest'⟩ ?_
      have hlength := congrArg List.length hrest'
      simp only [List.length_append, List.length_cons] at hlength
      omega
    · exact ⟨rest, hrest, hsuffix⟩

/-! ### Segments in order -/

/-- The segments occur in order, with any texts before each of them, and nothing after the
last. -/
def Fits : List (List α) → List α → Prop
  | [], remaining => remaining = []
  | segment :: segments, remaining =>
    ∃ before after, remaining = before ++ segment ++ after ∧ Fits segments after

omit [DecidableEq α] in
/-- A longer text before the first segment does no harm. -/
theorem Fits.extend {segment : List α} {segments : List (List α)} {short long : List α}
    (h : Fits (segment :: segments) short) (hlong : short <:+ long) :
    Fits (segment :: segments) long := by
  obtain ⟨before, after, rfl, hafter⟩ := h
  obtain ⟨text, rfl⟩ := hlong
  exact ⟨text ++ before, after, by simp, hafter⟩

theorem matchSegments_iff {segments : List (List α)} {remaining : List α} :
    matchSegments segments remaining = true ↔ Fits segments remaining := by
  induction segments generalizing remaining with
  | nil => simp [matchSegments, Fits]
  | cons segment segments ih =>
    cases segments with
    -- the last segment is looked for at the end of what remains
    | nil =>
      rw [matchSegments, decide_eq_true_eq]
      constructor
      · rintro ⟨before, rfl⟩
        exact ⟨before, [], by simp, rfl⟩
      · rintro ⟨before, after, rfl, rfl⟩
        exact ⟨before, by simp⟩
    -- any other one at its first place
    | cons next segments =>
      rw [matchSegments]
      constructor
      · intro h
        cases hfirst : afterFirst segment remaining with
        | none => simp [hfirst] at h
        | some rest =>
          rw [hfirst] at h
          obtain ⟨before, hbefore⟩ := afterFirst_eq_some hfirst
          exact ⟨before, rest, hbefore, ih.mp h⟩
      -- a later place leaves less for the segments that follow, so the first one does too
      · rintro ⟨before, after, rfl, hafter⟩
        obtain ⟨rest, hfirst, hsuffix⟩ := afterFirst_le segment before after
        rw [hfirst]
        exact ih.mpr (hafter.extend hsuffix)

/-! ### The meaning -/

/-- The first segment at the start and the others in order. -/
private def Segmented (segments : List (List α)) (value : List α) : Prop :=
  ∃ first rest after, segments = first :: rest ∧ value = first ++ after ∧ Fits rest after

private theorem matches_iff_segmented {star : α} {glob value : List α} :
    Matches star glob value ↔ Segmented (glob.splitOn star) value := by
  induction glob generalizing value with
  | nil =>
    constructor
    · intro h
      cases h
      exact ⟨[], [], [], rfl, rfl, rfl⟩
    · rintro ⟨first, rest, after, hsplit, rfl, hfits⟩
      rw [List.splitOn_nil, List.cons.injEq] at hsplit
      obtain ⟨rfl, rfl⟩ := hsplit
      rw [Fits] at hfits
      subst hfits
      exact Matches.nil
  | cons c glob ih =>
    by_cases hc : c = star
    · subst hc
      have hsplit : (c :: glob).splitOn c = [] :: glob.splitOn c := by
        simp [List.splitOn, List.splitOnP_cons_eq_if_modifyHead]
      rw [hsplit]
      constructor
      · intro h
        cases h with
        | letter hne _ => exact absurd rfl hne
        | wildcard text h =>
          obtain ⟨first, rest, after, hfirst, rfl, hfits⟩ := ih.mp h
          exact ⟨[], _, _, rfl, rfl, by rw [hfirst]; exact ⟨text, after, by simp, hfits⟩⟩
      · rintro ⟨first, rest, after, hcons, rfl, hfits⟩
        rw [List.cons.injEq] at hcons
        obtain ⟨rfl, rfl⟩ := hcons
        obtain ⟨first, rest, hfirst⟩ := List.exists_cons_of_ne_nil
          (List.splitOnP_ne_nil (· == c) glob)
        replace hfirst : glob.splitOn c = first :: rest := hfirst
        rw [hfirst] at hfits
        obtain ⟨text, after, rfl, hfits⟩ := hfits
        rw [List.nil_append, List.append_assoc]
        exact Matches.wildcard text (ih.mpr ⟨first, rest, after, hfirst, rfl, hfits⟩)
    · have hsplit : (c :: glob).splitOn star = (glob.splitOn star).modifyHead (List.cons c) := by
        simp [List.splitOn, List.splitOnP_cons_eq_if_modifyHead, hc]
      rw [hsplit]
      constructor
      · intro h
        cases h with
        | letter _ h =>
          obtain ⟨first, rest, after, hfirst, rfl, hfits⟩ := ih.mp h
          exact ⟨c :: first, rest, after, by rw [hfirst]; rfl, rfl, hfits⟩
        | wildcard text h => exact absurd rfl hc
      · rintro ⟨first, rest, after, hcons, rfl, hfits⟩
        obtain ⟨first', rest', hfirst⟩ := List.exists_cons_of_ne_nil
          (List.splitOnP_ne_nil (· == star) glob)
        replace hfirst : glob.splitOn star = first' :: rest' := hfirst
        rw [hfirst, List.modifyHead_cons, List.cons.injEq] at hcons
        obtain ⟨rfl, rfl⟩ := hcons
        exact Matches.letter hc (ih.mpr ⟨first', rest', after, hfirst, rfl, hfits⟩)

/-- The walk decides the meaning of a pattern. -/
theorem globMatch_iff {star : α} {glob value : List α} :
    globMatch star glob value = true ↔ Matches star glob value := by
  rw [matches_iff_segmented, globMatch]
  obtain ⟨first, rest, hfirst⟩ := List.exists_cons_of_ne_nil
    (List.splitOnP_ne_nil (· == star) glob)
  replace hfirst : glob.splitOn star = first :: rest := hfirst
  rw [hfirst]
  simp only [Bool.and_eq_true, decide_eq_true_eq, matchSegments_iff]
  constructor
  · rintro ⟨⟨after, rfl⟩, hfits⟩
    rw [List.drop_left] at hfits
    exact ⟨first, rest, after, rfl, rfl, hfits⟩
  · rintro ⟨first, rest, after, hcons, rfl, hfits⟩
    rw [List.cons.injEq] at hcons
    obtain ⟨rfl, rfl⟩ := hcons
    rw [List.drop_left]
    exact ⟨⟨after, rfl⟩, hfits⟩

/-- The pattern with the texts in the places of its wildcards. -/
def filled (star : α) : List α → List (List α) → List α
  | [], _ => []
  | c :: glob, texts =>
    if c = star then texts.headD [] ++ filled star glob texts.tail
    else c :: filled star glob texts

/-- The meaning written out: one text for each wildcard. -/
theorem matches_iff_filled {star : α} {glob value : List α} :
    Matches star glob value ↔
      ∃ texts : List (List α), texts.length = glob.count star ∧ filled star glob texts = value := by
  constructor
  · intro h
    -- read off the derivation which text each wildcard stands for
    induction h with
    | nil => exact ⟨[], rfl, rfl⟩
    | @letter c glob value hc _ ih =>
      obtain ⟨texts, hlength, rfl⟩ := ih
      refine ⟨texts, by rw [List.count_cons_of_ne hc, hlength], ?_⟩
      rw [filled, if_neg hc]
    | @wildcard glob value text _ ih =>
      obtain ⟨texts, hlength, rfl⟩ := ih
      refine ⟨text :: texts, by rw [List.count_cons_self, List.length_cons, hlength], ?_⟩
      rw [filled, if_pos rfl]
      rfl
  · rintro ⟨texts, hlength, rfl⟩
    -- and the other way, along the pattern
    induction glob generalizing texts with
    | nil => exact .nil
    | cons c glob ih =>
      by_cases hc : c = star
      · subst hc
        rw [List.count_cons_self] at hlength
        rw [filled, if_pos rfl]
        exact .wildcard _ (ih _ (by rw [List.length_tail, hlength, Nat.add_sub_cancel]))
      · rw [List.count_cons_of_ne hc] at hlength
        rw [filled, if_neg hc]
        exact .letter hc (ih _ hlength)

/-! ### Patterns over parts -/

/-- One place of a pattern over texts whose parts end at a separator. -/
inductive Piece (α : Type) where
  /-- Any text. -/
  | any
  /-- Any text inside one part. -/
  | inside
  /-- Any letter of a part. -/
  | one
  /-- This letter. -/
  | letter (c : α)

/-- The value is the pattern with something fitting in every place. -/
inductive PiecesMatch (separator : α) : List (Piece α) → List α → Prop
  | nil : PiecesMatch separator [] []
  | any {pieces : List (Piece α)} {value : List α} (text : List α) :
    PiecesMatch separator pieces value → PiecesMatch separator (.any :: pieces) (text ++ value)
  | inside {pieces : List (Piece α)} {value : List α} (text : List α) :
    separator ∉ text → PiecesMatch separator pieces value →
      PiecesMatch separator (.inside :: pieces) (text ++ value)
  | one {pieces : List (Piece α)} {value : List α} {c : α} :
    c ≠ separator → PiecesMatch separator pieces value →
      PiecesMatch separator (.one :: pieces) (c :: value)
  | letter {pieces : List (Piece α)} {value : List α} {c : α} :
    PiecesMatch separator pieces value → PiecesMatch separator (.letter c :: pieces) (c :: value)

/-- The texts that fit in a place. -/
def Piece.Fits (separator : α) : Piece α → List α → Prop
  | .any, _ => True
  | .inside, text => separator ∉ text
  | .one, text => ∃ c, c ≠ separator ∧ text = [c]
  | .letter c, text => text = [c]

omit [DecidableEq α] in
/-- The value is a concatenation with one fitting text for each place. -/
theorem piecesMatch_iff {separator : α} {pieces : List (Piece α)} {value : List α} :
    PiecesMatch separator pieces value ↔
      ∃ texts, List.Forall₂ (Piece.Fits separator) pieces texts ∧ texts.flatten = value := by
  constructor
  · intro h
    -- each step of the derivation takes one piece and its text
    induction h with
    | nil => exact ⟨[], .nil, rfl⟩
    | any text _ ih =>
      obtain ⟨texts, hfits, rfl⟩ := ih
      exact ⟨text :: texts, .cons trivial hfits, rfl⟩
    | inside text htext _ ih =>
      obtain ⟨texts, hfits, rfl⟩ := ih
      exact ⟨text :: texts, .cons htext hfits, rfl⟩
    | @one _ _ c hc _ ih =>
      obtain ⟨texts, hfits, rfl⟩ := ih
      exact ⟨[c] :: texts, .cons ⟨c, hc, rfl⟩ hfits, rfl⟩
    | @letter _ _ c _ ih =>
      obtain ⟨texts, hfits, rfl⟩ := ih
      exact ⟨[c] :: texts, .cons rfl hfits, rfl⟩
  · rintro ⟨texts, hfits, rfl⟩
    -- each piece says what its text may be
    induction hfits with
    | nil => exact .nil
    | @cons piece text _ _ hfit _ ih =>
      rw [List.flatten_cons]
      cases piece with
      | any => exact .any text ih
      | inside => exact .inside text hfit ih
      | one =>
        obtain ⟨c, hc, rfl⟩ := hfit
        exact .one hc ih
      | letter c =>
        obtain rfl : text = [c] := hfit
        exact .letter ih

/-- Skips any number of letters that satisfy `skip`, then continues with `rest`. -/
def skipping (rest : List α → Bool) (skip : α → Bool) : List α → Bool
  | [] => rest []
  | c :: value => rest (c :: value) || (skip c && skipping rest skip value)

omit [DecidableEq α] in
theorem skipping_iff {rest : List α → Bool} {skip : α → Bool} {value : List α} :
    skipping rest skip value = true ↔
      ∃ text after, value = text ++ after ∧ (∀ c ∈ text, skip c = true) ∧ rest after = true := by
  induction value with
  | nil =>
    -- nothing is left to skip
    rw [skipping]
    constructor
    · intro h
      exact ⟨[], [], rfl, fun c hc => absurd hc List.not_mem_nil, h⟩
    · rintro ⟨text, after, hvalue, -, h⟩
      obtain ⟨rfl, rfl⟩ := List.append_eq_nil_iff.mp hvalue.symm
      exact h
  | cons c value ih =>
    rw [skipping, Bool.or_eq_true, Bool.and_eq_true, ih]
    constructor
    -- skip nothing, or the first character and then some more
    · rintro (h | ⟨hc, text, after, rfl, htext, h⟩)
      · exact ⟨[], c :: value, rfl, fun c hc => absurd hc List.not_mem_nil, h⟩
      · exact ⟨c :: text, after, rfl, List.forall_mem_cons.mpr ⟨hc, htext⟩, h⟩
    · rintro ⟨text, after, hvalue, htext, h⟩
      cases text with
      | nil =>
        rw [List.nil_append] at hvalue
        exact Or.inl (hvalue ▸ h)
      | cons d text =>
        rw [List.cons_append, List.cons.injEq] at hvalue
        obtain ⟨rfl, rfl⟩ := hvalue
        obtain ⟨hc, htext⟩ := List.forall_mem_cons.mp htext
        exact Or.inr ⟨hc, text, after, rfl, htext, h⟩

/-- The pattern, tried place by place. -/
def matchPieces (separator : α) : List (Piece α) → List α → Bool
  | [], value => value.isEmpty
  | .any :: pieces, value => skipping (matchPieces separator pieces) (fun _ => true) value
  | .inside :: pieces, value =>
    skipping (matchPieces separator pieces) (fun c => decide (c ≠ separator)) value
  | .one :: _, [] => false
  | .one :: pieces, c :: value => decide (c ≠ separator) && matchPieces separator pieces value
  | .letter _ :: _, [] => false
  | .letter d :: pieces, c :: value => decide (c = d) && matchPieces separator pieces value

/-- Backtracking decides the meaning. -/
theorem matchPieces_iff {separator : α} {pieces : List (Piece α)} {value : List α} :
    matchPieces separator pieces value = true ↔ PiecesMatch separator pieces value := by
  induction pieces generalizing value with
  | nil =>
    rw [matchPieces, List.isEmpty_iff]
    constructor
    · rintro rfl
      exact .nil
    · intro h
      -- a derivation without pieces reads the empty value
      cases h
      rfl
  | cons piece pieces ih =>
    cases piece with
    | any =>
      -- a piece that skips: over anything, or over anything but the separator
      rw [matchPieces, skipping_iff]
      constructor
      · rintro ⟨text, after, rfl, -, h⟩
        exact .any text (ih.mp h)
      · intro h
        cases h with
        | any text h => exact ⟨text, _, rfl, fun _ _ => rfl, ih.mpr h⟩
    | inside =>
      rw [matchPieces, skipping_iff]
      constructor
      · rintro ⟨text, after, rfl, htext, h⟩
        refine .inside text (fun hmem => ?_) (ih.mp h)
        have hne := htext separator hmem
        simp at hne
      · intro h
        cases h with
        | inside text htext h =>
          refine ⟨text, _, rfl, fun c hc => ?_, ih.mpr h⟩
          rw [decide_eq_true_eq]
          rintro rfl
          exact htext hc
    | one =>
      -- a piece of one character reads the first one
      cases value with
      | nil =>
        rw [matchPieces]
        exact ⟨fun h => absurd h Bool.false_ne_true, fun h => by cases h⟩
      | cons c value =>
        rw [matchPieces, Bool.and_eq_true, decide_eq_true_eq, ih]
        constructor
        · rintro ⟨hc, h⟩
          exact .one hc h
        · intro h
          cases h with
          | one hc h => exact ⟨hc, h⟩
    | letter d =>
      cases value with
      | nil =>
        rw [matchPieces]
        exact ⟨fun h => absurd h Bool.false_ne_true, fun h => by cases h⟩
      | cons c value =>
        rw [matchPieces, Bool.and_eq_true, decide_eq_true_eq, ih]
        constructor
        · rintro ⟨rfl, h⟩
          exact .letter h
        · intro h
          cases h with
          | letter h => exact ⟨rfl, h⟩

end Glob
