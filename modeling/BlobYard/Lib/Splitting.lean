/-
Taking texts apart.

* `stripPrefix?`, `stripSuffix?` — what follows a fixed beginning, what precedes a fixed end;
* `splitOnce` — the parts before and after the first occurrence of a separator;
* `rsplitOnce` — the parts before and after its last occurrence;
* `joined` — parts with a separator between them, which `List.splitOn` takes apart.
-/
import BlobYard.Lib.PathOrder
import Mathlib.Data.List.Basic

namespace BlobYard

variable {α : Type} [DecidableEq α]

/-- `strip_prefix`. -/
def stripPrefix? (start text : List α) : Option (List α) :=
  if start.isPrefixOf text then some (text.drop start.length) else none

theorem stripPrefix?_eq_some {start text rest : List α} :
    stripPrefix? start text = some rest ↔ text = start ++ rest := by
  unfold stripPrefix?
  split
  case isTrue h =>
    obtain ⟨rest', rfl⟩ := List.isPrefixOf_iff_prefix.mp h
    simp
  case isFalse h =>
    simp only [reduceCtorEq, false_iff]
    rintro rfl
    exact h (List.isPrefixOf_iff_prefix.mpr (List.prefix_append start rest))

/-- `strip_suffix`. -/
def stripSuffix? (suffix text : List α) : Option (List α) :=
  if suffix.isSuffixOf text then some (text.take (text.length - suffix.length)) else none

theorem stripSuffix?_eq_some {suffix text rest : List α} :
    stripSuffix? suffix text = some rest ↔ text = rest ++ suffix := by
  unfold stripSuffix?
  split
  case isTrue h =>
    obtain ⟨rest', rfl⟩ := List.isSuffixOf_iff_suffix.mp h
    simp
  case isFalse h =>
    simp only [reduceCtorEq, false_iff]
    rintro rfl
    exact h (List.isSuffixOf_iff_suffix.mpr (List.suffix_append rest suffix))

/-- `split_once`. -/
def splitOnce (separator : α) : List α → Option (List α × List α)
  | [] => none
  | a :: rest =>
    if a = separator then some ([], rest)
    else (splitOnce separator rest).map fun (before, after) => (a :: before, after)

theorem splitOnce_append {separator : α} {before : List α} (h : separator ∉ before)
    (after : List α) :
    splitOnce separator (before ++ separator :: after) = some (before, after) := by
  induction before with
  | nil => simp [splitOnce]
  | cons a rest ih =>
    rw [List.mem_cons, not_or] at h
    rw [List.cons_append, splitOnce, if_neg (Ne.symm h.1), ih h.2]
    rfl

/-- The separator is the first one. -/
theorem splitOnce_eq_some {separator : α} {text before after : List α} :
    splitOnce separator text = some (before, after) ↔
      text = before ++ separator :: after ∧ separator ∉ before := by
  refine ⟨fun h => ?_, fun ⟨h, hnot⟩ => h ▸ splitOnce_append hnot after⟩
  induction text generalizing before with
  | nil => simp [splitOnce] at h
  | cons a rest ih =>
    rw [splitOnce] at h
    split at h
    case isTrue ha =>
      simp only [Option.some.injEq, Prod.mk.injEq] at h
      obtain ⟨rfl, rfl⟩ := h
      rw [ha]
      exact ⟨rfl, List.not_mem_nil⟩
    case isFalse ha =>
      rw [Option.map_eq_some_iff] at h
      obtain ⟨⟨before', after'⟩, hsplit, heq⟩ := h
      simp only [Prod.mk.injEq] at heq
      obtain ⟨rfl, rfl⟩ := heq
      obtain ⟨rfl, hnot⟩ := ih hsplit
      exact ⟨rfl, by simp [Ne.symm ha, hnot]⟩

theorem splitOnce_eq_none {separator : α} {text : List α} :
    splitOnce separator text = none ↔ separator ∉ text := by
  constructor
  · intro h hmem
    obtain ⟨before, after, rfl, hnot⟩ := List.eq_append_cons_of_mem hmem
    rw [splitOnce_append hnot] at h
    cases h
  · intro h
    refine Option.eq_none_iff_forall_ne_some.mpr fun (before, after) hsplit => h ?_
    rw [(splitOnce_eq_some.mp hsplit).1]
    exact List.mem_append_right before List.mem_cons_self

/-- `rsplit_once`. -/
def rsplitOnce (separator : α) (text : List α) : Option (List α × List α) :=
  (splitOnce separator text.reverse).map fun (after, before) => (before.reverse, after.reverse)

/-- The separator is the last one. -/
theorem rsplitOnce_eq_some {separator : α} {text before after : List α} :
    rsplitOnce separator text = some (before, after) ↔
      text = before ++ separator :: after ∧ separator ∉ after := by
  rw [rsplitOnce, Option.map_eq_some_iff]
  constructor
  · rintro ⟨⟨after', before'⟩, hsplit, heq⟩
    simp only [Prod.mk.injEq] at heq
    obtain ⟨rfl, rfl⟩ := heq
    obtain ⟨htext, hnot⟩ := splitOnce_eq_some.mp hsplit
    refine ⟨?_, by simpa using hnot⟩
    rw [← List.reverse_reverse text, htext]
    simp
  · rintro ⟨rfl, hnot⟩
    exact ⟨(after.reverse, before.reverse), splitOnce_eq_some.mpr ⟨by simp, by simpa using hnot⟩,
      by simp⟩

/-- The parts with the separator between them. -/
def joined (separator : α) (first : List α) (rest : List (List α)) : List α :=
  first ++ rest.flatMap (separator :: ·)

omit [DecidableEq α] in
theorem joined_cons {separator : α} (first part : List α) (rest : List (List α)) :
    joined separator first (part :: rest) = first ++ separator :: joined separator part rest := by
  simp [joined]

omit [DecidableEq α] in
theorem subset_joined {separator : α} {first part : List α} {rest : List (List α)}
    (h : part ∈ first :: rest) : part ⊆ joined separator first rest := by
  intro a ha
  rw [joined, List.mem_append, List.mem_flatMap]
  rcases List.mem_cons.mp h with rfl | h
  · exact Or.inl ha
  · exact Or.inr ⟨part, h, List.mem_cons_of_mem separator ha⟩

omit [DecidableEq α] in
theorem joined_concat {separator : α} (first last : List α) (rest : List (List α)) :
    joined separator first (rest ++ [last]) = joined separator first rest ++ separator :: last := by
  simp [joined]

omit [DecidableEq α] in
/-- Parts that end in the separator, and a last one. -/
theorem flatMap_terminated {separator : α} (first last : List α) (rest : List (List α)) :
    (first :: rest).flatMap (· ++ [separator]) ++ last =
      joined separator first (rest ++ [last]) := by
  induction rest generalizing first with
  | nil => simp [joined]
  | cons part rest ih =>
    rw [List.cons_append, joined_cons, ← ih, List.flatMap_cons]
    simp

omit [DecidableEq α] in
/-- Parts with separators between them, or parts that end in the separator and a last one. -/
theorem exists_joined_iff {separator : α} {text : List α} {P : List (List α) → Prop} :
    (∃ first rest, text = joined separator first rest ∧ P (first :: rest)) ↔
      ∃ parts last, text = parts.flatMap (· ++ [separator]) ++ last ∧ P (parts ++ [last]) := by
  constructor
  · rintro ⟨first, rest, rfl, hP⟩
    rcases List.eq_nil_or_concat' rest with rfl | ⟨middle, last, rfl⟩
    · exact ⟨[], first, by simp [joined], hP⟩
    · exact ⟨first :: middle, last, (flatMap_terminated first last middle).symm, hP⟩
  · rintro ⟨parts, last, rfl, hP⟩
    cases parts with
    | nil => exact ⟨last, [], by simp [joined], hP⟩
    | cons first middle => exact ⟨first, middle ++ [last], flatMap_terminated first last middle, hP⟩

theorem splitOn_joined {separator : α} {first : List α} {rest : List (List α)}
    (h : ∀ part ∈ first :: rest, separator ∉ part) :
    (joined separator first rest).splitOn separator = first :: rest := by
  induction rest generalizing first with
  | nil =>
    rw [joined, List.flatMap_nil, List.append_nil]
    exact List.splitOn_eq_singleton (h first List.mem_cons_self)
  | cons part rest ih =>
    rw [joined_cons, List.splitOn_append_cons_self_of_not_mem (h first List.mem_cons_self),
      ih fun p hp => h p (List.mem_cons_of_mem first hp)]

theorem splitOn_terminated {separator : α} {parts : List (List α)} {last : List α}
    (h : ∀ part ∈ parts ++ [last], separator ∉ part) :
    (parts.flatMap (· ++ [separator]) ++ last).splitOn separator = parts ++ [last] := by
  cases parts with
  | nil => exact List.splitOn_eq_singleton (h last (by simp))
  | cons first middle =>
    rw [flatMap_terminated]
    exact splitOn_joined h

omit [DecidableEq α] in
theorem intercalate_eq_joined {separator : α} (first : List α) (rest : List (List α)) :
    [separator].intercalate (first :: rest) = joined separator first rest := by
  induction rest generalizing first with
  | nil => simp [joined]
  | cons part rest ih => rw [joined_cons, ← ih, List.intercalate_cons_cons]; simp

omit [DecidableEq α] in
theorem mem_intercalate {separator a : α} {parts : List (List α)}
    (h : a ∈ [separator].intercalate parts) : a = separator ∨ ∃ part ∈ parts, a ∈ part := by
  cases parts with
  | nil => exact absurd h List.not_mem_nil
  | cons first rest =>
    rw [intercalate_eq_joined, joined, List.mem_append, List.mem_flatMap] at h
    rcases h with h | ⟨part, hpart, h⟩
    · exact Or.inr ⟨first, List.mem_cons_self, h⟩
    · rcases List.mem_cons.mp h with rfl | h
      · exact Or.inl rfl
      · exact Or.inr ⟨part, List.mem_cons_of_mem first hpart, h⟩

/-- Every text is the parts that splitting it gives. -/
theorem exists_joined (separator : α) (text : List α) :
    ∃ first rest, text = joined separator first rest ∧
      ∀ part ∈ first :: rest, separator ∉ part := by
  obtain ⟨first, rest, hsplit⟩ := List.exists_cons_of_ne_nil (List.splitOn_ne_nil separator text)
  refine ⟨first, rest, ?_, fun part hpart =>
    PathOrder.not_mem_of_mem_splitOn (hsplit ▸ hpart)⟩
  rw [← intercalate_eq_joined, ← hsplit, List.intercalate_splitOn]

theorem subset_of_mem_splitOn {separator : α} {text : List α} (h : part ∈ text.splitOn separator) :
    part ⊆ text := by
  obtain ⟨first, rest, rfl, hparts⟩ := exists_joined separator text
  rw [splitOn_joined hparts] at h
  exact subset_joined h

/-- Two texts with a separator between them have the parts of both. -/
theorem splitOn_append (separator : α) (before after : List α) :
    (before ++ separator :: after).splitOn separator =
      before.splitOn separator ++ after.splitOn separator := by
  obtain ⟨first, rest, rfl, hparts⟩ := exists_joined separator before
  obtain ⟨first', rest', rfl, hparts'⟩ := exists_joined separator after
  have hjoined : joined separator first rest ++ separator :: joined separator first' rest' =
      joined separator first (rest ++ first' :: rest') := by
    simp [joined]
  rw [hjoined, splitOn_joined, splitOn_joined hparts, splitOn_joined hparts']
  · rfl
  · intro part hpart
    have hmem : part ∈ (first :: rest) ++ first' :: rest' := by simpa using hpart
    rcases List.mem_append.mp hmem with h | h
    · exact hparts part h
    · exact hparts' part h

/-- A text is its parts, each behind a separator, but for the first separator. -/
theorem flatMap_splitOn (separator : α) (text : List α) :
    (text.splitOn separator).flatMap (separator :: ·) = separator :: text := by
  obtain ⟨first, rest, rfl, hparts⟩ := exists_joined separator text
  rw [splitOn_joined hparts, List.flatMap_cons, joined]
  rfl

end BlobYard
