/-
Where a text occurs in another.

* `containsText` — whether a text is a part of another;
* `prefix_joined`, `infix_joined` — a part without separators lies within one of the parts;
* `infix_joined_pair` — a part with one separator lies across two parts next to each other;
* `toAsciiLowercase`, `toAsciiUppercase` — the letters of ASCII in the other case.
-/
import BlobYard.Lib.Splitting
import Mathlib.Data.List.Infix

namespace BlobYard

section Occurrences

variable {α : Type}

/-- `str::contains`. -/
def containsText [DecidableEq α] (part : List α) : List α → Bool
  | [] => part.isEmpty
  | a :: rest => part.isPrefixOf (a :: rest) || containsText part rest

theorem containsText_iff [DecidableEq α] {part text : List α} :
    containsText part text = true ↔ part <:+: text := by
  induction text with
  | nil => rw [containsText, List.isEmpty_iff, List.infix_nil]
  | cons a rest ih =>
    rw [containsText, Bool.or_eq_true, List.isPrefixOf_iff_prefix, ih, List.infix_cons_iff]

/-! ### Parts with separators between them -/

/-- The beginning of a text up to its separator. -/
theorem prefix_append_cons {separator : α} {part before after : List α} (h : separator ∉ part) :
    part <+: before ++ separator :: after ↔ part <+: before := by
  refine ⟨fun ⟨rest, heq⟩ => ?_, fun hpart => hpart.trans (List.prefix_append before _)⟩
  rcases List.append_eq_append_iff.mp heq with ⟨tail, rfl, -⟩ | ⟨tail, rfl, htail⟩
  · exact List.prefix_append part tail
  · cases tail with
    | nil => rw [List.append_nil]
    | cons c tail =>
      -- the part reaches the separator
      rw [List.cons_append, List.cons.injEq] at htail
      exact absurd (List.mem_append_right before (htail.1 ▸ List.mem_cons_self)) h

theorem prefix_joined {separator : α} {part first : List α} {rest : List (List α)}
    (h : separator ∉ part) : part <+: joined separator first rest ↔ part <+: first := by
  cases rest with
  | nil => rw [joined, List.flatMap_nil, List.append_nil]
  | cons next rest => rw [joined_cons, prefix_append_cons h]

/-- A part without the separator lies before or after it. -/
theorem infix_append_cons {separator : α} {part before after : List α} (h : separator ∉ part)
    (hne : part ≠ []) :
    part <:+: before ++ separator :: after ↔ part <:+: before ∨ part <:+: after := by
  induction before with
  | nil =>
    rw [List.nil_append, List.infix_cons_iff, List.infix_nil]
    refine or_congr_left ⟨fun hpart => ?_, fun hnil => absurd hnil hne⟩
    exact List.prefix_nil.mp ((@prefix_append_cons _ _ _ [] _ h).mp hpart)
  | cons c before ih =>
    rw [List.cons_append, List.infix_cons_iff, ih, List.infix_cons_iff, ← or_assoc,
      ← List.cons_append, prefix_append_cons h]

theorem infix_joined {separator : α} {part first : List α} {rest : List (List α)}
    (h : separator ∉ part) (hne : part ≠ []) :
    part <:+: joined separator first rest ↔ ∃ p ∈ first :: rest, part <:+: p := by
  induction rest generalizing first with
  | nil =>
    rw [joined, List.flatMap_nil, List.append_nil]
    simp
  | cons next rest ih =>
    rw [joined_cons, infix_append_cons h hne, ih]
    exact (List.exists_mem_cons_iff (part <:+: ·) first (next :: rest)).symm

/-- Two parts next to each other, of which one ends and the other begins like this. -/
def Adjacent (ending beginning : List α) : List (List α) → Prop
  | p :: q :: rest => (ending <:+ p ∧ beginning <+: q) ∨ Adjacent ending beginning (q :: rest)
  | _ => False

/-- The first separator parts a text in one way only. -/
theorem append_cons_inj {separator : α} {before before' after after' : List α}
    (h : separator ∉ before) (h' : separator ∉ before')
    (heq : before ++ separator :: after = before' ++ separator :: after') :
    before = before' ∧ after = after' := by
  classical
  have hsplit := splitOnce_append h after
  rw [heq, splitOnce_append h' after', Option.some.injEq, Prod.mk.injEq] at hsplit
  exact ⟨hsplit.1.symm, hsplit.2.symm⟩

/-- A part with one separator lies across the first separator or behind it. -/
theorem infix_pair_append_cons {separator : α} {ending beginning before after : List α}
    (hending : separator ∉ ending) (hbefore : separator ∉ before) :
    ending ++ separator :: beginning <:+: before ++ separator :: after ↔
      (ending <:+ before ∧ beginning <+: after) ∨
        ending ++ separator :: beginning <:+: after := by
  classical
  constructor
  · rintro ⟨start, rest, heq⟩
    rw [List.append_assoc, List.append_assoc, List.cons_append, ← List.append_assoc] at heq
    by_cases hstart : separator ∈ start
    · right
      obtain ⟨start, middle, rfl, hfirst⟩ := List.eq_append_cons_of_mem hstart
      rw [List.append_assoc, List.append_assoc, List.cons_append] at heq
      obtain ⟨-, rfl⟩ := append_cons_inj hfirst hbefore heq
      exact ⟨middle, rest, by simp⟩
    · left
      have hmem : separator ∉ start ++ ending := by
        rw [List.mem_append, not_or]
        exact ⟨hstart, hending⟩
      obtain ⟨rfl, rfl⟩ := append_cons_inj hmem hbefore heq
      exact ⟨List.suffix_append start ending, List.prefix_append beginning rest⟩
  · rintro (⟨⟨start, rfl⟩, ⟨rest, rfl⟩⟩ | hpart)
    · exact ⟨start, rest, by simp⟩
    · exact hpart.trans ((List.suffix_cons separator after).trans
        (List.suffix_append before _)).isInfix

theorem infix_joined_pair {separator : α} {ending beginning first : List α}
    {rest : List (List α)} (hending : separator ∉ ending) (hbeginning : separator ∉ beginning)
    (hparts : ∀ p ∈ first :: rest, separator ∉ p) :
    ending ++ separator :: beginning <:+: joined separator first rest ↔
      Adjacent ending beginning (first :: rest) := by
  induction rest generalizing first with
  | nil =>
    rw [joined, List.flatMap_nil, List.append_nil]
    refine iff_of_false (fun hpart => ?_) fun hadjacent => hadjacent.elim
    exact hparts first List.mem_cons_self (hpart.subset (by simp))
  | cons next rest ih =>
    rw [joined_cons, infix_pair_append_cons hending (hparts first List.mem_cons_self),
      prefix_joined hbeginning, ih fun p hp => hparts p (List.mem_cons_of_mem first hp), Adjacent]

/-- Parts next to each other lie behind each other when everything runs together. -/
theorem Adjacent.infix_flatten {ending beginning : List α} {parts : List (List α)}
    (h : Adjacent ending beginning parts) : ending ++ beginning <:+: parts.flatten := by
  induction parts with
  | nil => exact h.elim
  | cons p rest ih =>
    cases rest with
    | nil => exact h.elim
    | cons q rest =>
      rcases h with ⟨⟨start, rfl⟩, ⟨tail, rfl⟩⟩ | h
      · exact ⟨start, tail ++ rest.flatten, by simp⟩
      · exact (ih h).trans (List.suffix_append p _).isInfix

end Occurrences

/-! ### Letters -/

def toAsciiLowercase (c : Char) : Char :=
  if 65 ≤ c.toNat ∧ c.toNat ≤ 90 then Char.ofNat (c.toNat + 32) else c

def toAsciiUppercase (c : Char) : Char :=
  if 97 ≤ c.toNat ∧ c.toNat ≤ 122 then Char.ofNat (c.toNat - 32) else c

end BlobYard
