/-
Regular expressions with anchors and negative lookahead.

An expression matches a part of a text.  Anchors and lookahead look at what stands before
and behind that part, so that matching is a relation between three texts.  Expressions
without them denote a language.

* `Regex`, `Matches`, `Found` — the expressions, a match in its context, and the search;
* `found_whole` — an expression between anchors has to match the whole text;
* `Denotes` and its rules — the language of an expression, put together from its parts;
* `Denotes.run`, `Denotes.optional`, `Denotes.parted` — classes, options and separators.
-/
import Mathlib.Computability.Language

namespace BlobYard

/-- Expressions over an alphabet; `most` is `none` where a repetition is not bounded. -/
inductive Regex (α : Type) where
  | empty
  | one (accepts : α → Bool)
  | start
  | stop
  | seq (first second : Regex α)
  | alt (left right : Regex α)
  | rep (r : Regex α) (least : ℕ) (most : Option ℕ)
  | notAhead (r : Regex α)

namespace Regex

variable {α : Type}

/-- `n` parts that match one behind the other. -/
def Repeated (matching : List α → List α → List α → Prop) :
    ℕ → List α → List α → List α → Prop
  | 0, _, here, _ => here = []
  | n + 1, before, here, after => ∃ u v, here = u ++ v ∧ matching before u (v ++ after) ∧
      Repeated matching n (before ++ u) v after

/-- The number of repetitions is within the bounds. -/
def Within (least : ℕ) (most : Option ℕ) (n : ℕ) : Prop := least ≤ n ∧ ∀ m, most = some m → n ≤ m

/-- The expression matches `here` in the text `before ++ here ++ after`. -/
def Matches : Regex α → List α → List α → List α → Prop
  | .empty, _, here, _ => here = []
  | .one accepts, _, here, _ => ∃ a, here = [a] ∧ accepts a = true
  | .start, before, here, _ => here = [] ∧ before = []
  | .stop, _, here, after => here = [] ∧ after = []
  | .seq r s, before, here, after => ∃ u v, here = u ++ v ∧ r.Matches before u (v ++ after) ∧
      s.Matches (before ++ u) v after
  | .alt r s, before, here, after => r.Matches before here after ∨ s.Matches before here after
  | .rep r least most, before, here, after => ∃ n, Within least most n ∧
      Repeated r.Matches n before here after
  | .notAhead r, before, here, after => here = [] ∧
      ¬ ∃ u v, after = u ++ v ∧ r.Matches before u v

/-- The expression matches some part of the text. -/
def Found (r : Regex α) (text : List α) : Prop :=
  ∃ before here after, text = before ++ here ++ after ∧ r.Matches before here after

/-! ### Expressions between anchors -/

/-- `^r$`. -/
def whole (r : Regex α) : Regex α := .seq .start (.seq r .stop)

theorem found_whole {r : Regex α} {text : List α} :
    (whole r).Found text ↔ r.Matches [] text [] := by
  constructor
  · rintro ⟨before, here, after, rfl, u, v, rfl, ⟨rfl, rfl⟩, u', v', rfl, hr, rfl, rfl⟩
    simpa using hr
  · intro h
    exact ⟨[], text, [], by simp, [], text, rfl, ⟨rfl, rfl⟩, text, [], by simp, by simpa using h,
      rfl, rfl⟩

theorem found_alt {r s : Regex α} {text : List α} :
    (Regex.alt r s).Found text ↔ r.Found text ∨ s.Found text := by
  constructor
  · rintro ⟨before, here, after, rfl, h | h⟩
    · exact Or.inl ⟨before, here, after, rfl, h⟩
    · exact Or.inr ⟨before, here, after, rfl, h⟩
  · rintro (⟨before, here, after, rfl, h⟩ | ⟨before, here, after, rfl, h⟩)
    · exact ⟨before, here, after, rfl, Or.inl h⟩
    · exact ⟨before, here, after, rfl, Or.inr h⟩

/-! ### Expressions that denote a language -/

/-- Whatever stands around it, the expression matches the words of the language. -/
def Denotes (r : Regex α) (L : Language α) : Prop :=
  ∀ before here after, r.Matches before here after ↔ here ∈ L

theorem Denotes.found_whole {r : Regex α} {L : Language α} (h : Denotes r L) {text : List α} :
    (whole r).Found text ↔ text ∈ L :=
  Regex.found_whole.trans (h [] text [])

theorem denotes_empty : Denotes (.empty : Regex α) 1 := by
  intro before here after
  rw [Language.mem_one]
  rfl

/-- The texts of one letter of a class. -/
def letter (accepts : α → Bool) : Language α := {w | ∃ a, w = [a] ∧ accepts a = true}

@[simp] theorem mem_letter {accepts : α → Bool} {w : List α} :
    w ∈ letter accepts ↔ ∃ a, w = [a] ∧ accepts a = true := Iff.rfl

theorem denotes_one (accepts : α → Bool) : Denotes (.one accepts) (letter accepts) :=
  fun _ _ _ => Iff.rfl

section Rules

variable {r s : Regex α} {L M : Language α}

theorem Denotes.seq (hr : Denotes r L) (hs : Denotes s M) : Denotes (.seq r s) (L * M) := by
  intro before here after
  rw [Language.mem_mul]
  constructor
  · rintro ⟨u, v, rfl, hu, hv⟩
    exact ⟨u, (hr _ _ _).mp hu, v, (hs _ _ _).mp hv, rfl⟩
  · rintro ⟨u, hu, v, hv, rfl⟩
    exact ⟨u, v, rfl, (hr _ _ _).mpr hu, (hs _ _ _).mpr hv⟩

theorem Denotes.alt (hr : Denotes r L) (hs : Denotes s M) : Denotes (.alt r s) (L + M) := by
  intro before here after
  rw [Language.mem_add, ← hr before here after, ← hs before here after]
  rfl

theorem repeated_iff (hr : Denotes r L) {n : ℕ} {before here after : List α} :
    Repeated r.Matches n before here after ↔ here ∈ L ^ n := by
  induction n generalizing before here with
  | zero =>
    rw [pow_zero, Language.mem_one]
    rfl
  | succ n ih =>
    rw [pow_succ', Language.mem_mul]
    constructor
    · rintro ⟨u, v, rfl, hu, hv⟩
      exact ⟨u, (hr _ _ _).mp hu, v, ih.mp hv, rfl⟩
    · rintro ⟨u, hu, v, hv, rfl⟩
      exact ⟨u, v, rfl, (hr _ _ _).mpr hu, ih.mpr hv⟩

/-- Words of the language, a number of them within the bounds, one behind the other. -/
def repeats (L : Language α) (least : ℕ) (most : Option ℕ) : Language α :=
  {w | ∃ words : List (List α), w = words.flatten ∧ Within least most words.length ∧
    ∀ u ∈ words, u ∈ L}

theorem Denotes.rep (hr : Denotes r L) (least : ℕ) (most : Option ℕ) :
    Denotes (.rep r least most) (repeats L least most) := by
  intro before here after
  simp only [Matches, repeated_iff hr, Language.mem_pow]
  constructor
  · rintro ⟨n, hn, words, rfl, rfl, hwords⟩
    exact ⟨words, rfl, hn, hwords⟩
  · rintro ⟨words, rfl, hn, hwords⟩
    exact ⟨_, hn, words, rfl, rfl, hwords⟩

theorem Denotes.congr (hr : Denotes r L) (h : ∀ w, w ∈ L ↔ w ∈ M) : Denotes r M :=
  fun before here after => (hr before here after).trans (h here)

end Rules

/-- One text and no other. -/
def literal [DecidableEq α] : List α → Regex α
  | [] => .empty
  | a :: rest => .seq (.one (· == a)) (literal rest)

/-- The language of one text. -/
def exactly (text : List α) : Language α := {w | w = text}

@[simp] theorem mem_exactly {text w : List α} : w ∈ exactly text ↔ w = text := Iff.rfl

theorem denotes_literal [DecidableEq α] (text : List α) :
    Denotes (literal text) (exactly text) := by
  induction text with
  | nil => exact denotes_empty
  | cons a rest ih =>
    refine ((denotes_one _).seq ih).congr fun w => ?_
    rw [Language.mem_mul, mem_exactly]
    constructor
    · rintro ⟨_, ⟨b, rfl, hb⟩, v, hv, rfl⟩
      rw [beq_iff_eq] at hb
      rw [hb, mem_exactly.mp hv]
      rfl
    · rintro rfl
      exact ⟨[a], ⟨a, rfl, by simp⟩, rest, rfl, rfl⟩

/-- `r?`. -/
def optional (r : Regex α) : Regex α := .rep r 0 (some 1)

theorem Denotes.optional {r : Regex α} {L : Language α} (hr : Denotes r L) :
    Denotes (optional r) (1 + L) := by
  refine (hr.rep 0 (some 1)).congr fun w => ?_
  rw [Language.mem_add, Language.mem_one]
  constructor
  · rintro ⟨words, rfl, ⟨-, hn⟩, hwords⟩
    have hn : words.length ≤ 1 := hn 1 rfl
    rcases Nat.le_one_iff_eq_zero_or_eq_one.mp hn with hzero | hone
    · rw [List.length_eq_zero_iff.mp hzero]
      exact Or.inl rfl
    · obtain ⟨u, rfl⟩ := List.length_eq_one_iff.mp hone
      exact Or.inr (by simpa using hwords u (by simp))
  · rintro (rfl | hw)
    · exact ⟨[], rfl, ⟨Nat.le_refl 0, by simp⟩, by simp⟩
    · exact ⟨[w], by simp, ⟨Nat.zero_le 1, by simp⟩, by simpa using hw⟩

/-- The texts of a class of letters whose length is within the bounds. -/
def run (accepts : α → Bool) (least : ℕ) (most : Option ℕ) : Language α :=
  {w | (∀ a ∈ w, accepts a = true) ∧ Within least most w.length}

theorem denotes_run (accepts : α → Bool) (least : ℕ) (most : Option ℕ) :
    Denotes (.rep (.one accepts) least most) (run accepts least most) := by
  refine ((denotes_one accepts).rep least most).congr fun w => ?_
  constructor
  · rintro ⟨words, rfl, hn, hwords⟩
    have hone : ∀ u ∈ words, u.length = 1 := by
      intro u hu
      obtain ⟨a, rfl, -⟩ := hwords u hu
      rfl
    refine ⟨?_, ?_⟩
    · intro a ha
      obtain ⟨u, hu, hau⟩ := List.mem_flatten.mp ha
      obtain ⟨b, rfl, hb⟩ := hwords u hu
      exact List.mem_singleton.mp hau ▸ hb
    · have hlen : words.flatten.length = words.length := by
        rw [List.length_flatten, List.map_congr_left hone]
        simp [List.map_const']
      rwa [hlen]
  · rintro ⟨hall, hn⟩
    refine ⟨w.map fun a => [a], ?_, by simpa using hn, ?_⟩
    · rw [← List.flatMap_def, List.flatMap_singleton']
    intro u hu
    obtain ⟨a, ha, rfl⟩ := List.mem_map.mp hu
    exact ⟨a, rfl, hall a ha⟩

/-- Words with a separator before each. -/
def parted (separator : α) (L : Language α) (least : ℕ) (most : Option ℕ) : Language α :=
  {w | ∃ parts : List (List α), w = parts.flatMap (separator :: ·) ∧
    Within least most parts.length ∧ ∀ part ∈ parts, part ∈ L}

theorem Denotes.parted [DecidableEq α] {r : Regex α} {L : Language α} (hr : Denotes r L)
    (separator : α) (least : ℕ) (most : Option ℕ) :
    Denotes (.rep (.seq (literal [separator]) r) least most) (parted separator L least most) := by
  refine (((denotes_literal [separator]).seq hr).rep least most).congr fun w => ?_
  constructor
  · rintro ⟨words, rfl, hn, hwords⟩
    have hword : ∀ u ∈ words, separator :: u.tail = u ∧ u.tail ∈ L := by
      intro u hu
      obtain ⟨_, rfl, v, hv, rfl⟩ := Language.mem_mul.mp (hwords u hu)
      exact ⟨rfl, hv⟩
    refine ⟨words.map List.tail, ?_, by simpa using hn, ?_⟩
    · have hsame : words.map ((separator :: ·) ∘ List.tail) = words :=
        (List.map_congr_left fun u hu => (hword u hu).1).trans (List.map_id' words)
      rw [List.flatMap_def, List.map_map, hsame]
    · intro part hpart
      obtain ⟨u, hu, rfl⟩ := List.mem_map.mp hpart
      exact (hword u hu).2
  · rintro ⟨parts, rfl, hn, hparts⟩
    refine ⟨parts.map (separator :: ·), by rw [List.flatMap_def], by simpa using hn, ?_⟩
    intro u hu
    obtain ⟨part, hpart, rfl⟩ := List.mem_map.mp hu
    exact Language.mem_mul.mpr ⟨[separator], rfl, part, hparts part hpart, rfl⟩

end Regex

end BlobYard
