/-
Two orders on paths.

A path is a list of components, a component a non-empty list of letters without the
separator.  Paths are compared component by component, or as the flat texts that
joining the components with the separator gives.  The orders differ on exactly one
kind of pair: `a/x` comes before `a-b` as a path, and after it as a text when `-` is
a smaller letter than `/`.

* `Inverted sep p q` — the paths `p < q` whose texts compare the other way round;
* `join_lt_join_iff` — below `p < q`, the texts are in the same order unless
  `Inverted sep p q`;
* `pairwise_join_iff` — a sorted list of paths is a sorted list of texts exactly when
  it holds no inverted pair.
-/
import Mathlib.Data.List.Lex
import Mathlib.Order.Lattice

namespace PathOrder

variable {α : Type} {sep : α}

/-- The flat text of a path. -/
abbrev join (sep : α) (p : List (List α)) : List α := [sep].intercalate p

/-- Every component is non-empty and free of the separator. -/
def Proper (sep : α) (p : List (List α)) : Prop := ∀ c ∈ p, c ≠ [] ∧ sep ∉ c

/-- `p` and `q` first differ in a component that `p` leaves for a deeper level, where `q`
goes on with a letter below the separator. -/
def Inverted [LT α] (sep : α) (p q : List (List α)) : Prop :=
  ∃ common c rest d tail rest',
    rest ≠ [] ∧ d < sep ∧ p = common ++ c :: rest ∧ q = common ++ (c ++ d :: tail) :: rest'

/-- Paths in which no component continues another one are not inverted. -/
theorem not_inverted [LT α] {p q : List (List α)}
    (h : ∀ c ∈ p, ∀ c' ∈ q, c <+: c' → c = c') : ¬Inverted sep p q := by
  rintro ⟨common, c, rest, d, tail, rest', -, -, rfl, rfl⟩
  have hsame := h c (by simp) (c ++ d :: tail) (by simp) (List.prefix_append c _)
  exact List.cons_ne_nil d tail (List.self_eq_append_right.mp hsame)

/-! ### Lexicographic comparisons -/

private theorem append_lt_append {β : Type} [LinearOrder β] (l : List β) {a b : List β} :
    l ++ a < l ++ b ↔ a < b := by
  induction l with
  | nil => exact Iff.rfl
  | cons x l ih => simpa [List.cons_append, List.cons_lt_cons_iff] using ih

private theorem lt_append {β : Type} [LinearOrder β] (l : List β) (x : β) (t : List β) :
    l < l ++ x :: t := by
  have h : l ++ [] < l ++ x :: t := (append_lt_append l).mpr (List.nil_lt_cons x t)
  rwa [List.append_nil] at h

/-- A smaller list is a proper prefix, or has the smaller letter at the first difference. -/
private theorem lt_cases {β : Type} [LinearOrder β] {a b : List β} (h : a < b) :
    (∃ x t, b = a ++ x :: t) ∨
      ∃ l x y s t, x < y ∧ a = l ++ x :: s ∧ b = l ++ y :: t := by
  induction a generalizing b with
  | nil =>
    cases b with
    | nil => exact absurd h (lt_irrefl _)
    | cons x t => exact .inl ⟨x, t, rfl⟩
  | cons a as ih =>
    cases b with
    | nil => exact absurd h (List.not_lt_nil _)
    | cons b bs =>
      rcases List.cons_lt_cons_iff.mp h with hab | ⟨rfl, has⟩
      · exact .inr ⟨[], a, b, as, bs, hab, rfl, rfl⟩
      · rcases ih has with ⟨x, t, rfl⟩ | ⟨l, x, y, s, t, hxy, rfl, rfl⟩
        · exact .inl ⟨x, t, rfl⟩
        · exact .inr ⟨a :: l, x, y, s, t, hxy, rfl, rfl⟩

/-! ### Joining -/

theorem join_cons_of_ne_nil {c : List α} {p : List (List α)} (h : p ≠ []) :
    join sep (c :: p) = c ++ sep :: join sep p := by
  rw [join, List.intercalate_cons_of_ne_nil h]
  simp

/-- The components of a split text are free of the separator. -/
theorem not_mem_of_mem_splitOn [DecidableEq α] {l c : List α} (h : c ∈ l.splitOn sep) :
    sep ∉ c := by
  induction l generalizing c with
  | nil =>
    rw [List.splitOn_nil, List.mem_singleton] at h
    simp [h]
  | cons x l ih =>
    rw [List.splitOn_cons_eq_if_modifyHead] at h
    by_cases hx : x = sep
    · rw [if_pos (by simpa using hx)] at h
      rcases List.mem_cons.mp h with rfl | hc
      · simp
      · exact ih hc
    · rw [if_neg (by simpa using hx)] at h
      obtain ⟨d, ds, hsplit⟩ := List.exists_cons_of_ne_nil (List.splitOn_ne_nil sep l)
      rw [hsplit, List.modifyHead_cons] at h
      rcases List.mem_cons.mp h with rfl | hc
      · have hd : sep ∉ d := ih (hsplit ▸ List.mem_cons_self)
        simp [hd, Ne.symm hx]
      · exact ih (hsplit ▸ List.mem_cons_of_mem d hc)

/-- A common beginning of two paths is a common beginning of their texts. -/
theorem join_append_cons (sep : α) (common : List (List α)) :
    ∃ head, ∀ c p, join sep (common ++ c :: p) = head ++ join sep (c :: p) := by
  induction common with
  | nil => exact ⟨[], fun _ _ => rfl⟩
  | cons d common ih =>
    obtain ⟨head, hhead⟩ := ih
    refine ⟨d ++ sep :: head, fun c p => ?_⟩
    rw [List.cons_append, join_cons_of_ne_nil (by simp), hhead]
    simp

/-- The text of a path starts with the path's first component. -/
theorem join_cons_prefix (sep : α) (c : List α) (p : List (List α)) :
    ∃ t, join sep (c :: p) = c ++ t := by
  cases p with
  | nil => exact ⟨[], by simp⟩
  | cons d p => exact ⟨sep :: join sep (d :: p), join_cons_of_ne_nil (by simp)⟩

theorem join_ne_nil {p : List (List α)} (hp : Proper sep p) (hne : p ≠ []) :
    join sep p ≠ [] := by
  cases p with
  | nil => exact absurd rfl hne
  | cons c p =>
    obtain ⟨t, ht⟩ := join_cons_prefix sep c p
    have hc : c ≠ [] := (hp c List.mem_cons_self).1
    rw [ht]
    simp [hc]

theorem Proper.tail {c : List α} {p : List (List α)} (h : Proper sep (c :: p)) : Proper sep p :=
  fun d hd => h d (List.mem_cons_of_mem c hd)

/-! ### The comparison -/

variable [LinearOrder α]

theorem Inverted.cons {p q : List (List α)} (h : Inverted sep p q) (c : List α) :
    Inverted sep (c :: p) (c :: q) := by
  obtain ⟨common, d, rest, x, tail, rest', hrest, hx, rfl, rfl⟩ := h
  exact ⟨c :: common, d, rest, x, tail, rest', hrest, hx, rfl, rfl⟩

/-- An inverted pair is ordered as paths. -/
theorem Inverted.lt {p q : List (List α)} (h : Inverted sep p q) : p < q := by
  obtain ⟨common, c, rest, d, tail, rest', -, -, rfl, rfl⟩ := h
  rw [append_lt_append, List.cons_lt_cons_iff]
  exact .inl (lt_append c d tail)

/-- An inverted pair is ordered the other way round as texts. -/
theorem Inverted.join_lt {p q : List (List α)} (h : Inverted sep p q) :
    join sep q < join sep p := by
  obtain ⟨common, c, rest, d, tail, rest', hrest, hd, rfl, rfl⟩ := h
  obtain ⟨head, hhead⟩ := join_append_cons sep common
  obtain ⟨t, ht⟩ := join_cons_prefix sep (c ++ d :: tail) rest'
  rw [hhead, hhead, append_lt_append, ht, join_cons_of_ne_nil hrest, List.append_assoc,
    append_lt_append, List.cons_append, List.cons_lt_cons_iff]
  exact .inl hd

/-- Ordered paths have ordered texts, unless they are an inverted pair. -/
theorem join_lt_join {p q : List (List α)} (hp : Proper sep p) (hq : Proper sep q)
    (h : p < q) : join sep p < join sep q ∨ Inverted sep p q := by
  induction p generalizing q with
  | nil =>
    cases q with
    | nil => exact absurd h (lt_irrefl _)
    | cons d q =>
      left
      obtain ⟨x, t, hxt⟩ := List.exists_cons_of_ne_nil (join_ne_nil hq (by simp))
      rw [hxt]
      exact List.nil_lt_cons x t
  | cons c p ih =>
    cases q with
    | nil => exact absurd h (List.not_lt_nil _)
    | cons d q =>
      obtain ⟨t, ht⟩ := join_cons_prefix sep d q
      rcases List.cons_lt_cons_iff.mp h with hcd | ⟨rfl, hpq⟩
      · rcases lt_cases hcd with ⟨x, s, rfl⟩ | ⟨l, x, y, s, s', hxy, rfl, rfl⟩
        -- the component goes on in `q`: the separator after it in `p` decides
        · rw [ht]
          by_cases hpnil : p = []
          · subst hpnil
            left
            rw [List.append_assoc, join, List.intercalate_singleton]
            exact lt_append c x (s ++ t)
          · have hsep : sep ≠ x := by
              rintro rfl
              exact (hq _ List.mem_cons_self).2 (by simp)
            rcases lt_or_gt_of_ne hsep with hlt | hgt
            · left
              rw [join_cons_of_ne_nil hpnil, List.append_assoc, append_lt_append,
                List.cons_append, List.cons_lt_cons_iff]
              exact .inl hlt
            · exact .inr ⟨[], c, p, x, s, q, hpnil, hgt, rfl, rfl⟩
        · left
          obtain ⟨t', ht'⟩ := join_cons_prefix sep (l ++ x :: s) p
          rw [ht, ht', List.append_assoc, List.append_assoc, append_lt_append,
            List.cons_append, List.cons_append, List.cons_lt_cons_iff]
          exact .inl hxy
      · have hq' : q ≠ [] := by
          rintro rfl
          exact absurd hpq (List.not_lt_nil _)
        by_cases hpnil : p = []
        · subst hpnil
          left
          rw [join_cons_of_ne_nil hq', join, List.intercalate_singleton]
          exact lt_append c sep _
        · rcases ih hp.tail hq.tail hpq with hlt | hinv
          · left
            rw [join_cons_of_ne_nil hpnil, join_cons_of_ne_nil hq', append_lt_append,
              List.cons_lt_cons_iff]
            exact .inr ⟨rfl, hlt⟩
          · exact .inr (hinv.cons c)

theorem join_lt_join_iff {p q : List (List α)} (hp : Proper sep p) (hq : Proper sep q)
    (h : p < q) : join sep p < join sep q ↔ ¬Inverted sep p q :=
  ⟨fun hlt hinv => absurd hinv.join_lt hlt.not_gt,
    fun hinv => (join_lt_join hp hq h).resolve_right hinv⟩

/-- The elements of a strictly sorted list are related the way the list relates them. -/
private theorem rel_of_lt {β : Type} [LinearOrder β] {R : β → β → Prop} {l : List β}
    (hsorted : l.Pairwise (· < ·)) (h : l.Pairwise R) {a b : β} (ha : a ∈ l) (hb : b ∈ l)
    (hab : a < b) : R a b := by
  induction l with
  | nil => cases ha
  | cons x l ih =>
    obtain ⟨hx, hl⟩ := List.pairwise_cons.mp hsorted
    obtain ⟨hRx, hRl⟩ := List.pairwise_cons.mp h
    rcases List.mem_cons.mp ha with rfl | ha'
    · rcases List.mem_cons.mp hb with rfl | hb
      · exact absurd hab (lt_irrefl _)
      · exact hRx b hb
    · rcases List.mem_cons.mp hb with rfl | hb
      · exact absurd hab (hx a ha').not_gt
      · exact ih hl hRl ha' hb

/-- A sorted list of paths is a sorted list of texts exactly when no pair of it is inverted. -/
theorem pairwise_join_iff {l : List (List (List α))} (hproper : ∀ p ∈ l, Proper sep p)
    (h : l.Pairwise (· < ·)) :
    (l.map (join sep)).Pairwise (· < ·) ↔ ∀ p ∈ l, ∀ q ∈ l, ¬Inverted sep p q := by
  rw [List.pairwise_map]
  constructor
  · intro hjoin p hp q hq hinv
    have hlt : join sep p < join sep q := rel_of_lt h hjoin hp hq hinv.lt
    exact absurd hinv.join_lt hlt.not_gt
  · intro hnone
    refine h.imp_of_mem fun {p q} hp hq hlt => ?_
    exact (join_lt_join_iff (hproper p hp) (hproper q hq) hlt).mpr (hnone p hp q hq)

end PathOrder
