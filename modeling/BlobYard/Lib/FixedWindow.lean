/-
Fixed-window rate limits.

A limiter allows so many requests in a window of a fixed width.  The first request that comes
when the window is over opens the next one.

* `allows`, `next` — the answer to a request and the window after it;
* `next_of_not_allows` — a refusal changes nothing;
* `allows_of_end_le` — once the window is over, a request is allowed;
* `budget`, `budget_next` — what may still be allowed in a window shrinks with every request that
  is allowed in it.
-/
import Mathlib.Data.Nat.Basic

namespace FixedWindow

/-- A window by its first moment, with the requests that were allowed in it. -/
structure Window where
  start : ℕ
  count : ℕ
  deriving DecidableEq

variable (width limit : ℕ)

/-- Whether a request is allowed: no window was opened yet, the last one is over, or it has room
for one more. -/
def allows (now : ℕ) : Option Window → Bool
  | none => true
  | some window => width ≤ now - window.start || window.count < limit

/-- The window after a request. -/
def next (now : ℕ) : Option Window → Window
  | none => ⟨now, 1⟩
  | some window =>
    if now - window.start < width then
      if window.count < limit then { window with count := window.count + 1 } else window
    else ⟨now, 1⟩

/-- The requests that may still be allowed in the window with this first moment. -/
def budget (start : ℕ) : Option Window → ℕ
  | none => limit
  | some window =>
    if window.start = start then limit - window.count
    else if window.start < start then limit
    else 0

variable {width limit} {now start : ℕ} {window : Window}

/-- A refusal changes nothing. -/
theorem next_of_not_allows {current : Option Window} (h : allows width limit now current = false) :
    some (next width limit now current) = current := by
  cases current with
  | none => cases h
  | some window =>
    simp only [allows, Bool.or_eq_false_iff, decide_eq_false_iff_not] at h
    rw [next, if_pos (by omega), if_neg h.2]

/-- Once the window is over, a request is allowed. -/
theorem allows_of_end_le (h : window.start + width ≤ now) :
    allows width limit now (some window) = true := by
  rw [allows, Bool.or_eq_true, decide_eq_true_eq]
  exact Or.inl (by omega)

/-- A window counts at least one request, and no more than a bound on the limits. -/
theorem next_count {bound : ℕ} (hlimit : 0 < limit) (hbound : limit ≤ bound)
    {current : Option Window} (h : ∀ window ∈ current, 1 ≤ window.count ∧ window.count ≤ bound) :
    1 ≤ (next width limit now current).count ∧ (next width limit now current).count ≤ bound := by
  have hone : 1 ≤ bound := Nat.le_trans hlimit hbound
  cases current with
  | none => exact ⟨Nat.le_refl 1, hone⟩
  | some window =>
    obtain ⟨hpos, hle⟩ := h window rfl
    rw [next]
    split
    · split
      · rename_i hroom
        exact ⟨Nat.le_add_left 1 _, Nat.le_trans hroom hbound⟩
      · exact ⟨hpos, hle⟩
    · exact ⟨Nat.le_refl 1, hone⟩

/-- The first moment of a window is that of a request. -/
theorem next_start {current : Option Window} (now : ℕ) :
    (next width limit now current).start = now ∨
      ∃ window, current = some window ∧ (next width limit now current).start = window.start := by
  cases current with
  | none => exact Or.inl rfl
  | some window =>
    rw [next]
    split
    · split
      · exact Or.inr ⟨window, rfl, rfl⟩
      · exact Or.inr ⟨window, rfl, rfl⟩
    · exact Or.inl rfl

/-- Every request allowed in the window costs one of its budget, and nothing adds to it. -/
theorem budget_next (hwidth : 0 < width) (hlimit : 0 < limit) (start : ℕ)
    (current : Option Window) :
    (if allows width limit now current = true ∧ (next width limit now current).start = start then 1
      else 0) + budget limit start (some (next width limit now current)) ≤
      budget limit start current := by
  have hopened : ∀ b : Bool, budget limit start current = limit ∨ start < now →
      (if b = true ∧ (⟨now, 1⟩ : Window).start = start then 1 else 0) +
        budget limit start (some ⟨now, 1⟩) ≤ budget limit start current := by
    intro b hbudget
    have hnew : budget limit start (some ⟨now, 1⟩) =
        if now = start then limit - 1 else if now < start then limit else 0 := rfl
    rw [hnew]
    by_cases hnow : now = start
    · rw [if_pos hnow]
      split <;> omega
    · rw [if_neg (fun h => hnow h.2), if_neg hnow]
      split <;> omega
  cases current with
  | none => exact hopened _ (Or.inl rfl)
  | some window =>
    by_cases hopen : now - window.start < width
    · by_cases hroom : window.count < limit
      -- one more request in the same window
      · have hnext : next width limit now (some window) =
            { window with count := window.count + 1 } := by
          rw [next, if_pos hopen, if_pos hroom]
        have hold : budget limit start (some window) =
            if window.start = start then limit - window.count
            else if window.start < start then limit else 0 := rfl
        have hnew : budget limit start (some { window with count := window.count + 1 }) =
            if window.start = start then limit - (window.count + 1)
            else if window.start < start then limit else 0 := rfl
        rw [hnext, hold, hnew]
        by_cases hstart : window.start = start
        · rw [if_pos hstart, if_pos hstart]
          split <;> omega
        · rw [if_neg (fun h => hstart h.2), if_neg hstart, if_neg hstart, Nat.zero_add]
      · have hrefused : allows width limit now (some window) = false := by
          rw [allows, decide_eq_false hroom, decide_eq_false (Nat.not_le.mpr hopen), Bool.or_false]
        rw [next_of_not_allows hrefused, hrefused, if_neg (by simp), Nat.zero_add]
    -- the new window opens after the old one
    · have hnext : next width limit now (some window) = ⟨now, 1⟩ := by rw [next, if_neg hopen]
      rw [hnext]
      refine hopened _ ?_
      rw [budget]
      split
      · exact Or.inr (by omega)
      · split
        · exact Or.inl rfl
        · exact Or.inr (by omega)

end FixedWindow
