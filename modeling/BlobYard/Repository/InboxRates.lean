/-
Rate limits of public inbox requests.

Every class of requests has a row of its own, with the first moment of its window and the
requests allowed in it.  Times are signed in the database, and the arithmetic on them saturates.

* `consumeInboxRate` — the operation;
* `windowOf` — the row of a key as a window;
* `consumeInboxRate_spec` — on its own key the operation is a fixed-window limiter, and it leaves
  all others alone.
-/
import BlobYard.Contract.Numbers
import BlobYard.Lib.FixedWindow
import BlobYard.Lib.Table

namespace BlobYard

open Outcome

/-! ### Signed arithmetic -/

/-- The nearest signed 64-bit integer. -/
def saturateI64 (value : ℤ) : ℤ := max (-(i64Max : ℤ) - 1) (min value i64Max)

/-- `i64::saturating_add`. -/
def saturatingAddI64 (a b : ℤ) : ℤ := saturateI64 (a + b)

/-- `i64::saturating_sub`. -/
def saturatingSubI64 (a b : ℤ) : ℤ := saturateI64 (a - b)

/-- A value that fits is the nearest one itself. -/
theorem saturateI64_of_mem {value : ℤ} (hlow : -(i64Max : ℤ) - 1 ≤ value)
    (hhigh : value ≤ i64Max) : saturateI64 value = value := by
  rw [saturateI64, min_eq_left hhigh, max_eq_right hlow]

/-- The difference of two times fits. -/
theorem saturatingSubI64_of_le {a b : ℕ} (ha : a ≤ i64Max) (hb : b ≤ i64Max) :
    saturatingSubI64 a b = (a : ℤ) - b :=
  saturateI64_of_mem (by omega) (by omega)

/-- A sum of times is capped at the last one. -/
theorem saturatingAddI64_of_nat (a b : ℕ) :
    saturatingAddI64 a b = ((min (a + b) i64Max : ℕ) : ℤ) := by
  rw [saturatingAddI64, saturateI64, max_eq_right (by omega)]
  omega

/-! ### The limiter -/

/-- `InboxRateResult`. -/
inductive InboxRateResult where
  | allowed
  | limited (retryAfterSeconds : ℕ)
  deriving DecidableEq

/-- A row of `inbox_rate_limits`. -/
structure InboxRateRow where
  rateKey : String
  windowStartedAtMs : ℕ
  requestCount : ℕ
  deriving DecidableEq

/-- The table `inbox_rate_limits`. -/
abbrev InboxRates := Table InboxRateRow.rateKey

/-- The arguments of `consume_inbox_rate`. -/
structure RateCall where
  rateKey : String
  windowMs : ℕ
  limit : ℕ
  nowMs : ℕ
  limit_le : limit ≤ u32Max

namespace InboxRates

/-- `consume_current`. -/
def consumeCurrent (rates : InboxRates) (row : InboxRateRow) (now window : ℕ) (limit : ℕ) :
    Except RepositoryError (InboxRateResult × InboxRates) := do
  if limit ≤ row.requestCount then
    let remainingMs := saturatingSubI64 (saturatingAddI64 row.windowStartedAtMs window) now
    return (.limited ((remainingMs.natAbs + 999) / 1000), rates)
  -- a sum beyond the integers of the database violates the type of its column
  ensure (row.requestCount + 1 ≤ i64Max) .conflict
  return (.allowed, rates.update (fun r => r.rateKey = row.rateKey)
    fun r => { r with requestCount := r.requestCount + 1 })

/-- `reset`. -/
def reset (rates : InboxRates) (rateKey : String) (now : ℕ) : InboxRates :=
  match rates.insert? ⟨rateKey, now, 1⟩ with
  | some rates => rates
  | none => rates.update (fun r => r.rateKey = rateKey)
      fun r => { r with windowStartedAtMs := now, requestCount := 1 }

/-- `inbox_rates::consume`. -/
def consume (rates : InboxRates) (call : RateCall) :
    Except RepositoryError (InboxRateResult × InboxRates) := do
  ensure (call.windowMs ≠ 0 ∧ call.limit ≠ 0) .invalidInput
  validateHash call.rateKey
  toI64 call.nowMs
  toI64 call.windowMs
  match rates.find? call.rateKey with
  | some row =>
    if saturatingSubI64 call.nowMs row.windowStartedAtMs < call.windowMs then
      rates.consumeCurrent row call.nowMs call.windowMs call.limit
    else return (.allowed, rates.reset call.rateKey call.nowMs)
  | none => return (.allowed, rates.reset call.rateKey call.nowMs)

/-- The answer of `consume_inbox_rate`. -/
def answer (rates : InboxRates) (call : RateCall) : Except RepositoryError InboxRateResult :=
  (rates.consume call).map Prod.fst

/-- The table after `consume_inbox_rate`; a failure leaves it as it was. -/
def step (rates : InboxRates) (call : RateCall) : InboxRates :=
  match rates.consume call with
  | .ok (_, rates') => rates'
  | .error _ => rates

/-! ### One call -/

section Consume

variable {rates rates' : InboxRates} {call : RateCall} {result : InboxRateResult}

/-- The arguments that the operation takes. -/
structure Accepted (call : RateCall) : Prop where
  window_pos : 0 < call.windowMs
  limit_pos : 0 < call.limit
  key : ValidChecksum call.rateKey
  now_le : call.nowMs ≤ i64Max
  window_le : call.windowMs ≤ i64Max

/-- The window of a key. -/
def windowOf (rates : InboxRates) (rateKey : String) : Option FixedWindow.Window :=
  (rates.find? rateKey).map fun row => ⟨row.windowStartedAtMs, row.requestCount⟩

/-- Every window was opened at a time that fits, and counts at least one request and no more than
fit. -/
def Fits (rates : InboxRates) : Prop :=
  ∀ row ∈ rates, row.windowStartedAtMs ≤ i64Max ∧ 1 ≤ row.requestCount ∧ row.requestCount ≤ u32Max

theorem windowOf_eq_some {rateKey : String} {window : FixedWindow.Window} :
    rates.windowOf rateKey = some window ↔
      ∃ row ∈ rates, row.rateKey = rateKey ∧ window = ⟨row.windowStartedAtMs, row.requestCount⟩ := by
  rw [windowOf, Option.map_eq_some_iff]
  constructor
  · rintro ⟨row, hrow, rfl⟩
    obtain ⟨hmem, hkey⟩ := Table.find?_eq_some.mp hrow
    exact ⟨row, hmem, hkey, rfl⟩
  · rintro ⟨row, hmem, hkey, rfl⟩
    exact ⟨row, Table.find?_eq_some.mpr ⟨hmem, hkey⟩, rfl⟩

/-- The windows after an update of one row. -/
theorem windowOf_update {rateKey : String} {row : InboxRateRow} {f : InboxRateRow → InboxRateRow}
    {hf : ∀ r, (f r).rateKey = r.rateKey} (hrow : rates.find? rateKey = some row)
    (other : String) :
    windowOf (rates.update (fun r => r.rateKey = rateKey) f hf) other =
      if other = rateKey then some ⟨(f row).windowStartedAtMs, (f row).requestCount⟩
      else rates.windowOf other := by
  rw [windowOf, Table.find?_update, Option.map_map]
  split
  · rename_i heq
    subst heq
    rw [hrow, Option.map_some, Function.comp, if_pos (Table.find?_eq_some.mp hrow).2]
  · rename_i hne
    rw [windowOf]
    refine Option.map_congr fun r hr => ?_
    rw [Function.comp, if_neg]
    rw [(Table.find?_eq_some.mp hr).2]
    exact hne

theorem windowOf_reset (rateKey : String) (now : ℕ) (other : String) :
    (rates.reset rateKey now).windowOf other =
      if other = rateKey then some ⟨now, 1⟩ else rates.windowOf other := by
  unfold reset
  split
  · rename_i rates' hinsert
    rw [windowOf, Table.find?_insert hinsert]
    split
    · rfl
    · rfl
  · rename_i hnone
    obtain ⟨row, hrow, hkey⟩ := Table.exists_of_insert_none hnone
    exact windowOf_update (Table.find?_eq_some.mpr ⟨hrow, hkey⟩) other

/-- The tables whose windows fit, by their windows. -/
theorem fits_iff : rates.Fits ↔ ∀ rateKey, ∀ window ∈ rates.windowOf rateKey,
    window.start ≤ i64Max ∧ 1 ≤ window.count ∧ window.count ≤ u32Max := by
  constructor
  · intro h rateKey window hwindow
    obtain ⟨row, hrow, -, rfl⟩ := windowOf_eq_some.mp hwindow
    exact h row hrow
  · intro h row hrow
    exact h row.rateKey _ (windowOf_eq_some.mpr ⟨row, hrow, rfl, rfl⟩)

/-- A call that is not accepted fails. -/
theorem consume_not_accepted (h : ¬Accepted call) :
    rates.consume call = .error .invalidInput := by
  simp only [consume, validateHash, toI64, bind_eq_error, ensure_eq_error, ensure_eq_ok, and_true,
    exists_const]
  by_cases hpositive : call.windowMs ≠ 0 ∧ call.limit ≠ 0
  case neg => exact Or.inl hpositive
  by_cases hkey : ValidChecksum call.rateKey
  case neg => exact Or.inr ⟨hpositive, Or.inl hkey⟩
  by_cases hnow : call.nowMs ≤ i64Max
  case neg => exact Or.inr ⟨hpositive, Or.inr ⟨hkey, Or.inl hnow⟩⟩
  refine Or.inr ⟨hpositive, Or.inr ⟨hkey, Or.inr ⟨hnow, Or.inl fun hwindow => h ?_⟩⟩⟩
  exact ⟨Nat.pos_of_ne_zero hpositive.1, Nat.pos_of_ne_zero hpositive.2, hkey, hnow, hwindow⟩

/-- The checks of an accepted call pass. -/
theorem consume_accepted (h : Accepted call) :
    rates.consume call = match rates.find? call.rateKey with
      | some row =>
        if saturatingSubI64 call.nowMs row.windowStartedAtMs < call.windowMs then
          rates.consumeCurrent row call.nowMs call.windowMs call.limit
        else .ok (.allowed, rates.reset call.rateKey call.nowMs)
      | none => .ok (.allowed, rates.reset call.rateKey call.nowMs) := by
  have hpositive : call.windowMs ≠ 0 ∧ call.limit ≠ 0 :=
    ⟨Nat.pos_iff_ne_zero.mp h.window_pos, Nat.pos_iff_ne_zero.mp h.limit_pos⟩
  simp only [consume, validateHash, toI64, ensure, if_pos hpositive, if_pos h.key, if_pos h.now_le,
    if_pos h.window_le]
  rfl

/-- A call in an open window. -/
theorem consumeCurrent_spec {row : InboxRateRow} {now window limit : ℕ}
    (hrow : rates.find? row.rateKey = some row) (hcount : row.requestCount ≤ u32Max) :
    ∃ result rates', rates.consumeCurrent row now window limit = .ok (result, rates') ∧
      (result = .allowed ↔ row.requestCount < limit) ∧
      ∀ other, rates'.windowOf other =
        if other = row.rateKey then some ⟨row.windowStartedAtMs,
          if row.requestCount < limit then row.requestCount + 1 else row.requestCount⟩
        else rates.windowOf other := by
  unfold consumeCurrent
  by_cases hfull : limit ≤ row.requestCount
  · rw [if_pos hfull]
    refine ⟨_, rates, rfl, iff_of_false (by simp) (Nat.not_lt.mpr hfull), fun other => ?_⟩
    rw [if_neg (Nat.not_lt.mpr hfull)]
    split
    · rename_i heq
      rw [heq, windowOf, hrow]
      rfl
    · rfl
  · have hroom : row.requestCount < limit := Nat.lt_of_not_le hfull
    have hsum : row.requestCount + 1 ≤ i64Max := by
      have hmax : u32Max + 1 ≤ i64Max := by decide
      omega
    rw [if_neg hfull, ensure, if_pos hsum]
    refine ⟨.allowed, _, rfl, iff_of_true rfl hroom, fun other => ?_⟩
    rw [if_pos hroom]
    exact windowOf_update hrow other

/-- An accepted call asks the limiter of its key, and leaves all others alone. -/
theorem consume_spec (hfits : rates.Fits) (h : Accepted call) :
    ∃ result rates', rates.consume call = .ok (result, rates') ∧
      (result = .allowed ↔ FixedWindow.allows call.windowMs call.limit call.nowMs
        (rates.windowOf call.rateKey) = true) ∧
      ∀ other, rates'.windowOf other =
        if other = call.rateKey then some (FixedWindow.next call.windowMs call.limit call.nowMs
          (rates.windowOf call.rateKey))
        else rates.windowOf other := by
  rw [consume_accepted h]
  cases hfind : rates.find? call.rateKey with
  | none =>
    have hwindow : rates.windowOf call.rateKey = none := by rw [windowOf, hfind]; rfl
    rw [hwindow]
    exact ⟨.allowed, _, rfl, iff_of_true rfl rfl, fun other => windowOf_reset _ _ other⟩
  | some row =>
    obtain ⟨hrow, hkey⟩ := Table.find?_eq_some.mp hfind
    obtain ⟨hstart, -, hcount⟩ := hfits row hrow
    have hwindow : rates.windowOf call.rateKey =
        some ⟨row.windowStartedAtMs, row.requestCount⟩ := by rw [windowOf, hfind]; rfl
    have hopen : saturatingSubI64 call.nowMs row.windowStartedAtMs < call.windowMs ↔
        call.nowMs - row.windowStartedAtMs < call.windowMs := by
      have hpos := h.window_pos
      rw [saturatingSubI64_of_le h.now_le hstart]
      omega
    rw [hwindow]
    show ∃ result rates', (if saturatingSubI64 call.nowMs row.windowStartedAtMs < call.windowMs then
      rates.consumeCurrent row call.nowMs call.windowMs call.limit
        else .ok (.allowed, rates.reset call.rateKey call.nowMs)) = .ok (result, rates') ∧ _
    by_cases hlt : call.nowMs - row.windowStartedAtMs < call.windowMs
    · rw [if_pos (hopen.mpr hlt)]
      rw [← hkey] at hfind
      obtain ⟨result, rates', hresult, hallowed, hothers⟩ :=
        @consumeCurrent_spec _ _ call.nowMs call.windowMs call.limit hfind hcount
      refine ⟨result, rates', hresult, hallowed.trans ?_, fun other => ?_⟩
      · rw [FixedWindow.allows, Bool.or_eq_true, decide_eq_true_eq, decide_eq_true_eq]
        exact (or_iff_right (Nat.not_le.mpr hlt)).symm
      · rw [hothers, hkey, FixedWindow.next, if_pos hlt]
        by_cases hroom : row.requestCount < call.limit
        · rw [if_pos hroom, if_pos hroom]
        · rw [if_neg hroom, if_neg hroom]
    · rw [if_neg (fun h => hlt (hopen.mp h))]
      refine ⟨.allowed, _, rfl, iff_of_true rfl ?_, fun other => ?_⟩
      · rw [FixedWindow.allows, decide_eq_true (Nat.le_of_not_lt hlt), Bool.true_or]
      · rw [windowOf_reset, FixedWindow.next, if_neg hlt]

/-- The delay of a refusal in the window, in whole seconds. -/
def delaySeconds (window : FixedWindow.Window) (windowMs nowMs : ℕ) : ℕ :=
  ((saturatingSubI64 (saturatingAddI64 window.start windowMs) nowMs).natAbs + 999) / 1000

/-- The delay lasts until the window is over or the clock ends. -/
theorem le_delaySeconds (window : FixedWindow.Window) (windowMs : ℕ) {nowMs : ℕ}
    (h : nowMs ≤ i64Max) :
    min (window.start + windowMs) i64Max ≤ nowMs + 1000 * delaySeconds window windowMs nowMs := by
  rw [delaySeconds, saturatingAddI64_of_nat, saturatingSubI64_of_le (min_le_right _ _) h]
  omega

/-- A refusal changes nothing, and its delay is that of the window. -/
theorem consume_limited {seconds : ℕ} (h : rates.consume call = .ok (.limited seconds, rates')) :
    rates' = rates ∧ Accepted call ∧ ∃ window, rates.windowOf call.rateKey = some window ∧
      seconds = delaySeconds window call.windowMs call.nowMs := by
  have haccepted : Accepted call := by
    by_contra hnot
    rw [consume_not_accepted hnot] at h
    cases h
  rw [consume_accepted haccepted] at h
  cases hfind : rates.find? call.rateKey with
  | none =>
    rw [hfind] at h
    cases h
  | some row =>
    rw [hfind] at h
    simp only at h
    split at h
    case isFalse => cases h
    unfold consumeCurrent at h
    split at h
    case isFalse =>
      rw [bind_eq_ok] at h
      obtain ⟨-, -, h⟩ := h
      cases h
    case isTrue =>
      rw [pure_eq_ok, Prod.mk.injEq, InboxRateResult.limited.injEq] at h
      obtain ⟨hseconds, rfl⟩ := h
      have hwindow : rates.windowOf call.rateKey =
          some ⟨row.windowStartedAtMs, row.requestCount⟩ := by rw [windowOf, hfind]; rfl
      exact ⟨rfl, haccepted, ⟨row.windowStartedAtMs, row.requestCount⟩, hwindow, hseconds.symm⟩

end Consume

end InboxRates

end BlobYard
