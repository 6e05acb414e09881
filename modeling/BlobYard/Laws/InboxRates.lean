/-
Rate limits over whole sequences of requests.

* `allowedIn_le` — no window allows more than the limit;
* `outcomes_filter` — the requests of other keys change nothing;
* `retry_spec` — when the delay of a refusal is over, the next request is allowed;
* `inboxRates_law` — all of it, for every sequence of requests;
* `endless_window` — a window that would end after the last time of the clock does not end.
-/
import BlobYard.Repository.InboxRates

namespace BlobYard

namespace InboxRates

open FixedWindow

/-! ### Sequences of requests -/

/-- The table after the calls. -/
def after (rates : InboxRates) (calls : List RateCall) : InboxRates := calls.foldl step rates

/-- The answers to the calls with the key. -/
def outcomes (rateKey : String) :
    InboxRates → List RateCall → List (Except RepositoryError InboxRateResult)
  | _, [] => []
  | rates, call :: calls =>
    if call.rateKey = rateKey then rates.answer call :: outcomes rateKey (rates.step call) calls
    else outcomes rateKey (rates.step call) calls

/-- The call is allowed in the window of the key with this first moment. -/
def AllowedIn (rateKey : String) (start : ℕ) (rates : InboxRates) (call : RateCall) : Prop :=
  call.rateKey = rateKey ∧ rates.answer call = .ok .allowed ∧
    ((rates.step call).windowOf rateKey).map Window.start = some start

instance (rateKey : String) (start : ℕ) (rates : InboxRates) (call : RateCall) :
    Decidable (AllowedIn rateKey start rates call) :=
  inferInstanceAs (Decidable (_ ∧ _ ∧ _))

/-- The number of calls that are allowed in the window of the key with this first moment. -/
def allowedIn (rateKey : String) (start : ℕ) : InboxRates → List RateCall → ℕ
  | _, [] => 0
  | rates, call :: calls =>
    (if AllowedIn rateKey start rates call then 1 else 0) +
      allowedIn rateKey start (rates.step call) calls

/-- All calls with a key have its window and its limit. -/
def Fixed (window limit : String → ℕ) (calls : List RateCall) : Prop :=
  ∀ call ∈ calls, call.windowMs = window call.rateKey ∧ call.limit = limit call.rateKey

/-- The window of the call ends before the clock does. -/
def EndsInTime (rates : InboxRates) (call : RateCall) : Prop :=
  ∀ window ∈ rates.windowOf call.rateKey, window.start + call.windowMs ≤ i64Max

/-- When the delay of a refusal is over, and no call with the key was allowed in the meantime, the
next one is. -/
def Retries (ends : InboxRates → RateCall → Prop) (calls : List RateCall) : Prop :=
  ∀ before call between later rest seconds,
    calls = before ++ call :: (between ++ later :: rest) →
      (after ∅ before).answer call = .ok (.limited seconds) → ends (after ∅ before) call →
        .ok .allowed ∉ outcomes call.rateKey (after ∅ (before ++ [call])) between →
          later.rateKey = call.rateKey → Accepted later →
            call.nowMs + 1000 * seconds ≤ later.nowMs →
              (after ∅ (before ++ call :: between)).answer later = .ok .allowed

variable {rates : InboxRates} {call : RateCall} {calls : List RateCall} {rateKey : String}

/-! ### One call -/

theorem step_not_accepted (h : ¬Accepted call) :
    rates.step call = rates ∧ rates.answer call = .error .invalidInput := by
  rw [step, answer, consume_not_accepted h]
  exact ⟨rfl, rfl⟩

theorem step_accepted (hfits : rates.Fits) (h : Accepted call) :
    (∃ result, rates.answer call = .ok result) ∧
      (rates.answer call = .ok .allowed ↔
        allows call.windowMs call.limit call.nowMs (rates.windowOf call.rateKey) = true) ∧
      ∀ other, (rates.step call).windowOf other =
        if other = call.rateKey then
          some (next call.windowMs call.limit call.nowMs (rates.windowOf call.rateKey))
        else rates.windowOf other := by
  obtain ⟨result, rates', hconsume, hallowed, hwindows⟩ := consume_spec hfits h
  rw [step, answer, hconsume]
  refine ⟨⟨result, rfl⟩, ?_, hwindows⟩
  rw [← hallowed]
  show Except.ok result = .ok .allowed ↔ _
  rw [Except.ok.injEq]

/-- A call leaves the windows of the other keys alone. -/
theorem windowOf_step_of_ne (hfits : rates.Fits) (hne : rateKey ≠ call.rateKey) :
    (rates.step call).windowOf rateKey = rates.windowOf rateKey := by
  by_cases h : Accepted call
  · rw [(step_accepted hfits h).2.2, if_neg hne]
  · rw [(step_not_accepted h).1]

theorem fits_empty : (∅ : InboxRates).Fits :=
  fun _ hrow => absurd hrow Table.not_mem_empty

theorem fits_step (hfits : rates.Fits) : (rates.step call).Fits := by
  by_cases h : Accepted call
  · obtain ⟨-, -, hwindows⟩ := step_accepted hfits h
    rw [fits_iff] at hfits ⊢
    intro other window hwindow
    rw [hwindows] at hwindow
    split at hwindow
    case isFalse => exact hfits other window hwindow
    case isTrue heq =>
      obtain rfl := Option.mem_some_iff.mp hwindow
      have hold := hfits call.rateKey
      refine ⟨?_, next_count h.limit_pos call.limit_le fun old hmem => (hold old hmem).2⟩
      have hstarts : (next call.windowMs call.limit call.nowMs
          (rates.windowOf call.rateKey)).start = call.nowMs ∨
          ∃ old, rates.windowOf call.rateKey = some old ∧
            (next call.windowMs call.limit call.nowMs
              (rates.windowOf call.rateKey)).start = old.start := next_start call.nowMs
      rcases hstarts with hstart | ⟨old, hmem, hstart⟩
      · rw [hstart]
        exact h.now_le
      · rw [hstart]
        exact (hold old hmem).1
  · rw [(step_not_accepted h).1]
    exact hfits

theorem fits_after (hfits : rates.Fits) : (after rates calls).Fits := by
  induction calls generalizing rates with
  | nil => exact hfits
  | cons call calls ih => exact ih (fits_step hfits)

/-! ### The limit -/

/-- What is allowed in a window costs its budget. -/
theorem allowedIn_le_budget {window limit : String → ℕ} (hfits : rates.Fits)
    (hfixed : Fixed window limit calls) (rateKey : String) (start : ℕ) :
    allowedIn rateKey start rates calls ≤
      budget (limit rateKey) start (rates.windowOf rateKey) := by
  induction calls generalizing rates with
  | nil => exact Nat.zero_le _
  | cons call calls ih =>
    have hfitted : (rates.step call).Fits := fits_step hfits
    have hrest := ih hfitted fun c hc => hfixed c (List.mem_cons_of_mem call hc)
    rw [allowedIn]
    by_cases hkey : call.rateKey = rateKey
    · by_cases haccepted : Accepted call
      · obtain ⟨-, hallowed, hwindows⟩ := step_accepted hfits haccepted
        have hlimit : call.limit = limit rateKey := hkey ▸ (hfixed call List.mem_cons_self).2
        have hafter := hwindows rateKey
        rw [if_pos hkey.symm, hkey, hlimit] at hafter
        have hiff : AllowedIn rateKey start rates call ↔
            allows call.windowMs (limit rateKey) call.nowMs (rates.windowOf rateKey) = true ∧
              (next call.windowMs (limit rateKey) call.nowMs (rates.windowOf rateKey)).start =
                start := by
          rw [AllowedIn, hallowed, hafter, hkey, hlimit, Option.map_some, Option.some.injEq]
          exact and_iff_right rfl
        have hcost := @budget_next call.windowMs _ call.nowMs haccepted.window_pos
          (hlimit ▸ haccepted.limit_pos) start (rates.windowOf rateKey)
        rw [← hafter] at hcost
        rw [if_congr hiff rfl rfl]
        exact (Nat.add_le_add_left hrest _).trans hcost
      · obtain ⟨hstep, hanswer⟩ : rates.step call = rates ∧
            rates.answer call = .error .invalidInput := step_not_accepted haccepted
        have hnot : ¬AllowedIn rateKey start rates call := by
          rintro ⟨-, hallowed, -⟩
          rw [hanswer] at hallowed
          cases hallowed
        rw [hstep] at hrest ⊢
        rwa [if_neg hnot, Nat.zero_add]
    · rw [windowOf_step_of_ne hfits (Ne.symm hkey)] at hrest
      rwa [if_neg fun h => hkey h.1, Nat.zero_add]

/-- No window of a key allows more than its limit. -/
theorem allowedIn_le {window limit : String → ℕ} (hfixed : Fixed window limit calls)
    (rateKey : String) (start : ℕ) : allowedIn rateKey start ∅ calls ≤ limit rateKey :=
  allowedIn_le_budget fits_empty hfixed rateKey start

/-! ### The delay -/

/-- A refusal changes nothing and tells the delay of the window. -/
theorem limited_spec {seconds : ℕ} (h : rates.answer call = .ok (.limited seconds)) :
    rates.step call = rates ∧ Accepted call ∧ ∃ window, rates.windowOf call.rateKey = some window ∧
      seconds = delaySeconds window call.windowMs call.nowMs := by
  rw [answer] at h
  cases hconsume : rates.consume call with
  | error e =>
    rw [hconsume] at h
    cases h
  | ok outcome =>
    obtain ⟨result, rates'⟩ := outcome
    rw [hconsume] at h
    obtain rfl : result = .limited seconds := Except.ok.inj h
    obtain ⟨hsame, hspec⟩ := consume_limited hconsume
    exact ⟨by rw [step, hconsume]; exact hsame, hspec⟩

/-- Calls that are not allowed leave the window of their key as it is. -/
theorem windowOf_after (hfits : rates.Fits)
    (h : .ok .allowed ∉ outcomes rateKey rates calls) :
    (after rates calls).windowOf rateKey = rates.windowOf rateKey := by
  induction calls generalizing rates with
  | nil => rfl
  | cons call calls ih =>
    rw [outcomes] at h
    by_cases hkey : call.rateKey = rateKey
    · rw [if_pos hkey, List.mem_cons, not_or] at h
      refine (ih (fits_step hfits) h.2).trans ?_
      by_cases haccepted : Accepted call
      · obtain ⟨-, hallowed, hwindows⟩ := step_accepted hfits haccepted
        have hrefused := Bool.eq_false_of_not_eq_true fun hyes => h.1 (hallowed.mpr hyes).symm
        rw [hwindows, if_pos hkey.symm, next_of_not_allows hrefused, hkey]
      · rw [(step_not_accepted haccepted).1]
    · rw [if_neg hkey] at h
      exact (ih (fits_step hfits) h).trans (windowOf_step_of_ne hfits (Ne.symm hkey))

theorem after_append (before calls : List RateCall) :
    after rates (before ++ calls) = after (after rates before) calls :=
  List.foldl_append

/-- When the delay of a refusal is over, the next call is allowed. -/
theorem retry_spec {window limit : String → ℕ} (hfixed : Fixed window limit calls) :
    Retries EndsInTime calls := by
  rintro before call between later rest seconds rfl hlimited hends hnone hkey haccepted hlater
  have hfits : (after ∅ before).Fits := fits_after fits_empty
  obtain ⟨hsame, hcall, w, hw, rfl⟩ := limited_spec hlimited
  have hend := le_delaySeconds w call.windowMs hcall.now_le
  rw [min_eq_left (hends w hw)] at hend
  have hstep : after ∅ (before ++ [call]) = after ∅ before := by
    rw [after_append]
    exact hsame
  rw [hstep] at hnone
  have hstate : after ∅ (before ++ call :: between) = after (after ∅ before) between := by
    rw [after_append]
    show after ((after ∅ before).step call) between = _
    rw [hsame]
  have hwidth : later.windowMs = call.windowMs := by
    rw [(hfixed later (by simp)).1, (hfixed call (by simp)).1, hkey]
  rw [hstate]
  refine (step_accepted (fits_after hfits) haccepted).2.1.mpr ?_
  rw [hkey, windowOf_after hfits hnone, hw]
  exact allows_of_end_le (by omega)

/-! ### Other keys -/

/-- Only the window of its key counts for a call. -/
theorem answer_congr {rates' : InboxRates} (hfits : rates.Fits) (hfits' : rates'.Fits)
    (hsame : rates.windowOf call.rateKey = rates'.windowOf call.rateKey) :
    rates.answer call = rates'.answer call := by
  by_cases haccepted : Accepted call
  · obtain ⟨⟨result, hresult⟩, hallowed, -⟩ := step_accepted hfits haccepted
    obtain ⟨⟨result', hresult'⟩, hallowed', -⟩ := step_accepted hfits' haccepted
    rw [hsame, ← hallowed', hresult, hresult', Except.ok.injEq, Except.ok.injEq] at hallowed
    rw [hresult, hresult', Except.ok.injEq]
    cases result with
    | allowed => exact (hallowed.mp rfl).symm
    | limited seconds =>
      cases result' with
      | allowed => exact hallowed.mpr rfl
      | limited seconds' =>
        obtain ⟨-, -, w, hw, rfl⟩ := limited_spec hresult
        obtain ⟨-, -, w', hw', rfl⟩ := limited_spec hresult'
        rw [hsame, hw', Option.some.injEq] at hw
        rw [hw]
  · rw [(step_not_accepted haccepted).2, (step_not_accepted haccepted).2]

/-- After a call the windows of a key are the same if they were before. -/
theorem windowOf_step_congr {rates' : InboxRates} (hfits : rates.Fits) (hfits' : rates'.Fits)
    (hsame : rates.windowOf call.rateKey = rates'.windowOf call.rateKey) :
    (rates.step call).windowOf call.rateKey = (rates'.step call).windowOf call.rateKey := by
  by_cases haccepted : Accepted call
  · rw [(step_accepted hfits haccepted).2.2, (step_accepted hfits' haccepted).2.2, hsame]
  · rw [(step_not_accepted haccepted).1, (step_not_accepted haccepted).1, hsame]

theorem outcomes_congr {rates' : InboxRates} (hfits : rates.Fits) (hfits' : rates'.Fits)
    (hsame : rates.windowOf rateKey = rates'.windowOf rateKey) :
    outcomes rateKey rates calls =
      outcomes rateKey rates' (calls.filter fun c => c.rateKey = rateKey) := by
  induction calls generalizing rates rates' with
  | nil => rfl
  | cons call calls ih =>
    by_cases hkey : call.rateKey = rateKey
    · subst hkey
      rw [List.filter_cons, if_pos (decide_eq_true rfl), outcomes, outcomes, if_pos rfl, if_pos rfl,
        answer_congr hfits hfits' hsame,
        ih (fits_step hfits) (fits_step hfits') (windowOf_step_congr hfits hfits' hsame)]
    · rw [List.filter_cons, if_neg (by simpa using hkey), outcomes, if_neg hkey]
      refine ih (fits_step hfits) hfits' ?_
      rw [windowOf_step_of_ne hfits (Ne.symm hkey), hsame]

/-- The calls with other keys change no outcome. -/
theorem outcomes_filter (rateKey : String) (calls : List RateCall) :
    outcomes rateKey ∅ calls = outcomes rateKey ∅ (calls.filter fun c => c.rateKey = rateKey) :=
  outcomes_congr fits_empty fits_empty rfl

/-! ### The law -/

/-- What a rate limit does over a sequence of calls. -/
structure RateLaw (limit : String → ℕ) (calls : List RateCall) : Prop where
  /-- No window of a key allows more than its limit. -/
  bounded : ∀ rateKey start, allowedIn rateKey start ∅ calls ≤ limit rateKey
  /-- A refusal says when to come back. -/
  retries : Retries EndsInTime calls
  /-- A refusal changes nothing. -/
  refused : ∀ before call rest seconds, calls = before ++ call :: rest →
    (after ∅ before).answer call = .ok (.limited seconds) →
      after ∅ (before ++ [call]) = after ∅ before
  /-- The calls with other keys change no outcome. -/
  independent : ∀ rateKey, outcomes rateKey ∅ calls =
    outcomes rateKey ∅ (calls.filter fun c => c.rateKey = rateKey)
  /-- No accepted call fails. -/
  total : ∀ before call rest, calls = before ++ call :: rest → Accepted call →
    ∃ result, (after ∅ before).answer call = .ok result
  /-- The stored times and numbers fit. -/
  fits : (after ∅ calls).Fits

/-- The law holds for every sequence of calls in which every key has a window and a limit, whatever
the times of the calls. -/
theorem inboxRates_law (window limit : String → ℕ) (calls : List RateCall)
    (h : Fixed window limit calls) : RateLaw limit calls where
  bounded := allowedIn_le h
  retries := retry_spec h
  refused := by
    rintro before call rest seconds - hlimited
    rw [after_append]
    exact (limited_spec hlimited).1
  independent rateKey := outcomes_filter rateKey calls
  total := by
    rintro before call rest - haccepted
    exact (step_accepted (fits_after fits_empty) haccepted).1
  fits := fits_after fits_empty

/-- A call of one class, five seconds wide and with room for one request. -/
def oneInFiveSeconds (nowMs : ℕ) : RateCall where
  rateKey := repeatedDigit 'a'
  windowMs := 5000
  limit := 1
  nowMs := nowMs
  limit_le := by decide

theorem fixed_oneInFiveSeconds (times : List ℕ) :
    Fixed (fun _ => 5000) (fun _ => 1) (times.map oneInFiveSeconds) := by
  intro call hcall
  obtain ⟨time, -, rfl⟩ := List.mem_map.mp hcall
  exact ⟨rfl, rfl⟩

/-- Of three requests the second one comes too early. -/
theorem threeRequests :
    RateLaw (fun _ => 1) ([0, 1000, 5000].map oneInFiveSeconds) ∧
      outcomes (repeatedDigit 'a') ∅ ([0, 1000, 5000].map oneInFiveSeconds) =
        [.ok .allowed, .ok (.limited 4), .ok .allowed] :=
  ⟨inboxRates_law (fun _ => 5000) (fun _ => 1) _ (fixed_oneInFiveSeconds _), by decide +kernel⟩

/-! ### The end of the clock -/

/-- A window that would end after the last time of the clock does not end: the delay of its refusal
is too short. -/
theorem endless_window :
    ¬∀ (window limit : String → ℕ) (calls : List RateCall), Fixed window limit calls →
      calls.Pairwise (fun a b => a.nowMs ≤ b.nowMs) → Retries (fun _ _ => True) calls := by
  intro h
  have hfixed := fixed_oneInFiveSeconds [i64Max - 1000, i64Max - 1000, i64Max]
  have hretries := h _ _ _ hfixed (by decide)
  have hallowed := hretries [oneInFiveSeconds (i64Max - 1000)] (oneInFiveSeconds (i64Max - 1000)) []
    (oneInFiveSeconds i64Max) [] 1 rfl (by decide +kernel) trivial List.not_mem_nil rfl
    ⟨by decide, by decide, by decide +kernel, by decide, by decide⟩ (by decide)
  exact absurd hallowed (by decide +kernel)

end InboxRates

end BlobYard
