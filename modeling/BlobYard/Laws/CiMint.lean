/-
The rate at which a trust mints sessions.

The exchange counts the stored sessions of the trust that are younger than a minute, and turns
the age of the oldest of them into the seconds to wait.  With a clock that does not run
backwards, the sessions it counts are those of the last minute at any time.

* `NonDecreasing` — the clock of an exchange is not behind the one before;
* `Dated` — the invariant: no session is younger than the clock, assertions are not repeated,
  and no minute holds more sessions than the limit;
* `rateRetry_none_of_retry` — after the seconds to wait, the limit is not reached;
* `mint_law` — the law.
-/
import BlobYard.Laws.CiTrust

namespace BlobYard

open Outcome Repository

namespace CiMint

open CiTrust

/-- The clock does not run backwards from one exchange to the next. -/
def NonDecreasing (l : Ledger) : Request → Prop
  | .mint session _ => l.clock ≤ session.nowMs
  | _ => True

instance (l : Ledger) : DecidablePred (NonDecreasing l)
  | .mint session _ => inferInstanceAs (Decidable (l.clock ≤ session.nowMs))
  | .createTrust .. | .revokeTrust .. | .authenticateSession .. | .authenticateToken ..
  | .credentials _ | .createProject _ | .environment _ => inferInstanceAs (Decidable True)

/-- The session was minted by the trust in the minute before a time. -/
def InWindow (trustId : String) (atMs : ℕ) (m : Minted) : Prop :=
  m.record.trustId = trustId ∧ atMs < m.record.createdAtMs + exchangeRateWindowMs ∧
    m.record.createdAtMs ≤ atMs

instance (trustId : String) (atMs : ℕ) : DecidablePred (InWindow trustId atMs) :=
  fun _ => inferInstanceAs (Decidable (_ ∧ _ ∧ _))

/-- The sessions of a trust that the exchange counts at a time. -/
def Recent (trustId : String) (nowMs : ℕ) (m : Minted) : Prop :=
  m.record.trustId = trustId ∧ nowMs < m.record.createdAtMs + exchangeRateWindowMs

instance (trustId : String) (nowMs : ℕ) : DecidablePred (Recent trustId nowMs) :=
  fun _ => inferInstanceAs (Decidable (_ ∧ _))

/-! ### What the exchange counts -/

variable {l l' : Ledger}

/-- The creation times that the exchange looks at are those of the minted sessions. -/
theorem recentTimes (h : Grounded l) (trustId : String) (nowMs : ℕ) :
    (l.repository.recentSessions trustId nowMs).map (fun x => x.session.createdAtMs) =
      (l.minted.filter (Recent trustId nowMs)).map fun m => m.record.createdAtMs := by
  have hrows : (l.repository.recentSessions trustId nowMs).map
      (fun x => x.session.createdAtMs) =
      ((l.repository.machineSessions.rows.map MachineSessionRow.issued).filter fun x =>
        decide (x.session.trustId = trustId ∧
          nowMs < x.session.createdAtMs + exchangeRateWindowMs)).map
        fun x => x.session.createdAtMs := by
    rw [recentSessions, Table.select, List.filter_map, List.map_map]
    rfl
  rw [hrows, h.sessions, List.filter_map, List.map_map]
  rfl

theorem length_recentSessions (h : Grounded l) (trustId : String) (nowMs : ℕ) :
    (l.repository.recentSessions trustId nowMs).length =
      l.minted.countP (Recent trustId nowMs) := by
  have hlength := congrArg List.length (recentTimes h trustId nowMs)
  rwa [List.length_map, List.length_map, ← List.countP_eq_length_filter] at hlength

/-- An exchange is refused for rate exactly when the limit is reached. -/
theorem rateRetry_eq_none (h : Grounded l) {trustId : String} {nowMs : ℕ} :
    l.repository.rateRetry trustId nowMs = none ↔
      l.minted.countP (Recent trustId nowMs) < exchangeRateLimit := by
  rw [rateRetry, length_recentSessions h]
  split
  · rename_i hlimit
    refine iff_of_false (fun hnone => ?_) (by omega)
    rw [Option.map_eq_none_iff, List.min?_eq_none_iff, List.map_eq_nil_iff,
      ← List.length_eq_zero_iff, length_recentSessions h] at hnone
    rw [hnone] at hlimit
    exact absurd hlimit (by decide)
  · rename_i hlimit
    exact iff_of_true rfl (by omega)

/-- The seconds to wait reach the time at which the oldest counted session leaves the window. -/
theorem oldest_of_rateRetry (h : Grounded l) {trustId : String} {nowMs seconds : ℕ}
    (hretry : l.repository.rateRetry trustId nowMs = some seconds) :
    ∃ m ∈ l.minted, Recent trustId nowMs m ∧
      m.record.createdAtMs + exchangeRateWindowMs ≤ nowMs + 1000 * seconds := by
  rw [rateRetry, recentTimes h] at hretry
  split at hretry
  · obtain ⟨oldest, hmin, rfl⟩ := Option.map_eq_some_iff.mp hretry
    obtain ⟨m, hm, rfl⟩ := List.mem_map.mp (List.min?_mem hmin)
    obtain ⟨hmem, hrecent⟩ := List.mem_filter.mp hm
    refine ⟨m, hmem, of_decide_eq_true hrecent, ?_⟩
    omega
  · cases hretry

/-! ### The invariant -/

/-- No session is younger than the clock, assertions are not repeated, and no minute holds more
sessions of a trust than the limit. -/
structure Dated (l : Ledger) : Prop where
  grounded : Grounded l
  clock : ∀ m ∈ l.minted, m.record.createdAtMs ≤ l.clock
  once : (l.minted.map fun m => m.request.oidcTokenHash).Nodup
  window : ∀ trustId atMs, l.minted.countP (InWindow trustId atMs) ≤ exchangeRateLimit

theorem dated_init : Dated Ledger.init where
  grounded := grounded_init
  clock _ h := absurd h List.not_mem_nil
  once := List.nodup_nil
  window _ _ := Nat.zero_le _

/-- A request that is not an exchange mints nothing. -/
theorem minted_exec {request : Request} (hmint : ∀ session event, request ≠ .mint session event) :
    (l.exec request).minted = l.minted ∧ (l.exec request).clock = l.clock := by
  have hcommit : ∀ outcome, (l.commit outcome).minted = l.minted ∧
      (l.commit outcome).clock = l.clock := by
    intro outcome
    unfold Ledger.commit
    split <;> exact ⟨rfl, rfl⟩
  cases request with
  | mint session event => exact absurd rfl (hmint session event)
  | revokeTrust id workspaceId nowMs event =>
    simp only [Ledger.exec]
    split <;> exact ⟨rfl, rfl⟩
  | environment other => exact ⟨rfl, rfl⟩
  | createTrust trust event => exact hcommit _
  | authenticateSession tokenId nowMs => exact hcommit _
  | authenticateToken secretHash nowMs => exact hcommit _
  | credentials request => exact hcommit _
  | createProject project => exact hcommit _

/-- A session is minted at the time of the clock, below the limit, for a new assertion. -/
theorem Dated.mint (h : Dated l) {session : NewMachineSession} {event : NewAuditEvent}
    {record : LocalMachineSessionRecord} {s' : Repository} (hclock : l.clock ≤ session.nowMs)
    (hrun : l.repository.mintMachineSession session event = .ok (.minted record, s')) :
    Dated { l with
      clock := session.nowMs, repository := s'
      minted := l.minted ++ [{ request := session, record }] } := by
  have hgrounded := h.grounded.mint hrun
  obtain ⟨-, h' | h' | ⟨_, _, _, -, -, h'⟩⟩ |
    ⟨trust, projectId, _, _, _, hfresh, -, hrate, hrecord, -⟩ := mintMachineSession_cases hrun
  · cases h'
  · cases h'
  · cases h'
  obtain rfl : record = machineRecord session trust projectId := by
    injection hrecord
  rw [rateRetry_eq_none h.grounded] at hrate
  refine ⟨{ hgrounded with }, fun m hm => ?_, ?_, fun trustId atMs => ?_⟩
  · rcases List.mem_append.mp hm with hold | hnew
    · exact (h.clock m hold).trans hclock
    · obtain rfl := List.mem_singleton.mp hnew
      exact le_refl _
  · rw [List.map_append, List.nodup_append]
    refine ⟨h.once, List.nodup_singleton _, fun a ha b hb he => ?_⟩
    obtain ⟨m, hm, rfl⟩ := List.mem_map.mp ha
    obtain rfl := List.mem_singleton.mp hb
    obtain ⟨x, hx, hissued⟩ := h.grounded.mem_of_minted hm
    have hhash : x.oidcTokenHash = m.request.oidcTokenHash :=
      congrArg MachineSessionRow.oidcTokenHash hissued
    exact hfresh x hx (hhash.trans he)
  · rw [List.countP_append, List.countP_singleton]
    have hold := h.window trustId atMs
    split
    · rename_i hnew
      obtain ⟨htrust, hbefore, hafter⟩ := of_decide_eq_true hnew
      -- every session in this minute was counted by the exchange
      have hcounted : l.minted.countP (InWindow trustId atMs) ≤
          l.minted.countP (Recent trust.id session.nowMs) := by
        refine List.countP_mono_left fun m _ hm => ?_
        obtain ⟨hmtrust, hmbefore, hmafter⟩ := of_decide_eq_true hm
        refine decide_eq_true ⟨hmtrust.trans htrust.symm, ?_⟩
        have hnow : session.nowMs ≤ atMs := hafter
        omega
      omega
    · omega

theorem Dated.exec (h : Dated l) {request : Request} (hguard : NonDecreasing l request) :
    Dated (l.exec request) := by
  -- only a mint moves the clock and the record of what was minted
  by_cases hmint : ∃ session event, request = .mint session event
  · obtain ⟨session, event, rfl⟩ := hmint
    have hclock : l.clock ≤ session.nowMs := hguard
    have hlater : Dated { l with clock := session.nowMs } :=
      { grounded := { h.grounded with }, clock := fun m hm => (h.clock m hm).trans hclock
        once := h.once, window := h.window }
    simp only [Ledger.exec]
    split
    · rename_i record s' hrun
      exact h.mint hclock hrun
    · rename_i answer s' hnot hrun
      rcases mintMachineSession_cases hrun with ⟨rfl, -⟩ | ⟨_, _, _, _, _, -, -, -, rfl, -⟩
      · exact hlater
      · exact absurd rfl (hnot _)
    · exact hlater
  · obtain ⟨hminted, hclock⟩ := minted_exec (l := l) fun session event he =>
      hmint ⟨session, event, he⟩
    refine ⟨h.grounded.exec request, ?_, ?_, ?_⟩
    · rw [hminted, hclock]
      exact h.clock
    · rw [hminted]
      exact h.once
    · rw [hminted]
      exact h.window

/-! ### After the seconds to wait -/

/-- The sessions the trust has minted. -/
def mintedBy (l : Ledger) (trustId : String) : List Minted :=
  l.minted.filter fun m => m.record.trustId = trustId

theorem countP_recent (trustId : String) (nowMs : ℕ) :
    l.minted.countP (Recent trustId nowMs) =
      (mintedBy l trustId).countP fun m => nowMs < m.record.createdAtMs + exchangeRateWindowMs := by
  rw [mintedBy, List.countP_filter]
  refine List.countP_congr fun m _ => ?_
  rw [Bool.and_eq_true, decide_eq_true_eq, decide_eq_true_eq, decide_eq_true_eq, Recent, and_comm]

/-- With the clock at or behind now, the sessions counted now are those of the last minute. -/
theorem Dated.recent_le (h : Dated l) (trustId : String) {nowMs : ℕ} (hclock : l.clock ≤ nowMs) :
    l.minted.countP (Recent trustId nowMs) ≤ exchangeRateLimit := by
  refine le_trans (List.countP_mono_left fun m hm hrecent => ?_) (h.window trustId nowMs)
  obtain ⟨htrust, hafter⟩ := of_decide_eq_true hrecent
  exact decide_eq_true ⟨htrust, hafter, (h.clock m hm).trans hclock⟩

/-- Once the seconds to wait have passed, and the trust has minted nothing in between, the limit
is not reached. -/
theorem rateRetry_none_of_retry (h : Dated l) (h' : Grounded l') {trustId : String}
    {nowMs laterMs seconds : ℕ} (hclock : l.clock ≤ nowMs)
    (hretry : l.repository.rateRetry trustId nowMs = some seconds)
    (hsame : mintedBy l' trustId = mintedBy l trustId) (hlater : nowMs + 1000 * seconds ≤ laterMs) :
    l'.repository.rateRetry trustId laterMs = none := by
  rw [rateRetry_eq_none h', countP_recent, hsame, ← countP_recent]
  obtain ⟨oldest, hmem, hrecent, hready⟩ := oldest_of_rateRetry h.grounded hretry
  -- the oldest session is counted at first and not any more
  have hgone : ((l.minted.filter (Recent trustId nowMs)).filter (Recent trustId laterMs)).length <
      (l.minted.filter (Recent trustId nowMs)).length := by
    rw [List.length_filter_lt_length_iff_exists]
    refine ⟨oldest, List.mem_filter.mpr ⟨hmem, decide_eq_true hrecent⟩, fun hstill => ?_⟩
    have hin := (of_decide_eq_true hstill).2
    omega
  have hsub : l.minted.filter (Recent trustId laterMs) =
      (l.minted.filter (Recent trustId nowMs)).filter (Recent trustId laterMs) := by
    rw [List.filter_filter]
    refine List.filter_congr fun m _ => ?_
    rw [Bool.eq_iff_iff, Bool.and_eq_true, decide_eq_true_eq, decide_eq_true_eq]
    refine ⟨fun hin => ⟨hin, hin.1, ?_⟩, And.left⟩
    have hin := hin.2
    omega
  have hlimit := h.recent_le trustId hclock
  rw [List.countP_eq_length_filter] at hlimit ⊢
  rw [hsub]
  omega

/-! ### The law -/

/-- One session for each assertion, at most twenty a minute for each trust, no trace of a
rejected exchange, and a promise with every delay. -/
structure Paced (l : Ledger) : Prop where
  once : (l.minted.map fun m => m.request.oidcTokenHash).Nodup
  window : ∀ trustId atMs, l.minted.countP (InWindow trustId atMs) ≤ 20
  rejected : ∀ session event,
    (∀ record s', l.repository.mintMachineSession session event ≠ .ok (.minted record, s')) →
    (l.exec (.mint session event)).repository = l.repository ∧
      (l.exec (.mint session event)).minted = l.minted
  retry : ∀ session event seconds s' trust projectId, l.clock ≤ session.nowMs →
    l.repository.mintMachineSession session event = .ok (.rateLimited seconds, s') →
    l.repository.matchingTrust session = .ok (some (trust, projectId)) →
    ∀ l', Steps system NonDecreasing (l.exec (.mint session event)) l' →
      mintedBy l' trust.id = mintedBy l trust.id →
      ∀ session' event' trust' projectId', session.nowMs + 1000 * seconds ≤ session'.nowMs →
        l'.repository.matchingTrust session' = .ok (some (trust', projectId')) →
        trust'.id = trust.id →
        ∀ seconds' s'', l'.repository.mintMachineSession session' event' ≠
          .ok (.rateLimited seconds', s'')

/-- An answer for rate names the delay of the matching trust. -/
theorem rateLimited_of_mint {s s' : Repository} {session : NewMachineSession}
    {event : NewAuditEvent} {seconds : ℕ} {trust : LocalCiTrustRecord} {projectId : String}
    (h : s.mintMachineSession session event = .ok (.rateLimited seconds, s'))
    (hmatch : s.matchingTrust session = .ok (some (trust, projectId))) :
    s.rateRetry trust.id session.nowMs = some seconds := by
  obtain ⟨-, h' | h' | ⟨found, _, _, hfound, hretry, h'⟩⟩ | ⟨_, _, _, _, _, -, -, -, h', -⟩ :=
    mintMachineSession_cases h
  · cases h'
  · cases h'
  · obtain rfl : seconds = _ := by
      injection h'
    rw [hmatch, Except.ok.injEq, Option.some.injEq, Prod.mk.injEq] at hfound
    rw [hfound.1]
    exact hretry
  · cases h'

theorem Dated.paced (h : Dated l) : Paced l where
  once := h.once
  window := h.window
  rejected session event hnot := by
    simp only [Ledger.exec]
    split
    · rename_i record s' hrun
      exact absurd hrun (hnot record s')
    · rename_i answer s' hanswer hrun
      rcases mintMachineSession_cases hrun with ⟨rfl, -⟩ | ⟨_, _, _, _, _, -, -, -, rfl, -⟩
      · exact ⟨rfl, rfl⟩
      · exact absurd rfl (hanswer _)
    · exact ⟨rfl, rfl⟩
  retry session event seconds s' trust projectId hclock hrun hmatch l' hsteps hsame session' event'
      trust' projectId' hlater hmatch' hid seconds' s'' hrun' := by
    have hl' : Dated l' := hsteps.preserves (fun _ _ _ hl hguard hs => hs ▸ hl.exec hguard)
      (h.exec (show NonDecreasing l (.mint session event) from hclock))
    have hnone := rateRetry_none_of_retry h hl'.grounded hclock (rateLimited_of_mint hrun hmatch)
      hsame hlater
    have hsome := rateLimited_of_mint hrun' hmatch'
    rw [hid, hnone] at hsome
    cases hsome

/-- With a clock that does not run backwards, every reachable state is paced. -/
theorem mint_law (h : Run system NonDecreasing l) : Paced l := by
  have hdated : Dated l := h.inv dated_init fun _ _ _ hl hguard hs => by
    obtain rfl := hs
    exact hl.exec hguard
  exact hdated.paced

/-! ### A busy minute -/

/-- A number in two digits, behind something. -/
def numbered (start : List Char) (number : ℕ) : String :=
  String.ofList (start ++ [Char.ofNat (48 + number / 10), Char.ofNat (48 + number % 10)])

def numberedHash (number : ℕ) : String := numbered (List.replicate 62 '0') number

/-- An exchange of an assertion, for a session with a number and a secret of its own. -/
def exchange (assertion number nowMs : ℕ) : Request :=
  .mint { releaseSession (numbered "machine_".toList number) '0' nowMs with
      oidcTokenHash := numberedHash assertion, secretHash := numberedHash number }
    (ciEvent (numberedHash number) "ci.token_minted" "project" "p" nowMs)

/-- After the first release nineteen more within two seconds, and the assertion of one of them a
second time. -/
def releases : List Request :=
  release ++ (List.range' 2 19).map (fun number => exchange number number (2000 + 100 * number)) ++
    [exchange 7 21 4100]

/-- One more assertion, at once and a minute after the first release. -/
def latecomer : List Request := [exchange 22 22 4200, exchange 22 23 62000]

/-- The ledger after the releases, and after the latecomer. -/
def busy : Ledger := releases.foldl Ledger.exec Ledger.init

def calm : Ledger := latecomer.foldl Ledger.exec busy

/-- The repeated assertion mints nothing.  Neither does the twenty-first one within the minute,
which is asked to wait for 58 seconds and then is exchanged. -/
theorem paced_releases :
    busy.repository.rateRetry "trust" 4200 = some 58 ∧
      calm.minted.map (fun m => m.record.id) =
        "machine_1" :: (List.range' 2 19 ++ [23]).map (numbered "machine_".toList) ∧
      Paced calm := by
  -- the run is evaluated once
  have hrun : Run.Allowed Ledger.exec NonDecreasing Ledger.init (releases ++ latecomer) ∧
      busy.repository.rateRetry "trust" 4200 = some 58 ∧
        calm.minted.map (fun m => m.record.id) =
          "machine_1" :: (List.range' 2 19 ++ [23]).map (numbered "machine_".toList) := by
    decide +kernel
  obtain ⟨hallowed, hbusy, hcalm⟩ := hrun
  have hlast : (releases ++ latecomer).foldl Ledger.exec Ledger.init = calm := List.foldl_append
  exact ⟨hbusy, hcalm, hlast ▸ mint_law (Run.ofList (fun _ _ => rfl) Run.init hallowed)⟩

end CiMint

end BlobYard
