/-
What calls may do.

A `Contract` leaves open what a call answers and what it changes: it says which answers and
changes there can be.  A program is then looked at over all its executions.

* `Contract`, `Machine.contract`, `Machine.faulty` — contracts, and those of a machine whose calls
  succeed or may fail;
* `Runs`, `Stops` — the executions to the end, and the states in which one may stop;
* `Meets` — all states keep an invariant, and the end is as promised; its rules;
* `Procedure.Meets` — the same, with a promise for the results and one for the errors;
* `Contract.Refines` — the calls of one contract are those of another, seen through a function.
-/
import BlobYard.Lib.Program

/-- `k c s r t` when the call `c` in the state `s` may answer `r` and leave `t` behind. -/
def Contract (C : Type) (R : C → Type) (σ : Type) := (c : C) → σ → R c → σ → Prop

variable {C : Type} {R : C → Type} {σ τ α β ε : Type}

/-- Every call is performed. -/
def Machine.contract (m : Machine C R σ) : Contract C R σ := fun c s r t => m.perform c s = (r, t)

/-- A call is performed, or it fails without an effect. -/
def Machine.faulty (m : Machine C R σ) : Contract C R σ := fun c s r t =>
  m.perform c s = (r, t) ∨ r = m.failed c ∧ t = s

namespace Program

/-- An execution to the end, with the result and the last state. -/
inductive Runs (k : Contract C R σ) : Program C R α → σ → α → σ → Prop
  | done {a : α} {s : σ} : Runs k (done a) s a s
  | step {c : C} {next : R c → Program C R α} {s t u : σ} {r : R c} {a : α} :
    k c s r t → Runs k (next r) t a u → Runs k (step c next) s a u

/-- A state in which an execution may stop. -/
inductive Stops (k : Contract C R σ) : Program C R α → σ → σ → Prop
  | here {p : Program C R α} {s : σ} : Stops k p s s
  | step {c : C} {next : R c → Program C R α} {s t u : σ} {r : R c} :
    k c s r t → Stops k (next r) t u → Stops k (step c next) s u

/-- All states satisfy `I`, from the first to the last; the result and the last state satisfy
`P`. -/
def Meets (k : Contract C R σ) (I : σ → Prop) : Program C R α → (α → σ → Prop) → σ → Prop
  | done a, P, s => I s ∧ P a s
  | step c next, P, s => I s ∧ ∀ r t, k c s r t → Meets k I (next r) P t

variable {k : Contract C R σ} {I : σ → Prop} {p : Program C R α} {P Q : α → σ → Prop} {s : σ}

theorem Meets.start (h : p.Meets k I P s) : I s := by
  cases p with
  | done a => exact h.1
  | step c next => exact h.1

/-- The sequence rule. -/
theorem Meets.bind {f : α → Program C R β} {Q : β → σ → Prop} (h : p.Meets k I P s)
    (hf : ∀ a t, I t → P a t → (f a).Meets k I Q t) : (p.bind f).Meets k I Q s := by
  induction p generalizing s with
  | done a => exact hf a s h.1 h.2
  | step c next ih =>
    refine ⟨h.1, fun r t hcall => ?_⟩
    exact ih r (h.2 r t hcall)

theorem Meets.mono (h : p.Meets k I P s) (hP : ∀ a t, I t → P a t → Q a t) :
    p.Meets k I Q s := by
  induction p generalizing s with
  | done a => exact ⟨h.1, hP a s h.1 h.2⟩
  | step c next ih =>
    refine ⟨h.1, fun r t hcall => ?_⟩
    exact ih r (h.2 r t hcall)

theorem Meets.weaken {I' : σ → Prop} (h : p.Meets k I P s) (hI : ∀ t, I t → I' t) :
    p.Meets k I' P s := by
  induction p generalizing s with
  | done a => exact ⟨hI s h.1, h.2⟩
  | step c next ih =>
    refine ⟨hI s h.1, fun r t hcall => ?_⟩
    exact ih r (h.2 r t hcall)

/-- The rule for one call. -/
theorem meets_call {c : C} {P : R c → σ → Prop} (hs : I s)
    (h : ∀ r t, k c s r t → I t ∧ P r t) : (call c).Meets k I P s := ⟨hs, h⟩

/-- Every execution ends as promised. -/
theorem Meets.runs (h : p.Meets k I P s) {a : α} {t : σ} (hruns : Runs k p s a t) :
    I t ∧ P a t := by
  induction hruns with
  | done => exact h
  | step hcall _ ih => exact ih (h.2 _ _ hcall)

/-- Wherever an execution stops, the invariant holds. -/
theorem Meets.stops (h : p.Meets k I P s) {t : σ} (hstops : Stops k p s t) : I t := by
  induction hstops with
  | here => exact h.start
  | step hcall _ ih => exact ih (h.2 _ _ hcall)

/-- The undisturbed execution is one of those in which calls may fail. -/
theorem runs_exec (m : Machine C R σ) (p : Program C R α) (s : σ) :
    Runs m.faulty p s (p.exec m s).1 (p.exec m s).2 := by
  induction p generalizing s with
  | done a => exact .done
  | step c next ih => exact .step (Or.inl rfl) (ih _ _)

/-- Where every call is performed, there is one execution. -/
theorem runs_contract_iff {m : Machine C R σ} {a : α} {t : σ} :
    Runs m.contract p s a t ↔ p.exec m s = (a, t) := by
  constructor
  · intro h
    induction h with
    | done => rfl
    | @step c next s t u r a hcall _ ih =>
      show exec m (next (m.perform c s).1) (m.perform c s).2 = _
      rw [show m.perform c s = (r, t) from hcall]
      exact ih
  · intro h
    induction p generalizing s with
    | done a' =>
      cases h
      exact .done
    | step c next ih => exact .step rfl (ih _ h)

end Program

/-! ### Procedures -/

namespace Procedure

/-- All states satisfy `I`; a result satisfies `P` and an error `E`, with the state it is reached
in. -/
def Meets (k : Contract C R σ) (I : σ → Prop) (x : Procedure C R ε α) (P : α → σ → Prop)
    (E : ε → σ → Prop) (s : σ) : Prop :=
  x.program.Meets k I (fun r t => match r with
    | .ok a => P a t
    | .error e => E e t) s

variable {k : Contract C R σ} {I : σ → Prop} {x : Procedure C R ε α} {P Q : α → σ → Prop}
  {E F : ε → σ → Prop} {s : σ}

theorem Meets.mono (h : x.Meets k I P E s) (hP : ∀ a t, I t → P a t → Q a t)
    (hE : ∀ e t, I t → E e t → F e t) : x.Meets k I Q F s := by
  refine Program.Meets.mono h fun r t hI hr => ?_
  cases r with
  | ok a => exact hP a t hI hr
  | error e => exact hE e t hI hr

theorem Meets.weaken {I' : σ → Prop} (h : x.Meets k I P E s) (hI : ∀ t, I t → I' t) :
    x.Meets k I' P E s :=
  Program.Meets.weaken h hI

/-- The sequence rule. -/
theorem Meets.bind {f : α → Procedure C R ε β} {Q : β → σ → Prop} (h : x.Meets k I P E s)
    (hf : ∀ a t, I t → P a t → (f a).Meets k I Q E t) : (x >>= f).Meets k I Q E s := by
  refine Program.Meets.bind h fun r t hI hr => ?_
  cases r with
  | ok a => exact hf a t hI hr
  | error e => exact ⟨hI, hr⟩

theorem meets_pure {a : α} (hs : I s) (h : P a s) :
    (pure a : Procedure C R ε α).Meets k I P E s := ⟨hs, h⟩

theorem meets_fail {e : ε} (hs : I s) (h : E e s) :
    (fail e : Procedure C R ε α).Meets k I P E s := ⟨hs, h⟩

/-- A computed result or error. -/
theorem meets_lift {r : Except ε α} (hs : I s) (hok : ∀ a, r = .ok a → P a s)
    (herror : ∀ e, r = .error e → E e s) : (lift r).Meets k I P E s := by
  cases r with
  | ok a => exact ⟨hs, hok a rfl⟩
  | error e => exact ⟨hs, herror e rfl⟩

/-- A computed result goes on where it is not an error. -/
theorem meets_lift_bind {r : Except ε α} {f : α → Procedure C R ε β} {P : β → σ → Prop}
    (hs : I s) (hok : ∀ a, r = .ok a → (f a).Meets k I P E s)
    (herror : ∀ e, r = .error e → E e s) : (lift r >>= f).Meets k I P E s := by
  cases r with
  | ok a => exact hok a rfl
  | error e => exact ⟨hs, herror e rfl⟩

/-- A program whose error is renamed. -/
theorem meets_attempt {ε' : Type} {rename : ε' → ε} {p : Program C R (Except ε' α)}
    (h : p.Meets k I (fun r t => match r with
      | .ok a => P a t
      | .error e => E (rename e) t) s) : (attempt rename p).Meets k I P E s := by
  refine Program.Meets.bind h fun r t hI hr => ?_
  cases r with
  | ok a => exact ⟨hI, hr⟩
  | error e => exact ⟨hI, hr⟩

theorem meets_ignore {p : Program C R β} {P : Unit → σ → Prop}
    (h : p.Meets k I (fun _ t => P () t) s) :
    (ignore p : Procedure C R ε Unit).Meets k I P E s :=
  Program.Meets.bind h fun _ _ hI hP => ⟨hI, hP⟩

/-- An action with a second one on its error: what the first one ends with is what the second one
needs. -/
theorem meets_recover {f : ε → Procedure C R ε α}
    (h : x.Meets k I P (fun e t => (f e).Meets k I P E t) s) : (x.recover f).Meets k I P E s := by
  refine Program.Meets.bind h fun r t hI hr => ?_
  cases r with
  | ok a => exact ⟨hI, hr⟩
  | error e => exact hr

/-- An execution goes on after a result. -/
theorem exec_then {m : Machine C R σ} {f : α → Procedure C R ε β} {a : α} {t : σ}
    (hx : x.exec m s = (.ok a, t)) : (x >>= f).exec m s = (f a).exec m t := by
  rw [exec_bind, hx, execRest_ok]

theorem exec_lift_then {m : Machine C R σ} {r : Except ε α} {f : α → Procedure C R ε β} {a : α}
    (hr : r = .ok a) : (lift r >>= f).exec m s = (f a).exec m s :=
  exec_then (by rw [exec_lift, hr])

/-- Every execution ends as promised. -/
theorem Meets.ok (h : x.Meets k I P E s) {a : α} {t : σ}
    (hruns : x.program.Runs k s (.ok a) t) : I t ∧ P a t :=
  Program.Meets.runs h hruns

theorem Meets.error (h : x.Meets k I P E s) {e : ε} {t : σ}
    (hruns : x.program.Runs k s (.error e) t) : I t ∧ E e t :=
  Program.Meets.runs h hruns

end Procedure

/-! ### Refinement -/

namespace Contract

/-- Every call of the first contract is one of the second, seen through `f`. -/
def Refines (k : Contract C R σ) (f : σ → τ) (k' : Contract C R τ) : Prop :=
  ∀ c s r t, k c s r t → k' c (f s) r (f t)

variable {k : Contract C R σ} {k' : Contract C R τ} {f : σ → τ} {p : Program C R α}

/-- Executions are refined with the calls. -/
theorem Refines.runs (h : k.Refines f k') {s t : σ} {a : α} (hruns : p.Runs k s a t) :
    p.Runs k' (f s) a (f t) := by
  induction hruns with
  | done => exact .done
  | step hcall _ ih => exact .step (h _ _ _ _ hcall) ih

end Contract
