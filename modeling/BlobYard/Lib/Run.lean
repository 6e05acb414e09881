/-
Runs of a labelled transition system.

`Run sys guard s` says that `s` is reached from the initial state by steps whose
labels satisfy `guard` in the state they are taken from.  The guard singles out the
runs a law is about; the trivial guard gives plain reachability.

* `Run.inv` — an invariant that holds initially and that every guarded step keeps
  holds of every state reached;
* `Steps.preserves` — what every step keeps is kept from a state to all later ones;
* `Run.ofList` — an executable step function turns a list of labels into a run.
-/
import Mathlib.Init

/-- A transition system: an initial state and labelled steps. -/
structure System (σ α : Type) where
  init : σ
  step : σ → α → σ → Prop

variable {σ α : Type} {sys : System σ α} {guard : σ → α → Prop}

/-- The states reached by guarded steps. -/
inductive Run (sys : System σ α) (guard : σ → α → Prop) : σ → Prop
  | init : Run sys guard sys.init
  | step {s s' : σ} {a : α} : Run sys guard s → guard s a → sys.step s a s' → Run sys guard s'

/-- The states reached from `s` by guarded steps. -/
inductive Steps (sys : System σ α) (guard : σ → α → Prop) (s : σ) : σ → Prop
  | refl : Steps sys guard s s
  | step {s' s'' : σ} {a : α} :
    Steps sys guard s s' → guard s' a → sys.step s' a s'' → Steps sys guard s s''

namespace Steps

/-- What a state satisfies and every step keeps is satisfied by all later states. -/
theorem preserves {P : σ → Prop} (hstep : ∀ s a s', P s → guard s a → sys.step s a s' → P s')
    {s s' : σ} (h : Steps sys guard s s') (hs : P s) : P s' := by
  induction h with
  | refl => exact hs
  | step _ hg hs' ih => exact hstep _ _ _ ih hg hs'

/-- A list of labels leads from a state to a later one under the trivial guard. -/
theorem ofList_true {exec : σ → α → σ} (hexec : ∀ s a, sys.step s a (exec s a)) {s t : σ}
    (h : Steps sys (fun _ _ => True) s t) (as : List α) :
    Steps sys (fun _ _ => True) s (as.foldl exec t) := by
  induction as generalizing t with
  | nil => exact h
  | cons a as ih => exact ih (h.step trivial (hexec t a))

end Steps

namespace Run

/-- The invariant rule. -/
theorem inv {P : σ → Prop} (hinit : P sys.init)
    (hstep : ∀ s a s', P s → guard s a → sys.step s a s' → P s') {s : σ}
    (h : Run sys guard s) : P s := by
  induction h with
  | init => exact hinit
  | step _ hg hs ih => exact hstep _ _ _ ih hg hs

/-- The labels of a list satisfy the guard along the run that `exec` computes. -/
def Allowed (exec : σ → α → σ) (guard : σ → α → Prop) : σ → List α → Prop
  | _, [] => True
  | s, a :: as => guard s a ∧ Allowed exec guard (exec s a) as

instance decidableAllowed (exec : σ → α → σ) (guard : σ → α → Prop)
    [∀ s a, Decidable (guard s a)] : (s : σ) → (as : List α) →
      Decidable (Allowed exec guard s as)
  | _, [] => .isTrue trivial
  | s, a :: as =>
    have := decidableAllowed exec guard (exec s a) as
    inferInstanceAs (Decidable (guard s a ∧ Allowed exec guard (exec s a) as))

theorem ofList {exec : σ → α → σ} (hexec : ∀ s a, sys.step s a (exec s a)) {s : σ}
    (hs : Run sys guard s) {as : List α} (has : Allowed exec guard s as) :
    Run sys guard (as.foldl exec s) := by
  induction as generalizing s with
  | nil => exact hs
  | cons a as ih => exact ih (hs.step has.1 (hexec s a)) has.2

/-- Every list of labels is a run under the trivial guard. -/
theorem ofList_true {exec : σ → α → σ} (hexec : ∀ s a, sys.step s a (exec s a)) {s : σ}
    (hs : Run sys (fun _ _ => True) s) (as : List α) :
    Run sys (fun _ _ => True) (as.foldl exec s) := by
  induction as generalizing s with
  | nil => exact hs
  | cons a as ih => exact ih (hs.step trivial (hexec s a))

end Run
