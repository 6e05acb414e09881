/-
Refinement of labelled transition systems.

A system refines a simpler one when whatever can be observed of its runs can also be
observed of a run of the simpler one.  A forward simulation shows this step by step.

* `Traced sys guard labels s` — guarded steps with these labels lead from the initial state to `s`;
* `Simulation` — a relation of states that every visible step keeps together with a step of the
  simpler system, and that every other step keeps alone;
* `Simulation.traced` — the observations of a run are a run of the simpler system.
-/
import BlobYard.Lib.Run

variable {σ τ α β : Type}

/-- The states reached by guarded steps, with the labels of the steps. -/
inductive Traced (sys : System σ α) (guard : σ → α → Prop) : List α → σ → Prop
  | init : Traced sys guard [] sys.init
  | step {labels : List α} {s s' : σ} {a : α} : Traced sys guard labels s → guard s a →
      sys.step s a s' → Traced sys guard (labels ++ [a]) s'

namespace Traced

variable {sys : System σ α} {guard : σ → α → Prop} {labels : List α} {s : σ}

/-- The invariant rule, for properties of the labels so far and the state. -/
theorem inv {P : List α → σ → Prop} (hinit : P [] sys.init)
    (hstep : ∀ labels s a s', P labels s → guard s a → sys.step s a s' → P (labels ++ [a]) s')
    (h : Traced sys guard labels s) : P labels s := by
  induction h with
  | init => exact hinit
  | step _ hg hs ih => exact hstep _ _ _ _ ih hg hs

end Traced

/-- `R` relates the states of the two systems: a step that is observed is matched by a step of
`spec` with the observation as its label, any other step leaves the state of `spec` as it is. -/
structure Simulation (sys : System σ α) (guard : σ → α → Prop) (spec : System τ β)
    (observe : α → Option β) (R : σ → τ → Prop) : Prop where
  init : R sys.init spec.init
  visible : ∀ s a s' t b, R s t → guard s a → sys.step s a s' → observe a = some b →
    ∃ t', spec.step t b t' ∧ R s' t'
  silent : ∀ s a s' t, R s t → guard s a → sys.step s a s' → observe a = none → R s' t

namespace Simulation

variable {sys : System σ α} {guard : σ → α → Prop} {spec : System τ β} {observe : α → Option β}
  {R : σ → τ → Prop} {labels : List α} {s : σ}

/-- What is observed of a run is a run of the simpler system, to a related state. -/
theorem traced (hsim : Simulation sys guard spec observe R) (h : Traced sys guard labels s) :
    ∃ t, Traced spec (fun _ _ => True) (labels.filterMap observe) t ∧ R s t := by
  induction h with
  | init => exact ⟨spec.init, Traced.init, hsim.init⟩
  | @step labels s s' a _ hg hs ih =>
    obtain ⟨t, ht, hR⟩ := ih
    rw [List.filterMap_append]
    cases hobserve : observe a with
    | none =>
      rw [List.filterMap_cons_none hobserve, List.filterMap_nil, List.append_nil]
      exact ⟨t, ht, hsim.silent s a s' t hR hg hs hobserve⟩
    | some b =>
      obtain ⟨t', hstep, hR'⟩ := hsim.visible s a s' t b hR hg hs hobserve
      rw [List.filterMap_cons_some hobserve, List.filterMap_nil]
      exact ⟨t', ht.step trivial hstep, hR'⟩

end Simulation
