/-
Programs that issue commands.

A `Program C R α` issues commands `c : C`, receives a response `R c` to each and ends
with a result.  What a command does is left to a `Machine`: it performs every command
as one atomic step of a state, and names the response of a command that failed.  A
`Procedure` is a program that may end with an error, which skips the rest of it.

* `exec` — an undisturbed execution, `exec_bind`;
* `cut` — the state left behind by an execution whose commands meet given fates.
-/
import Mathlib.Init

/-- A program that issues commands `C` with responses `R` and ends with an `α`. -/
inductive Program (C : Type) (R : C → Type) (α : Type)
  | done (a : α)
  | step (c : C) (next : R c → Program C R α)

/-- How commands act on a state, and what a failed command answers. -/
structure Machine (C : Type) (R : C → Type) (σ : Type) where
  perform : (c : C) → σ → R c × σ
  failed : (c : C) → R c

variable {C : Type} {R : C → Type} {σ α β γ ε : Type}

namespace Program

def bind : Program C R α → (α → Program C R β) → Program C R β
  | done a, f => f a
  | step c next, f => step c fun b => (next b).bind f

theorem bind_assoc (p : Program C R α) (f : α → Program C R β) (g : β → Program C R γ) :
    (p.bind f).bind g = p.bind fun a => (f a).bind g := by
  induction p with
  | done a => rfl
  | step c next ih => exact congrArg (step c) (funext ih)

/-- The program that issues one command. -/
def call (c : C) : Program C R (R c) := step c done

/-- Programs that issue the same command go on in the same way. -/
theorem step_congr {c : C} {next next' : R c → Program C R α} (h : ∀ r, next r = next' r) :
    step c next = step c next' := congrArg (step c) (funext h)

/-- The result and the final state of an undisturbed execution. -/
def exec (m : Machine C R σ) : Program C R α → σ → α × σ
  | done a, s => (a, s)
  | step c next, s => exec m (next (m.perform c s).1) (m.perform c s).2

theorem exec_call (m : Machine C R σ) (c : C) (s : σ) : (call c).exec m s = m.perform c s := rfl

theorem exec_bind (m : Machine C R σ) (p : Program C R α) (f : α → Program C R β) (s : σ) :
    (p.bind f).exec m s = (f (p.exec m s).1).exec m (p.exec m s).2 := by
  induction p generalizing s with
  | done a => rfl
  | step c next ih => exact ih _ _

/-! ### Disturbed executions -/

/-- What becomes of a command: it is performed, it fails without its effect, or it has its effect
and is reported failed. -/
inductive Fate
  | performed
  | refused
  | lost
  deriving DecidableEq

/-- The state left behind by the execution that meets these fates and then stops. -/
def cut (m : Machine C R σ) : Program C R α → List Fate → σ → σ
  | done _, _, s => s
  | step _ _, [], s => s
  | step c next, .performed :: fates, s =>
    cut m (next (m.perform c s).1) fates (m.perform c s).2
  | step c next, .refused :: fates, s => cut m (next (m.failed c)) fates s
  | step c next, .lost :: fates, s => cut m (next (m.failed c)) fates (m.perform c s).2

end Program

/-! ### Programs that may end with an error -/

/-- A program that ends with a result or an error. -/
structure Procedure (C : Type) (R : C → Type) (ε α : Type) where
  program : Program C R (Except ε α)

namespace Procedure

/-- The rest of an action after a result; an error ends the action. -/
def andThen (f : α → Procedure C R ε β) : Except ε α → Program C R (Except ε β)
  | .ok a => (f a).program
  | .error e => .done (.error e)

instance : Monad (Procedure C R ε) where
  pure a := ⟨.done (.ok a)⟩
  bind x f := ⟨x.program.bind (andThen f)⟩

/-- An error skips all that follows. -/
theorem bind_assoc (x : Procedure C R ε α) (f : α → Procedure C R ε β)
    (g : β → Procedure C R ε γ) : x >>= f >>= g = x >>= fun a => f a >>= g := by
  refine congrArg Procedure.mk ((Program.bind_assoc _ _ _).trans (congrArg _ (funext fun r => ?_)))
  cases r with
  | ok a => rfl
  | error e => rfl

theorem program_bind (x : Procedure C R ε α) (f : α → Procedure C R ε β) :
    (x >>= f).program = x.program.bind (andThen f) := rfl

/-- The action that fails. -/
def fail (e : ε) : Procedure C R ε α := ⟨.done (.error e)⟩

/-- A computed result or error. -/
def lift (r : Except ε α) : Procedure C R ε α := ⟨.done r⟩

/-- The action of a program that may answer an error, renamed by `rename`. -/
def attempt {ε' : Type} (rename : ε' → ε) (p : Program C R (Except ε' α)) : Procedure C R ε α :=
  ⟨p.bind fun r => .done (r.mapError rename)⟩

/-- A program whose result is thrown away. -/
def ignore (p : Program C R β) : Procedure C R ε Unit := ⟨p.bind fun _ => .done (.ok ())⟩

/-- A second action after an error; a result ends the action. -/
def orElse (f : ε → Procedure C R ε α) : Except ε α → Program C R (Except ε α)
  | .ok a => .done (.ok a)
  | .error e => (f e).program

/-- An action with a second one to be carried out on its error. -/
def recover (x : Procedure C R ε α) (f : ε → Procedure C R ε α) : Procedure C R ε α :=
  ⟨x.program.bind (orElse f)⟩

/-- The result and the final state of an undisturbed execution. -/
def exec (m : Machine C R σ) (x : Procedure C R ε α) (s : σ) : Except ε α × σ := x.program.exec m s

/-- The execution of the rest of an action. -/
def execRest (m : Machine C R σ) (f : α → Procedure C R ε β) :
    Except ε α × σ → Except ε β × σ
  | (.ok a, s) => (f a).exec m s
  | (.error e, s) => (.error e, s)

@[simp] theorem execRest_ok (m : Machine C R σ) (f : α → Procedure C R ε β) (a : α) (s : σ) :
    execRest m f (.ok a, s) = (f a).exec m s := rfl

@[simp] theorem execRest_error (m : Machine C R σ) (f : α → Procedure C R ε β) (e : ε) (s : σ) :
    execRest m f (.error e, s) = (.error e, s) := rfl

@[simp] theorem exec_bind (m : Machine C R σ) (x : Procedure C R ε α) (f : α → Procedure C R ε β)
    (s : σ) : (x >>= f).exec m s = execRest m f (x.exec m s) := by
  show (x.program.bind (andThen f)).exec m s = execRest m f (x.program.exec m s)
  rw [Program.exec_bind]
  rcases x.program.exec m s with ⟨_ | _, s'⟩
  · rfl
  · rfl

theorem exec_mk (m : Machine C R σ) (p : Program C R (Except ε α)) (s : σ) :
    (⟨p⟩ : Procedure C R ε α).exec m s = p.exec m s := rfl

@[simp] theorem exec_pure (m : Machine C R σ) (a : α) (s : σ) :
    (pure a : Procedure C R ε α).exec m s = (.ok a, s) := rfl

@[simp] theorem exec_fail (m : Machine C R σ) (e : ε) (s : σ) :
    (fail e : Procedure C R ε α).exec m s = (.error e, s) := rfl

@[simp] theorem exec_lift (m : Machine C R σ) (r : Except ε α) (s : σ) :
    (lift r : Procedure C R ε α).exec m s = (r, s) := rfl

@[simp] theorem exec_attempt {ε' : Type} (m : Machine C R σ) (rename : ε' → ε)
    (p : Program C R (Except ε' α)) (s : σ) :
    (attempt rename p).exec m s = ((p.exec m s).1.mapError rename, (p.exec m s).2) :=
  Program.exec_bind m p _ s

@[simp] theorem exec_ignore (m : Machine C R σ) (p : Program C R β) (s : σ) :
    (ignore p : Procedure C R ε Unit).exec m s = (.ok (), (p.exec m s).2) :=
  Program.exec_bind m p _ s

/-- The execution of the second action after an error. -/
def execElse (m : Machine C R σ) (f : ε → Procedure C R ε α) : Except ε α × σ → Except ε α × σ
  | (.ok a, s) => (.ok a, s)
  | (.error e, s) => (f e).exec m s

@[simp] theorem execElse_ok (m : Machine C R σ) (f : ε → Procedure C R ε α) (a : α) (s : σ) :
    execElse m f (.ok a, s) = (.ok a, s) := rfl

@[simp] theorem execElse_error (m : Machine C R σ) (f : ε → Procedure C R ε α) (e : ε) (s : σ) :
    execElse m f (.error e, s) = (f e).exec m s := rfl

@[simp] theorem exec_recover (m : Machine C R σ) (x : Procedure C R ε α) (f : ε → Procedure C R ε α)
    (s : σ) : (x.recover f).exec m s = execElse m f (x.exec m s) := by
  show (x.program.bind (orElse f)).exec m s = execElse m f (x.program.exec m s)
  rw [Program.exec_bind]
  rcases x.program.exec m s with ⟨_ | _, s'⟩
  · rfl
  · rfl

/-- A recovery that cannot succeed leaves the successes of the first action. -/
theorem exec_recover_eq_ok {m : Machine C R σ} {x : Procedure C R ε α} {f : ε → Procedure C R ε α}
    (hf : ∀ e s a s', (f e).exec m s ≠ (.ok a, s')) {s s' : σ} {a : α} :
    (x.recover f).exec m s = (.ok a, s') ↔ x.exec m s = (.ok a, s') := by
  rw [exec_recover]
  rcases x.exec m s with ⟨e | b, s₁⟩
  · simp [hf]
  · rfl

/-- The steps of an action that is executed to its end without an error. -/
theorem exec_bind_eq_ok {m : Machine C R σ} {x : Procedure C R ε α} {f : α → Procedure C R ε β}
    {s s' : σ} {b : β} : (x >>= f).exec m s = (.ok b, s') ↔
      ∃ a s₁, x.exec m s = (.ok a, s₁) ∧ (f a).exec m s₁ = (.ok b, s') := by
  rw [exec_bind]
  rcases x.exec m s with ⟨e | a, s₁⟩
  · simp
  · constructor
    · intro h
      exact ⟨a, s₁, rfl, h⟩
    · rintro ⟨a, s₁, h, hf⟩
      cases h
      exact hf

end Procedure
