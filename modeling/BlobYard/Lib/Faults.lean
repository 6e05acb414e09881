/-
Executions in which calls fail.

A call that fails has no effect, and the program sees its failed answer.  What such executions
keep is proved of the program, over all the ways in which its calls can fail, and then holds
where an execution stops and where it ends.

* `execWith`, `haltWith` — the executions, to their end and up to a stop; `callsWith` — their calls;
* `runs_execWith` — they are runs of the contract of the machine;
* `Throughout` — a property of the states that holds from the start to the end, and what the end
  is like;
* `Throughout.bind`, `throughout_call` and their likes for procedures — the rules;
* `Throughout.execWith`, `Throughout.haltWith` — what they say about the executions.
-/
import BlobYard.Lib.Contracts

variable {C : Type} {R : C → Type} {σ α β ε : Type}

namespace Program

/-- The result and the final state of an execution; `true` stands for a call that fails, and calls
beyond the list succeed. -/
def execWith (m : Machine C R σ) : Program C R α → List Bool → σ → α × σ
  | done a, _, s => (a, s)
  | step c next, true :: fails, s => execWith m (next (m.failed c)) fails s
  | step c next, false :: fails, s =>
    execWith m (next (m.perform c s).1) fails (m.perform c s).2
  | step c next, [], s => execWith m (next (m.perform c s).1) [] (m.perform c s).2

/-- The state in which an execution stops that ends with the list. -/
def haltWith (m : Machine C R σ) (p : Program C R α) (fails : List Bool) (s : σ) : σ :=
  p.cut m (fails.map fun fail => if fail then .refused else .performed) s

/-- With no failed calls the execution is an undisturbed one. -/
theorem execWith_nil (m : Machine C R σ) (p : Program C R α) (s : σ) :
    p.execWith m [] s = p.exec m s := by
  induction p generalizing s with
  | done a => rfl
  | step c next ih => exact ih _ _

/-- The calls of an execution, with their answers. -/
def callsWith (m : Machine C R σ) : Program C R α → List Bool → σ → List (Sigma R)
  | done _, _, _ => []
  | step c next, true :: fails, s => ⟨c, m.failed c⟩ :: callsWith m (next (m.failed c)) fails s
  | step c next, false :: fails, s =>
    ⟨c, (m.perform c s).1⟩ :: callsWith m (next (m.perform c s).1) fails (m.perform c s).2
  | step c next, [], s =>
    ⟨c, (m.perform c s).1⟩ :: callsWith m (next (m.perform c s).1) [] (m.perform c s).2

/-- What is so of all calls of an execution is so of a run. -/
theorem runs_execWith {m : Machine C R σ} {ok : Sigma R → Prop} {p : Program C R α}
    {fails : List Bool} {s : σ} (h : ∀ call ∈ p.callsWith m fails s, ok call) :
    p.Runs (fun c s r t => m.faulty c s r t ∧ ok ⟨c, r⟩) s (p.execWith m fails s).1
      (p.execWith m fails s).2 := by
  induction p generalizing fails s with
  | done a => exact .done
  | step c next ih =>
    -- the first call is performed unless the list says that it fails
    rcases fails with _ | ⟨_ | _, fails⟩
    · obtain ⟨hok, h⟩ := List.forall_mem_cons.mp h
      exact .step ⟨Or.inl rfl, hok⟩ (ih _ h)
    · obtain ⟨hok, h⟩ := List.forall_mem_cons.mp h
      exact .step ⟨Or.inl rfl, hok⟩ (ih _ h)
    · obtain ⟨hok, h⟩ := List.forall_mem_cons.mp h
      exact .step ⟨Or.inr ⟨rfl, rfl⟩, hok⟩ (ih _ h)

/-- The rest of an execution meets the failures that are left. -/
theorem execWith_bind (m : Machine C R σ) (p : Program C R α) (f : α → Program C R β)
    (fails : List Bool) (s : σ) : (p.bind f).execWith m fails s =
      (f (p.execWith m fails s).1).execWith m (fails.drop (p.callsWith m fails s).length)
        (p.execWith m fails s).2 := by
  induction p generalizing fails s with
  | done a => rfl
  | step c next ih =>
    rcases fails with _ | ⟨_ | _, fails⟩
    · have hrest := ih (m.perform c s).1 [] (m.perform c s).2
      rw [List.drop_nil] at hrest ⊢
      exact hrest
    · exact ih _ fails _
    · exact ih _ fails _

theorem callsWith_bind (m : Machine C R σ) (p : Program C R α) (f : α → Program C R β)
    (fails : List Bool) (s : σ) : (p.bind f).callsWith m fails s =
      p.callsWith m fails s ++
        (f (p.execWith m fails s).1).callsWith m (fails.drop (p.callsWith m fails s).length)
          (p.execWith m fails s).2 := by
  induction p generalizing fails s with
  | done a => rfl
  | step c next ih =>
    rcases fails with _ | ⟨_ | _, fails⟩
    · have hrest := ih (m.perform c s).1 [] (m.perform c s).2
      rw [List.drop_nil] at hrest ⊢
      exact congrArg (List.cons _) hrest
    · exact congrArg (List.cons _) (ih _ fails _)
    · exact congrArg (List.cons _) (ih _ fails _)

/-- All states satisfy `I`, from the first to the last; the result and the last state satisfy
`P`. -/
def Throughout (m : Machine C R σ) (I : σ → Prop) :
    Program C R α → (α → σ → Prop) → σ → Prop
  | done a, P, s => I s ∧ P a s
  | step c next, P, s => I s ∧ Throughout m I (next (m.perform c s).1) P (m.perform c s).2 ∧
    Throughout m I (next (m.failed c)) P s

variable {m : Machine C R σ} {I : σ → Prop} {p : Program C R α} {P P' : α → σ → Prop} {s : σ}

theorem Throughout.start (h : p.Throughout m I P s) : I s := by
  cases p with
  | done a => exact h.1
  | step c next => exact h.1

/-- The sequence rule. -/
theorem Throughout.bind {f : α → Program C R β} {P' : β → σ → Prop} (h : p.Throughout m I P s)
    (hf : ∀ a t, I t → P a t → (f a).Throughout m I P' t) :
    (p.bind f).Throughout m I P' s := by
  induction p generalizing s with
  | done a => exact hf a s h.1 h.2
  | step c next ih => exact ⟨h.1, ih _ h.2.1, ih _ h.2.2⟩

theorem Throughout.mono (h : p.Throughout m I P s) (hP : ∀ a t, I t → P a t → P' a t) :
    p.Throughout m I P' s := by
  induction p generalizing s with
  | done a => exact ⟨h.1, hP a s h.1 h.2⟩
  | step c next ih => exact ⟨h.1, ih _ h.2.1, ih _ h.2.2⟩

theorem Throughout.weaken {I' : σ → Prop} (h : p.Throughout m I P s) (hI : ∀ t, I t → I' t) :
    p.Throughout m I' P s := by
  induction p generalizing s with
  | done a => exact ⟨hI s h.1, h.2⟩
  | step c next ih => exact ⟨hI s h.1, ih _ h.2.1, ih _ h.2.2⟩

/-- The rule for one call. -/
theorem throughout_call {c : C} {P : R c → σ → Prop} (hs : I s)
    (hperform : I (m.perform c s).2 ∧ P (m.perform c s).1 (m.perform c s).2)
    (hfail : P (m.failed c) s) : (call c).Throughout m I P s :=
  ⟨hs, hperform, hs, hfail⟩

/-- An execution with failing calls ends as promised. -/
theorem Throughout.execWith (h : p.Throughout m I P s) (fails : List Bool) :
    I (p.execWith m fails s).2 ∧ P (p.execWith m fails s).1 (p.execWith m fails s).2 := by
  induction p generalizing fails s with
  | done a => exact h
  | step c next ih =>
    cases fails with
    | nil => exact ih _ h.2.1 []
    | cons fail fails =>
      cases fail with
      | false => exact ih _ h.2.1 fails
      | true => exact ih _ h.2.2 fails

/-- Where the execution stops, the property holds. -/
theorem Throughout.haltWith (h : p.Throughout m I P s) (fails : List Bool) :
    I (p.haltWith m fails s) := by
  unfold Program.haltWith
  induction p generalizing fails s with
  | done a => exact h.1
  | step c next ih =>
    cases fails with
    | nil => exact h.1
    | cons fail fails =>
      cases fail with
      | false => exact ih _ h.2.1 fails
      | true => exact ih _ h.2.2 fails

end Program

/-! ### Procedures -/

namespace Procedure

/-- All states satisfy `I`; a result and the state it is reached in satisfy `P`. -/
def Throughout (m : Machine C R σ) (I : σ → Prop) (x : Procedure C R ε α) (P : α → σ → Prop)
    (s : σ) : Prop :=
  x.program.Throughout m I (fun r t => ∀ a, r = .ok a → P a t) s

variable {m : Machine C R σ} {I : σ → Prop} {x : Procedure C R ε α} {P P' : α → σ → Prop} {s : σ}

theorem Throughout.mono (h : x.Throughout m I P s) (hP : ∀ a t, I t → P a t → P' a t) :
    x.Throughout m I P' s :=
  Program.Throughout.mono h fun _ t hI hr a ha => hP a t hI (hr a ha)

theorem Throughout.weaken {I' : σ → Prop} (h : x.Throughout m I P s) (hI : ∀ t, I t → I' t) :
    x.Throughout m I' P s :=
  Program.Throughout.weaken h hI

/-- The sequence rule. -/
theorem Throughout.bind {f : α → Procedure C R ε β} {P' : β → σ → Prop}
    (h : x.Throughout m I P s) (hf : ∀ a t, I t → P a t → (f a).Throughout m I P' t) :
    (x >>= f).Throughout m I P' s := by
  refine Program.Throughout.bind h fun r t hI hr => ?_
  cases r with
  | ok a => exact hf a t hI (hr a rfl)
  | error e =>
    refine ⟨hI, fun b hb => ?_⟩
    cases hb

theorem throughout_pure {a : α} (hs : I s) (h : P a s) :
    (pure a : Procedure C R ε α).Throughout m I P s := by
  refine ⟨hs, fun b hb => ?_⟩
  obtain rfl := Except.ok.inj hb
  exact h

theorem throughout_fail {e : ε} (hs : I s) : (fail e : Procedure C R ε α).Throughout m I P s := by
  refine ⟨hs, fun b hb => ?_⟩
  cases hb

/-- A computed result goes on where it is not an error. -/
theorem throughout_lift_bind {r : Except ε α} {f : α → Procedure C R ε β} {P' : β → σ → Prop}
    (hs : I s) (h : ∀ a, r = .ok a → (f a).Throughout m I P' s) :
    (lift r >>= f).Throughout m I P' s := by
  cases r with
  | ok a => exact h a rfl
  | error e => exact throughout_fail hs

/-- An action with a second one on its error: the first one promises what the second needs. -/
theorem throughout_recover {f : ε → Procedure C R ε α}
    (h : x.program.Throughout m I (fun r t => match r with
      | .ok a => P a t
      | .error e => (f e).Throughout m I P t) s) : (x.recover f).Throughout m I P s := by
  refine Program.Throughout.bind h fun r t hI hr => ?_
  cases r with
  | ok a =>
    refine ⟨hI, fun b hb => ?_⟩
    obtain rfl := Except.ok.inj hb
    exact hr
  | error e => exact hr

theorem throughout_ignore {p : Program C R β} {P : Unit → σ → Prop}
    (h : p.Throughout m I (fun _ t => P () t) s) :
    (ignore p : Procedure C R ε Unit).Throughout m I P s := by
  refine Program.Throughout.bind h fun r t hI hP => ⟨hI, fun b hb => ?_⟩
  obtain rfl := Except.ok.inj hb
  exact hP

end Procedure
