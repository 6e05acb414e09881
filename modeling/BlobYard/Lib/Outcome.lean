/-
Fallible computations in the `Except` monad, read backwards.

A transaction of the model is a chain of `Except` binds; a proof about it starts
from "this chain returned `ok`" and needs every intermediate result.  This file
holds the guard `ensure` and the inversion rules that peel a chain apart:

* `Outcome.bind_eq_ok` — a bind succeeded exactly when both halves did;
* `Outcome.bind_eq_error` — it failed where one of them did;
* `Outcome.ensure_eq_ok` — a guard succeeded exactly when its condition holds;
* `Outcome.ofOption_eq_ok` — a lookup succeeded exactly when it found the value;
* `Outcome.forM_eq_ok`, `Outcome.mapM_ok_iff` — a check, or a map, over a list succeeded
  exactly when each one did;
* `Outcome.foldlM_inv` — an invariant of one fallible step is one of the fold.
-/
import Mathlib.Data.List.Basic

namespace Outcome

variable {ε α β : Type}

/-- Fails with `e` unless `c` holds. -/
def ensure (c : Prop) [Decidable c] (e : ε) : Except ε Unit :=
  if c then .ok () else .error e

/-- The value of a lookup, or `e` when it found nothing. -/
def ofOption (e : ε) : Option α → Except ε α
  | some a => .ok a
  | none => .error e

@[simp] theorem pure_eq_ok {a b : α} : (pure a : Except ε α) = .ok b ↔ a = b := by
  show (Except.ok a : Except ε α) = .ok b ↔ a = b
  exact Except.ok.injEq a b ▸ Iff.rfl

@[simp] theorem bind_eq_ok {x : Except ε α} {f : α → Except ε β} {b : β} :
    (x >>= f) = .ok b ↔ ∃ a, x = .ok a ∧ f a = .ok b := by
  cases x with
  | error e => simp [bind, Except.bind]
  | ok a => simp [bind, Except.bind]

theorem bind_eq_error {x : Except ε α} {f : α → Except ε β} {e : ε} :
    (x >>= f) = .error e ↔ x = .error e ∨ ∃ a, x = .ok a ∧ f a = .error e := by
  cases x with
  | error e' => simp [bind, Except.bind]
  | ok a => simp [bind, Except.bind]

@[simp] theorem map_eq_ok {x : Except ε α} {f : α → β} {b : β} :
    (f <$> x) = .ok b ↔ ∃ a, x = .ok a ∧ f a = b := by
  cases x with
  | error e => simp [Functor.map, Except.map]
  | ok a => simp [Functor.map, Except.map]

theorem mapError_eq_ok {ε' : Type} {f : ε → ε'} {x : Except ε α} {a : α} :
    x.mapError f = .ok a ↔ x = .ok a := by
  cases x <;> simp [Except.mapError]

@[simp] theorem ensure_eq_ok {c : Prop} [Decidable c] {e : ε} {u : Unit} :
    ensure c e = .ok u ↔ c := by
  unfold ensure
  by_cases h : c <;> simp [h]

@[simp] theorem ensure_eq_error {c : Prop} [Decidable c] {e e' : ε} :
    ensure c e = .error e' ↔ ¬c ∧ e = e' := by
  unfold ensure
  by_cases h : c <;> simp [h]

@[simp] theorem ofOption_eq_ok {e : ε} {o : Option α} {a : α} :
    ofOption e o = .ok a ↔ o = some a := by
  cases o <;> simp [ofOption]

@[simp] theorem ofOption_eq_error {e e' : ε} {o : Option α} :
    ofOption e o = .error e' ↔ o = none ∧ e = e' := by
  cases o <;> simp [ofOption]

/-- A check over a list fails at its first element that fails. -/
theorem forM_eq_error {f : α → Except ε Unit} {l : List α} {e : ε} :
    forM l f = .error e ↔ ∃ before a after, l = before ++ a :: after ∧
      (∀ b ∈ before, f b = .ok ()) ∧ f a = .error e := by
  induction l with
  | nil => simp [pure, Except.pure]
  | cons a l ih =>
    rw [List.forM_cons, bind_eq_error]
    constructor
    · rintro (ha | ⟨u, ha, hl⟩)
      · exact ⟨[], a, l, rfl, by simp, ha⟩
      · obtain ⟨before, b, after, rfl, hbefore, hb⟩ := ih.mp hl
        exact ⟨a :: before, b, after, rfl, List.forall_mem_cons.mpr ⟨ha, hbefore⟩, hb⟩
    · rintro ⟨before, b, after, heq, hbefore, hb⟩
      cases before with
      | nil =>
        simp only [List.nil_append, List.cons.injEq] at heq
        exact Or.inl (heq.1 ▸ hb)
      | cons c before =>
        simp only [List.cons_append, List.cons.injEq] at heq
        obtain ⟨rfl, rfl⟩ := heq
        obtain ⟨hc, hbefore⟩ := List.forall_mem_cons.mp hbefore
        exact Or.inr ⟨(), hc, ih.mpr ⟨before, b, after, rfl, hbefore, hb⟩⟩

/-- A check fails with `e` when one element does and those before it pass or fail alike. -/
theorem forM_error_append {f : α → Except ε Unit} {before after : List α} {a : α} {e : ε}
    (hbefore : ∀ b ∈ before, f b = .ok () ∨ f b = .error e) (ha : f a = .error e) :
    forM (before ++ a :: after) f = .error e := by
  induction before with
  | nil =>
    rw [List.nil_append, List.forM_cons, ha]
    rfl
  | cons b before ih =>
    obtain ⟨hb, hrest⟩ := List.forall_mem_cons.mp hbefore
    rw [List.cons_append, List.forM_cons]
    rcases hb with hb | hb
    · rw [hb]
      exact ih hrest
    · rw [hb]
      rfl

@[simp] theorem forM_eq_ok {f : α → Except ε Unit} {l : List α} {u : Unit} :
    forM l f = .ok u ↔ ∀ a ∈ l, f a = .ok () := by
  induction l with
  | nil => simp
  | cons a l ih =>
    rw [List.forM_cons, bind_eq_ok]
    constructor
    · rintro ⟨_, ha, hl⟩
      exact List.forall_mem_cons.mpr ⟨ha, ih.mp hl⟩
    · intro h
      obtain ⟨ha, hl⟩ := List.forall_mem_cons.mp h
      exact ⟨(), ha, ih.mpr hl⟩

theorem mapM_cons_eq_ok {f : α → Except ε β} {a : α} {l : List α} {bs : List β} :
    (a :: l).mapM f = .ok bs ↔ ∃ b bs', f a = .ok b ∧ l.mapM f = .ok bs' ∧ bs = b :: bs' := by
  rw [List.mapM_cons]
  simp only [bind_eq_ok, pure_eq_ok]
  constructor
  · rintro ⟨b, hb, bs', hbs, rfl⟩
    exact ⟨b, bs', hb, hbs, rfl⟩
  · rintro ⟨b, bs', hb, hbs, rfl⟩
    exact ⟨b, hb, bs', hbs, rfl⟩

/-- A map that undoes another one. -/
theorem mapM_map_pure {m : Type → Type} [Monad m] [LawfulMonad m] {f : β → m α} {g : α → β}
    {l : List α} (h : ∀ a ∈ l, f (g a) = pure a) : (l.map g).mapM f = pure l := by
  induction l with
  | nil => simp
  | cons a l ih =>
    rw [List.map_cons, List.mapM_cons, h a List.mem_cons_self,
      ih fun b hb => h b (List.mem_cons_of_mem a hb)]
    simp

/-- The results of a successful run, one for each element. -/
theorem mapM_forall₂ {f : α → Except ε β} {l : List α} {bs : List β} (h : l.mapM f = .ok bs) :
    List.Forall₂ (fun a b => f a = .ok b) l bs := by
  induction l generalizing bs with
  | nil =>
    rw [List.mapM_nil, pure_eq_ok] at h
    exact h ▸ .nil
  | cons a l ih =>
    obtain ⟨b, bs', hb, hbs, rfl⟩ := mapM_cons_eq_ok.mp h
    exact .cons hb (ih hbs)

/-- The results are those of the elements. -/
theorem mem_of_mapM {f : α → Except ε β} {l : List α} {bs : List β} (h : l.mapM f = .ok bs)
    {b : β} : b ∈ bs ↔ ∃ a ∈ l, f a = .ok b := by
  induction l generalizing bs with
  | nil =>
    rw [List.mapM_nil, pure_eq_ok] at h
    simp [← h]
  | cons a l ih =>
    obtain ⟨b', bs', hb', hbs, rfl⟩ := mapM_cons_eq_ok.mp h
    rw [List.mem_cons, ih hbs]
    constructor
    · rintro (rfl | ⟨other, hother, hb⟩)
      · exact ⟨a, List.mem_cons_self, hb'⟩
      · exact ⟨other, List.mem_cons_of_mem a hother, hb⟩
    · rintro ⟨other, hother, hb⟩
      rcases List.mem_cons.mp hother with rfl | hother
      · rw [hb', Except.ok.injEq] at hb
        exact Or.inl hb.symm
      · exact Or.inr ⟨other, hother, hb⟩

theorem mapM_ok_iff {f : α → Except ε β} {l : List α} :
    (∃ bs, l.mapM f = .ok bs) ↔ ∀ a ∈ l, ∃ b, f a = .ok b := by
  induction l with
  | nil => simp
  | cons a l ih =>
    simp only [mapM_cons_eq_ok, List.forall_mem_cons, ← ih]
    constructor
    · rintro ⟨_, b, bs, hb, hbs, -⟩
      exact ⟨⟨b, hb⟩, bs, hbs⟩
    · rintro ⟨⟨b, hb⟩, bs, hbs⟩
      exact ⟨_, b, bs, hb, hbs, rfl⟩

/-- A map whose every image has a common inverse succeeds with the list of preimages. -/
theorem mapM_map_eq_ok {f : α → Except ε β} {g : β → α} (hf : ∀ b, f (g b) = .ok b) (bs : List β) :
    (bs.map g).mapM f = .ok bs := by
  induction bs with
  | nil => rfl
  | cons b bs ih => exact mapM_cons_eq_ok.mpr ⟨b, bs, hf b, ih, rfl⟩

/-- A property that every successful step keeps is kept by a successful fold. -/
theorem foldlM_inv {f : β → α → Except ε β} {P : β → Prop} {l : List α}
    (hstep : ∀ b, ∀ a ∈ l, ∀ b', P b → f b a = .ok b' → P b') {b b' : β} (hb : P b)
    (h : l.foldlM f b = .ok b') : P b' := by
  induction l generalizing b with
  | nil =>
    rw [List.foldlM_nil, pure_eq_ok] at h
    exact h ▸ hb
  | cons a l ih =>
    rw [List.foldlM_cons, bind_eq_ok] at h
    obtain ⟨c, hc, hl⟩ := h
    have hPc : P c := hstep b a List.mem_cons_self c hb hc
    exact ih (fun b x hx b' => hstep b x (List.mem_cons_of_mem a hx) b') hPc hl

end Outcome
