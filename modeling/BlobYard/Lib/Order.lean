/-
Query results in a stated order.

`orderBy f` sorts rows by a computed column `f` into a linear order: an `ORDER BY`
clause with several columns is a lexicographic column, a `DESC` column is one in
the dual order.  The sort is stable and evaluates in the kernel.

* `orderBy_perm`, `mem_orderBy` — the same rows come back;
* `orderBy_pairwise` — they come back in order;
* `orderBy_congr`, `orderBy_filter` — the order depends on the rows alone, and a selection comes
  in the same order, when the column tells them apart;
* `mem_drop_iff` — which rows an `OFFSET` leaves out.
-/
import Mathlib.Data.List.Sort
import Mathlib.Data.Prod.Lex
import Mathlib.Data.String.Basic

variable {α κ : Type} [LinearOrder κ]

/-- The rows sorted by the column `f`. -/
def orderBy (f : α → κ) (l : List α) : List α :=
  l.insertionSort fun a b => f a ≤ f b

theorem orderBy_perm (f : α → κ) (l : List α) : (orderBy f l).Perm l :=
  List.perm_insertionSort _ l

@[simp] theorem mem_orderBy {f : α → κ} {l : List α} {a : α} : a ∈ orderBy f l ↔ a ∈ l :=
  (orderBy_perm f l).mem_iff

theorem orderBy_pairwise (f : α → κ) (l : List α) :
    (orderBy f l).Pairwise fun a b => f a ≤ f b := by
  have : IsTrans α fun a b => f a ≤ f b := ⟨fun _ _ _ => le_trans⟩
  have : Std.Total fun a b : α => f a ≤ f b := ⟨fun a b => le_total (f a) (f b)⟩
  exact List.pairwise_insertionSort _ l

theorem orderBy_nodup {f : α → κ} {l : List α} (h : l.Nodup) : (orderBy f l).Nodup :=
  (orderBy_perm f l).nodup_iff.mpr h

/-- Rows with different columns come back in strict order. -/
theorem orderBy_strict {f : α → κ} {l : List α} (hnodup : l.Nodup)
    (hinj : ∀ a ∈ l, ∀ b ∈ l, f a = f b → a = b) :
    (orderBy f l).Pairwise fun a b => f a < f b := by
  have hne : (orderBy f l).Pairwise fun a b => a ≠ b := orderBy_nodup hnodup
  refine ((orderBy_pairwise f l).and hne).imp_of_mem ?_
  rintro a b ha hb ⟨hle, hab⟩
  refine lt_of_le_of_ne hle fun he => hab ?_
  exact hinj a (mem_orderBy.mp ha) b (mem_orderBy.mp hb) he

/-- The same rows in the same order, when the column tells them apart. -/
theorem orderBy_congr {f : α → κ} {l l' : List α} (hnodup : l.Nodup) (hnodup' : l'.Nodup)
    (hinj : ∀ a ∈ l, ∀ b ∈ l, f a = f b → a = b) (h : ∀ a, a ∈ l ↔ a ∈ l') :
    orderBy f l = orderBy f l' := by
  have hperm : (orderBy f l).Perm (orderBy f l') :=
    ((orderBy_perm f l).trans ((List.perm_ext_iff_of_nodup hnodup hnodup').mpr h)).trans
      (orderBy_perm f l').symm
  have hinj' : ∀ a ∈ l', ∀ b ∈ l', f a = f b → a = b :=
    fun a ha b hb => hinj a ((h a).mpr ha) b ((h b).mpr hb)
  exact hperm.eq_of_pairwise (fun a b _ _ hab hba => absurd hab (lt_asymm hba))
    (orderBy_strict hnodup hinj) (orderBy_strict hnodup' hinj')

/-- Selecting rows and sorting them may be exchanged, when the column tells the rows apart. -/
theorem orderBy_filter {f : α → κ} {l : List α} (hnodup : l.Nodup)
    (hinj : ∀ a ∈ l, ∀ b ∈ l, f a = f b → a = b) (p : α → Bool) :
    orderBy f (l.filter p) = (orderBy f l).filter p := by
  have hperm : (orderBy f (l.filter p)).Perm ((orderBy f l).filter p) :=
    (orderBy_perm f _).trans ((orderBy_perm f l).symm.filter p)
  have hinj' : ∀ a ∈ l.filter p, ∀ b ∈ l.filter p, f a = f b → a = b :=
    fun a ha b hb => hinj a (List.mem_of_mem_filter ha) b (List.mem_of_mem_filter hb)
  exact hperm.eq_of_pairwise (fun a b _ _ hab hba => absurd hab (lt_asymm hba))
    (orderBy_strict (hnodup.filter p) hinj') ((orderBy_strict hnodup hinj).filter p)

/-- In a strictly sorted list, an element survives the dropping of `n` elements exactly when
at least `n` elements come before it. -/
theorem mem_drop_iff {f : α → κ} {l : List α} (h : l.Pairwise fun a b => f a < f b) {n : ℕ}
    {x : α} (hx : x ∈ l) : x ∈ l.drop n ↔ n ≤ l.countP fun a => decide (f a < f x) := by
  induction l generalizing n with
  | nil => cases hx
  | cons a l ih =>
    obtain ⟨ha, hl⟩ := List.pairwise_cons.mp h
    cases n with
    | zero => simpa using hx
    | succ n =>
      rw [List.drop_succ_cons, List.countP_cons]
      rcases List.mem_cons.mp hx with rfl | hx
      -- nothing comes before the head
      · have hnone : l.countP (fun a => decide (f a < f x)) = 0 := by
          refine List.countP_eq_zero.mpr fun b hb => ?_
          simpa using le_of_lt (ha b hb)
        have hnot : x ∉ l.drop n := fun hmem =>
          absurd (ha x (List.mem_of_mem_drop hmem)) (lt_irrefl _)
        simp [hnone, hnot]
      · have hlt : f a < f x := ha x hx
        rw [ih hl hx]
        simp [hlt]

/-- The largest number of a list, zero for the empty list. -/
def maximum (l : List ℕ) : ℕ := l.foldr max 0

theorem le_maximum {l : List ℕ} {n : ℕ} (h : n ∈ l) : n ≤ maximum l := by
  induction l with
  | nil => cases h
  | cons a l ih =>
    rw [maximum, List.foldr_cons]
    rcases List.mem_cons.mp h with rfl | h
    · exact le_max_left _ _
    · exact le_trans (ih h) (le_max_right _ _)

example : orderBy (fun p : String × ℕ => toLex (p.1, OrderDual.toDual p.2))
    [("b", 1), ("a", 2), ("a", 3)] = [("a", 3), ("a", 2), ("b", 1)] := by decide
