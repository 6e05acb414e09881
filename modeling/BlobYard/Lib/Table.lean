/-
Relational tables with a primary key.

A `Table key` is a finite list of rows whose keys are pairwise distinct: the
uniqueness is a field of the structure, so no table with a duplicate key can be
built and no later proof has to re-establish it.  The operations are those of a
small SQL dialect (lookup by key, insert, guarded update, delete, aggregate), and
each one comes with its membership rule:

* `Table.mem_insert`, `Table.mem_update`, `Table.mem_erase` — the rows afterwards;
* `Table.find?_eq_some` — a lookup returns the one row with that key;
* `Table.eq_of_key` — two rows with one key are the same row;
* `Table.Inserted`, `Table.Replaced`, `Table.Removed` — what an insertion, an update and a
  deletion of one row did, to the rows and to every aggregate;
* `Table.inserted_of_insert`, `Table.replaced_update`, `Table.removed_erase` — the operations
  do just that;
* `Table.Mapped` — every row rewritten by one function;
* `Table.UniqueOn` — a further column on which no two rows agree.
-/
import Mathlib.Data.List.Basic
import Mathlib.Data.List.Nodup
import Mathlib.Algebra.BigOperators.Group.List.Basic
import Mathlib.Algebra.GroupWithZero.Nat
import Mathlib.Algebra.Order.BigOperators.Group.List
import Mathlib.Algebra.Order.Group.Nat

/-- Rows of type `ρ` under the primary key `key`, no two with the same key. -/
structure Table {ρ κ : Type} (key : ρ → κ) where
  rows : List ρ
  unique : (rows.map key).Nodup

namespace Table

variable {ρ κ : Type} {key : ρ → κ}

instance : Membership ρ (Table key) := ⟨fun t r => r ∈ t.rows⟩

theorem mem_def {t : Table key} {r : ρ} : r ∈ t ↔ r ∈ t.rows := Iff.rfl

/-- The table without rows. -/
def empty : Table key := ⟨[], List.nodup_nil⟩

instance : EmptyCollection (Table key) := ⟨empty⟩

instance : Inhabited (Table key) := ⟨∅⟩

instance [DecidableEq ρ] : DecidableEq (Table key) := fun t u =>
  decidable_of_iff (t.rows = u.rows) (by cases t; cases u; simp)

instance (t : Table key) (p : ρ → Prop) [DecidablePred p] : Decidable (∃ r ∈ t, p r) :=
  inferInstanceAs (Decidable (∃ r ∈ t.rows, p r))

instance (t : Table key) (p : ρ → Prop) [DecidablePred p] : Decidable (∀ r ∈ t, p r) :=
  inferInstanceAs (Decidable (∀ r ∈ t.rows, p r))

instance [DecidableEq ρ] (t : Table key) (r : ρ) : Decidable (r ∈ t) :=
  inferInstanceAs (Decidable (r ∈ t.rows))

@[simp] theorem not_mem_empty {r : ρ} : r ∉ (∅ : Table key) := List.not_mem_nil

theorem ext_rows {t u : Table key} (h : t.rows = u.rows) : t = u := by
  cases t
  cases u
  cases h
  rfl

/-- Two rows with one key are the same row. -/
theorem eq_of_key {t : Table key} {r r' : ρ} (hr : r ∈ t) (hr' : r' ∈ t)
    (h : key r = key r') : r = r' :=
  List.inj_on_of_nodup_map t.unique hr hr' h

/-! ### Lookup -/

section Lookup

variable [DecidableEq κ]

/-- The row with key `k`. -/
def find? (t : Table key) (k : κ) : Option ρ := t.rows.find? fun r => decide (key r = k)

theorem find?_eq_some {t : Table key} {k : κ} {r : ρ} :
    t.find? k = some r ↔ r ∈ t ∧ key r = k := by
  constructor
  · intro h
    exact ⟨List.mem_of_find?_eq_some h, by simpa using List.find?_some h⟩
  · rintro ⟨hr, rfl⟩
    cases hf : t.find? (key r) with
    | none =>
      have hne := List.find?_eq_none.mp hf r hr
      simp at hne
    | some r' =>
      have hk : key r' = key r := by simpa using List.find?_some hf
      rw [eq_of_key (List.mem_of_find?_eq_some hf) hr hk]

theorem find?_eq_none {t : Table key} {k : κ} :
    t.find? k = none ↔ ∀ r ∈ t, key r ≠ k := by
  simp [find?, List.find?_eq_none, mem_def]

theorem find?_key {t : Table key} {r : ρ} (hr : r ∈ t) : t.find? (key r) = some r :=
  find?_eq_some.mpr ⟨hr, rfl⟩

end Lookup

/-! ### Insertion -/

section Insert

variable [DecidableEq κ]

/-- Appends a row; `none` when its key is taken (a constraint violation). -/
def insert? (t : Table key) (r : ρ) : Option (Table key) :=
  if h : key r ∈ t.rows.map key then none
  else some ⟨t.rows ++ [r], by
    rw [List.map_append]
    exact List.Nodup.append t.unique (List.nodup_singleton _) (by simpa using h)⟩

theorem insert?_eq_some {t t' : Table key} {r : ρ} :
    t.insert? r = some t' ↔ (∀ x ∈ t, key x ≠ key r) ∧ t'.rows = t.rows ++ [r] := by
  unfold insert?
  split
  · rename_i h
    obtain ⟨x, hx, hk⟩ := List.mem_map.mp h
    constructor
    · intro h'
      cases h'
    · rintro ⟨hfresh, -⟩
      exact absurd hk (hfresh x hx)
  · rename_i h
    rw [Option.some.injEq]
    constructor
    · rintro rfl
      exact ⟨fun x hx hk => h (List.mem_map.mpr ⟨x, hx, hk⟩), rfl⟩
    · rintro ⟨-, hrows⟩
      exact ext_rows hrows.symm

theorem insert?_isSome {t : Table key} {r : ρ} (h : ∀ x ∈ t, key x ≠ key r) :
    ∃ t', t.insert? r = some t' := by
  refine ⟨⟨t.rows ++ [r], ?_⟩, insert?_eq_some.mpr ⟨h, rfl⟩⟩
  rw [List.map_append]
  refine List.Nodup.append t.unique (List.nodup_singleton _) ?_
  simpa [mem_def] using h

/-- The rows after an insertion are the old ones and the new one. -/
theorem mem_insert {t t' : Table key} {r x : ρ} (h : t.insert? r = some t') :
    x ∈ t' ↔ x ∈ t ∨ x = r := by
  rw [mem_def, (insert?_eq_some.mp h).2]
  simp [mem_def]

theorem fresh_of_insert {t t' : Table key} {r x : ρ} (h : t.insert? r = some t')
    (hx : x ∈ t) : key x ≠ key r :=
  (insert?_eq_some.mp h).1 x hx

/-- A lookup after an insertion. -/
theorem find?_insert {t t' : Table key} {r : ρ} (h : t.insert? r = some t') (k : κ) :
    t'.find? k = if k = key r then some r else t.find? k := by
  split
  · rename_i hk
    exact find?_eq_some.mpr ⟨(mem_insert h).mpr (Or.inr rfl), hk.symm⟩
  · rename_i hk
    refine Option.ext fun x => ?_
    rw [find?_eq_some, find?_eq_some, mem_insert h]
    constructor
    · rintro ⟨hx | rfl, hkey⟩
      · exact ⟨hx, hkey⟩
      · exact absurd hkey.symm hk
    · rintro ⟨hx, hkey⟩
      exact ⟨Or.inl hx, hkey⟩

/-- A refused insertion found its key taken. -/
theorem exists_of_insert_none {t : Table key} {r : ρ} (h : t.insert? r = none) :
    ∃ x ∈ t, key x = key r := by
  by_contra hfree
  push Not at hfree
  obtain ⟨t', ht'⟩ := insert?_isSome hfree
  rw [h] at ht'
  cases ht'

end Insert

/-! ### Update and deletion -/

/-- Rewrites the rows that satisfy `p`; the key of a row never changes. -/
def update (t : Table key) (p : ρ → Prop) [DecidablePred p] (f : ρ → ρ)
    (hf : ∀ r, key (f r) = key r := by intro _; rfl) : Table key where
  rows := t.rows.map fun r => if p r then f r else r
  unique := by
    have h : (t.rows.map fun r => if p r then f r else r).map key = t.rows.map key := by
      rw [List.map_map]
      refine List.map_congr_left fun r _ => ?_
      by_cases hp : p r
      · simp [hp, hf]
      · simp [hp]
    exact h ▸ t.unique

/-- Deletes the rows that satisfy `p`. -/
def erase (t : Table key) (p : ρ → Prop) [DecidablePred p] : Table key where
  rows := t.rows.filter fun r => decide ¬p r
  unique := t.unique.sublist (List.filter_sublist.map key)

/-- The rows that satisfy `p`, in table order. -/
def select (t : Table key) (p : ρ → Prop) [DecidablePred p] : List ρ :=
  t.rows.filter fun r => decide (p r)

/-- The number of rows that satisfy `p`. -/
def count (t : Table key) (p : ρ → Prop) [DecidablePred p] : ℕ :=
  t.rows.countP fun r => decide (p r)

section Rules

variable {t : Table key} {p : ρ → Prop} [DecidablePred p] {f : ρ → ρ}
  {hf : ∀ r, key (f r) = key r}

/-- The rows after an update are the images of the old ones. -/
theorem mem_update {x : ρ} :
    x ∈ t.update p f hf ↔ ∃ r ∈ t, x = if p r then f r else r := by
  simp [mem_def, update, eq_comm]

theorem mem_erase {x : ρ} : x ∈ t.erase p ↔ x ∈ t ∧ ¬p x := by
  simp [mem_def, erase]

@[simp] theorem mem_select {x : ρ} : x ∈ t.select p ↔ x ∈ t ∧ p x := by
  simp [mem_def, select]

theorem select_nodup : (t.select p).Nodup :=
  (List.Nodup.of_map key t.unique).filter _

theorem find?_update [DecidableEq κ] {k : κ} :
    (t.update p f hf).find? k = (t.find? k).map fun r => if p r then f r else r := by
  cases h : t.find? k with
  | none =>
    rw [Option.map_none, find?_eq_none]
    intro x hx
    obtain ⟨r, hr, rfl⟩ := mem_update.mp hx
    have hk : key r ≠ k := find?_eq_none.mp h r hr
    by_cases hp : p r
    · simpa [hp, hf] using hk
    · simpa [hp] using hk
  | some r =>
    obtain ⟨hr, hk⟩ := find?_eq_some.mp h
    rw [Option.map_some, find?_eq_some]
    refine ⟨mem_update.mpr ⟨r, hr, rfl⟩, ?_⟩
    by_cases hp : p r
    · simpa [hp, hf] using hk
    · simpa [hp] using hk

/-- A lookup after the rows with one key have been deleted. -/
theorem find?_erase_key [DecidableEq κ] {k : κ} (other : κ) :
    (t.erase fun r => key r = k).find? other = if other = k then none else t.find? other := by
  split
  · rename_i hk
    rw [find?_eq_none]
    intro x hx hkey
    exact (mem_erase.mp hx).2 (hkey.trans hk)
  · rename_i hk
    refine Option.ext fun x => ?_
    rw [find?_eq_some, find?_eq_some, mem_erase]
    constructor
    · rintro ⟨⟨hx, -⟩, hkey⟩
      exact ⟨hx, hkey⟩
    · rintro ⟨hx, hkey⟩
      exact ⟨⟨hx, fun h => hk (hkey.symm.trans h)⟩, hkey⟩

theorem count_pos : 0 < t.count p ↔ ∃ r ∈ t, p r := by
  simp [count, List.countP_pos_iff, mem_def]

/-- An update that reports one changed row found a row to change. -/
theorem exists_of_count_eq_one (h : t.count p = 1) : ∃ r ∈ t, p r :=
  count_pos.mp (by omega)

omit [DecidablePred p] in
/-- A guard that holds of `r` alone splits the table around `r`. -/
private theorem split_at {r : ρ} (hr : r ∈ t) (hp : ∀ x ∈ t, p x ↔ x = r) :
    ∃ xs ys, t.rows = xs ++ r :: ys ∧ (∀ x ∈ xs, ¬p x) ∧ ∀ x ∈ ys, ¬p x := by
  obtain ⟨xs, ys, hrows⟩ := List.append_of_mem hr
  have hnd : t.rows.Nodup := List.Nodup.of_map key t.unique
  rw [hrows] at hnd
  have hr_not : r ∉ xs ++ ys := (List.nodup_middle.mp hnd).notMem
  refine ⟨xs, ys, hrows, fun x hx hpx => ?_, fun x hx hpx => ?_⟩
  · have hxr : x = r := (hp x (by simp [mem_def, hrows, hx])).mp hpx
    exact hr_not (List.mem_append_left _ (hxr ▸ hx))
  · have hxr : x = r := (hp x (by simp [mem_def, hrows, hx])).mp hpx
    exact hr_not (List.mem_append_right _ (hxr ▸ hx))

/-- A guard that holds of one row alone is counted once. -/
theorem count_eq_one {r : ρ} (hr : r ∈ t) (hp : ∀ x ∈ t, p x ↔ x = r) :
    t.count p = 1 := by
  obtain ⟨xs, ys, hrows, hxs, hys⟩ := split_at hr hp
  have hpr : p r := (hp r hr).mpr rfl
  rw [count, hrows, List.countP_append, List.countP_cons]
  rw [List.countP_eq_zero.mpr (by simpa using hxs), List.countP_eq_zero.mpr (by simpa using hys)]
  simp [hpr]

end Rules

/-! ### Aggregates -/

/-- The sum of `g` over the rows. -/
def sumBy (t : Table key) (g : ρ → ℕ) : ℕ := (t.rows.map g).sum

theorem sumBy_insert [DecidableEq κ] {t t' : Table key} {r : ρ} {g : ρ → ℕ}
    (h : t.insert? r = some t') : t'.sumBy g = t.sumBy g + g r := by
  rw [sumBy, (insert?_eq_some.mp h).2]
  simp [sumBy]

theorem sumBy_congr {t : Table key} {g g' : ρ → ℕ} (h : ∀ r ∈ t, g r = g' r) :
    t.sumBy g = t.sumBy g' := by
  rw [sumBy, sumBy, List.map_congr_left h]

theorem sumBy_eq_zero {t : Table key} {g : ρ → ℕ} (h : ∀ r ∈ t, g r = 0) : t.sumBy g = 0 := by
  refine List.sum_eq_zero fun n hn => ?_
  obtain ⟨r, hr, rfl⟩ := List.mem_map.mp hn
  exact h r hr

/-- An update that touches the one row `r` moves the sum by the change at `r`. -/
theorem sumBy_update {t : Table key} {p : ρ → Prop} [DecidablePred p] {f : ρ → ρ}
    {hf : ∀ r, key (f r) = key r} {g : ρ → ℕ} {r : ρ} (hr : r ∈ t)
    (hp : ∀ x ∈ t, p x ↔ x = r) :
    (t.update p f hf).sumBy g + g r = t.sumBy g + g (f r) := by
  obtain ⟨xs, ys, hrows, hxs, hys⟩ := split_at hr hp
  have hsame : ∀ l : List ρ, (∀ x ∈ l, ¬p x) →
      (l.map fun x => if p x then f x else x) = l := by
    intro l hl
    refine (List.map_congr_left fun x hx => ?_).trans (List.map_id' l)
    rw [if_neg (hl x hx)]
  have hpr : p r := (hp r hr).mpr rfl
  simp only [sumBy, update, hrows, List.map_append, List.map_cons, List.sum_append,
    List.sum_cons, hsame xs hxs, hsame ys hys, if_pos hpr]
  omega

/-- An update that leaves `g` unchanged row by row leaves the sum unchanged. -/
theorem sumBy_update_same {t : Table key} {p : ρ → Prop} [DecidablePred p] {f : ρ → ρ}
    {hf : ∀ r, key (f r) = key r} {g : ρ → ℕ} (h : ∀ r ∈ t, p r → g (f r) = g r) :
    (t.update p f hf).sumBy g = t.sumBy g := by
  rw [sumBy, sumBy, update, List.map_map]
  congr 1
  refine List.map_congr_left fun r hr => ?_
  by_cases hp : p r
  · simpa [hp] using h r hr hp
  · simp [hp]

/-- A deletion takes the deleted rows out of the sum. -/
theorem sumBy_erase {t : Table key} {p : ρ → Prop} [DecidablePred p] {g : ρ → ℕ} :
    (t.erase p).sumBy g + (t.sumBy fun r => if p r then g r else 0) = t.sumBy g := by
  simp only [sumBy, erase]
  induction t.rows with
  | nil => rfl
  | cons r l ih =>
    rw [List.filter_cons]
    by_cases hp : p r
    · simp only [hp, not_true, decide_false, Bool.false_eq_true, if_false, if_true, List.map_cons,
        List.sum_cons]
      omega
    · simp only [hp, not_false_eq_true, decide_true, if_true, if_false, List.map_cons,
        List.sum_cons]
      omega

theorem sumBy_erase_le {t : Table key} {p : ρ → Prop} [DecidablePred p] {g : ρ → ℕ} :
    (t.erase p).sumBy g ≤ t.sumBy g := by
  have hsum : (t.erase p).sumBy g + _ = t.sumBy g := sumBy_erase
  omega

/-- A deletion of rows that do not count leaves the sum unchanged. -/
theorem sumBy_erase_same {t : Table key} {p : ρ → Prop} [DecidablePred p] {g : ρ → ℕ}
    (h : ∀ r ∈ t, p r → g r = 0) : (t.erase p).sumBy g = t.sumBy g := by
  have hsum : (t.erase p).sumBy g + _ = t.sumBy g := sumBy_erase
  have hzero : (t.sumBy fun r => if p r then g r else 0) = 0 := by
    refine sumBy_eq_zero fun r hr => ?_
    by_cases hp : p r
    · rw [if_pos hp, h r hr hp]
    · rw [if_neg hp]
  omega

/-- A sum to which one row alone contributes. -/
theorem sumBy_eq_single {t : Table key} {g : ρ → ℕ} {r : ρ} (hr : r ∈ t)
    (h : ∀ x ∈ t, x ≠ r → g x = 0) : t.sumBy g = g r := by
  obtain ⟨xs, ys, hrows, hxs, hys⟩ := split_at (p := fun x => x = r) hr fun _ _ => Iff.rfl
  have hnone : ∀ l : List ρ, (∀ x ∈ l, x ∈ t.rows ∧ ¬x = r) → (l.map g).sum = 0 := by
    intro l hl
    refine List.sum_eq_zero fun n hn => ?_
    obtain ⟨x, hx, rfl⟩ := List.mem_map.mp hn
    exact h x (hl x hx).1 (hl x hx).2
  have hleft := hnone xs fun x hx => ⟨by simp [hrows, hx], hxs x hx⟩
  have hright := hnone ys fun x hx => ⟨by simp [hrows, hx], hys x hx⟩
  rw [sumBy, hrows, List.map_append, List.map_cons, List.sum_append, List.sum_cons, hleft, hright]
  omega

/-! ### Effects of the single-row statements -/

/-- `t'` is `t` with the one new row `r`. -/
structure Inserted (t t' : Table key) (r : ρ) : Prop where
  fresh : ∀ x ∈ t, key x ≠ key r
  mem : ∀ x, x ∈ t' ↔ x ∈ t ∨ x = r
  sum : ∀ g : ρ → ℕ, t'.sumBy g = t.sumBy g + g r

/-- `t'` is `t` with the one row `r` rewritten to `r'`. -/
structure Replaced (t t' : Table key) (r r' : ρ) : Prop where
  mem_old : r ∈ t
  key_eq : key r' = key r
  mem : ∀ x, x ∈ t' ↔ (x ∈ t ∧ x ≠ r) ∨ x = r'
  sum : ∀ g : ρ → ℕ, t'.sumBy g + g r = t.sumBy g + g r'

/-- `t'` is `t` without the one row `r`. -/
structure Removed (t t' : Table key) (r : ρ) : Prop where
  mem_old : r ∈ t
  mem : ∀ x, x ∈ t' ↔ x ∈ t ∧ x ≠ r
  sum : ∀ g : ρ → ℕ, t'.sumBy g + g r = t.sumBy g

theorem inserted_of_insert [DecidableEq κ] {t t' : Table key} {r : ρ}
    (h : t.insert? r = some t') : Inserted t t' r where
  fresh _ hx := fresh_of_insert h hx
  mem _ := mem_insert h
  sum _ := sumBy_insert h

theorem replaced_update {t : Table key} {p : ρ → Prop} [DecidablePred p] {f : ρ → ρ}
    {r : ρ} (hr : r ∈ t) (hp : ∀ x ∈ t, p x ↔ x = r)
    (hf : ∀ r, key (f r) = key r := by intro _; rfl) : Replaced t (t.update p f hf) r (f r) where
  mem_old := hr
  key_eq := hf r
  mem x := by
    rw [mem_update]
    constructor
    · rintro ⟨y, hy, rfl⟩
      by_cases hpy : p y
      · right
        rw [if_pos hpy, (hp y hy).mp hpy]
      · left
        rw [if_neg hpy]
        exact ⟨hy, fun hyr => hpy ((hp y hy).mpr hyr)⟩
    · rintro (⟨hx, hne⟩ | rfl)
      · exact ⟨x, hx, by rw [if_neg fun hpx => hne ((hp x hx).mp hpx)]⟩
      · exact ⟨r, hr, by rw [if_pos ((hp r hr).mpr rfl)]⟩
  sum _ := sumBy_update hr hp

theorem removed_erase {t : Table key} {p : ρ → Prop} [DecidablePred p] {r : ρ} (hr : r ∈ t)
    (hp : ∀ x ∈ t, p x ↔ x = r) : Removed t (t.erase p) r where
  mem_old := hr
  mem x := by
    rw [mem_erase]
    exact and_congr_right fun hx => not_congr (hp x hx)
  sum g := by
    have hsum : (t.erase p).sumBy g + _ = t.sumBy g := sumBy_erase
    have hsingle : (t.sumBy fun x => if p x then g x else 0) = g r := by
      refine (sumBy_eq_single hr fun x hx hne => ?_).trans (if_pos ((hp r hr).mpr rfl))
      rw [if_neg fun hpx => hne ((hp x hx).mp hpx)]
    omega

/-- A guard that fixes the key and holds of `r` holds of `r` alone. -/
theorem guard_iff_eq {t : Table key} {q : ρ → Prop} {r : ρ} (hr : r ∈ t) (hq : q r) :
    ∀ x ∈ t, (key x = key r ∧ q x) ↔ x = r := by
  intro x hx
  constructor
  · rintro ⟨hk, -⟩
    exact eq_of_key hx hr hk
  · rintro rfl
    exact ⟨rfl, hq⟩

theorem Replaced.mem_new {t t' : Table key} {r r' : ρ} (h : Replaced t t' r r') : r' ∈ t' :=
  (h.mem r').mpr (Or.inr rfl)

theorem Inserted.mem_new {t t' : Table key} {r : ρ} (h : Inserted t t' r) : r ∈ t' :=
  (h.mem r).mpr (Or.inr rfl)

theorem Inserted.mem_of_mem {t t' : Table key} {r x : ρ} (h : Inserted t t' r) (hx : x ∈ t) :
    x ∈ t' :=
  (h.mem x).mpr (Or.inl hx)

/-! ### Rewriting every row -/

/-- `t'` is `t` with every row rewritten by `f`, which keeps the key. -/
structure Mapped (t t' : Table key) (f : ρ → ρ) : Prop where
  key_eq : ∀ r ∈ t, key (f r) = key r
  rows : t'.rows = t.rows.map f

theorem mapped_update {t : Table key} {p : ρ → Prop} [DecidablePred p] {f : ρ → ρ}
    (hf : ∀ r, key (f r) = key r := by intro _; rfl) :
    Mapped t (t.update p f hf) fun r => if p r then f r else r where
  key_eq r _ := by
    by_cases hp : p r
    · simp [hp, hf]
    · simp [hp]
  rows := rfl

theorem Mapped.refl (t : Table key) : Mapped t t id :=
  ⟨fun _ _ => rfl, t.rows.map_id.symm⟩

namespace Mapped

variable {t t' t'' : Table key} {f g : ρ → ρ}

theorem mem_iff (h : Mapped t t' f) {x : ρ} : x ∈ t' ↔ ∃ r ∈ t, x = f r := by
  rw [mem_def, h.rows, List.mem_map]
  exact ⟨fun ⟨r, hr, he⟩ => ⟨r, hr, he.symm⟩, fun ⟨r, hr, he⟩ => ⟨r, hr, he.symm⟩⟩

theorem mem_of_mem (h : Mapped t t' f) {r : ρ} (hr : r ∈ t) : f r ∈ t' :=
  h.mem_iff.mpr ⟨r, hr, rfl⟩

/-- A row that is rewritten to itself stays. -/
theorem mem_of_fixed (h : Mapped t t' f) {r : ρ} (hr : r ∈ t) (hf : f r = r) : r ∈ t' :=
  hf ▸ h.mem_of_mem hr

theorem trans (h : Mapped t t' f) (h' : Mapped t' t'' g) : Mapped t t'' fun r => g (f r) where
  key_eq r hr := (h'.key_eq (f r) (h.mem_of_mem hr)).trans (h.key_eq r hr)
  rows := by rw [h'.rows, h.rows, List.map_map, Function.comp_def]

theorem sum (h : Mapped t t' f) (g : ρ → ℕ) : t'.sumBy g = t.sumBy fun r => g (f r) := by
  rw [sumBy, h.rows, List.map_map, Function.comp_def, sumBy]

theorem count (h : Mapped t t' f) (p : ρ → Prop) [DecidablePred p] :
    t'.count p = t.count fun r => p (f r) := by
  rw [Table.count, h.rows, List.countP_map, Table.count]
  rfl

theorem congr (h : Mapped t t' f) (hg : ∀ r ∈ t, f r = g r) : Mapped t t' g where
  key_eq r hr := hg r hr ▸ h.key_eq r hr
  rows := h.rows.trans (List.map_congr_left hg)

end Mapped

theorem sumBy_le {t : Table key} {g g' : ρ → ℕ} (h : ∀ r ∈ t, g r ≤ g' r) :
    t.sumBy g ≤ t.sumBy g' :=
  List.sum_le_sum h

/-- Summing an indicator counts the selected rows. -/
theorem sumBy_indicator {t : Table key} {p : ρ → Prop} [DecidablePred p] :
    (t.sumBy fun r => if p r then 1 else 0) = (t.select p).length := by
  rw [sumBy, select]
  induction t.rows with
  | nil => rfl
  | cons r l ih =>
    rw [List.map_cons, List.sum_cons, ih, List.filter_cons]
    by_cases hp : p r
    · simp only [hp, if_true, decide_true, List.length_cons]
      omega
    · simp only [hp, if_false, decide_false, Bool.false_eq_true]
      omega

/-! ### Counting -/

section Counting

variable {t t' : Table key} {r r' : ρ} (p : ρ → Prop) [DecidablePred p]

/-- A count is the sum of an indicator. -/
theorem count_eq_sumBy : t.count p = t.sumBy fun r => if p r then 1 else 0 := by
  rw [sumBy_indicator, count, select, List.countP_eq_length_filter]

theorem Inserted.count (h : Inserted t t' r) :
    t'.count p = t.count p + if p r then 1 else 0 := by
  rw [count_eq_sumBy, count_eq_sumBy, h.sum]

theorem Replaced.count (h : Replaced t t' r r') :
    (t'.count p + if p r then 1 else 0) = t.count p + if p r' then 1 else 0 := by
  rw [count_eq_sumBy, count_eq_sumBy, h.sum fun x => if p x then 1 else 0]

theorem Removed.count (h : Removed t t' r) :
    (t'.count p + if p r then 1 else 0) = t.count p := by
  rw [count_eq_sumBy, count_eq_sumBy, h.sum fun x => if p x then 1 else 0]

/-- A weaker guard counts at least as many rows. -/
theorem count_mono {q : ρ → Prop} [DecidablePred q] (h : ∀ r ∈ t, p r → q r) :
    t.count p ≤ t.count q := by
  refine List.countP_mono_left fun r hr hp => ?_
  exact decide_eq_true (h r hr (of_decide_eq_true hp))

theorem count_erase_le {q : ρ → Prop} [DecidablePred q] : (t.erase q).count p ≤ t.count p := by
  rw [count_eq_sumBy, count_eq_sumBy]
  exact sumBy_erase_le

/-- A replacement that does not turn the guard on lowers the count at most. -/
theorem Replaced.count_le (h : Replaced t t' r r') (hp : p r' → p r) :
    t'.count p ≤ t.count p := by
  have hcount := h.count p
  by_cases hr : p r
  · rw [if_pos hr] at hcount
    split at hcount <;> omega
  · rw [if_neg hr, if_neg fun hr' => hr (hp hr')] at hcount
    omega

theorem count_eq_zero : t.count p = 0 ↔ ∀ r ∈ t, ¬p r := by
  simp [count, List.countP_eq_zero, mem_def]

end Counting

/-! ### Further unique columns -/

/-- No two rows agree on `f`. -/
def UniqueOn {β : Type} (t : Table key) (f : ρ → β) : Prop :=
  ∀ x ∈ t, ∀ y ∈ t, f x = f y → x = y

theorem UniqueOn.insert {β : Type} {t t' : Table key} {f : ρ → β} {r : ρ} (h : t.UniqueOn f)
    (hi : Inserted t t' r) (hr : ∀ x ∈ t, f x ≠ f r) : t'.UniqueOn f := by
  intro x hx y hy hf
  rcases (hi.mem x).mp hx with hx | rfl <;> rcases (hi.mem y).mp hy with hy | rfl
  · exact h x hx y hy hf
  · exact absurd hf (hr x hx)
  · exact absurd hf.symm (hr y hy)
  · rfl

theorem UniqueOn.replace {β : Type} {t t' : Table key} {f : ρ → β} {r r' : ρ}
    (h : t.UniqueOn f) (hi : Replaced t t' r r') (hr : f r' = f r) : t'.UniqueOn f := by
  intro x hx y hy hf
  rcases (hi.mem x).mp hx with ⟨hx, hxr⟩ | rfl <;> rcases (hi.mem y).mp hy with ⟨hy, hyr⟩ | rfl
  · exact h x hx y hy hf
  · exact absurd (h x hx r hi.mem_old (hf.trans hr)) hxr
  · exact absurd (h y hy r hi.mem_old (hf.symm.trans hr)) hyr
  · rfl

theorem UniqueOn.mapped {β : Type} {t t' : Table key} {f : ρ → β} {g : ρ → ρ}
    (h : t.UniqueOn f) (hm : Mapped t t' g) (hg : ∀ r ∈ t, f (g r) = f r) : t'.UniqueOn f := by
  intro x hx y hy hf
  obtain ⟨r, hr, rfl⟩ := hm.mem_iff.mp hx
  obtain ⟨r', hr', rfl⟩ := hm.mem_iff.mp hy
  rw [hg r hr, hg r' hr'] at hf
  rw [h r hr r' hr' hf]

theorem UniqueOn.erase {β : Type} {t : Table key} {f : ρ → β} {p : ρ → Prop} [DecidablePred p]
    (h : t.UniqueOn f) : (t.erase p).UniqueOn f :=
  fun x hx y hy => h x (mem_erase.mp hx).1 y (mem_erase.mp hy).1

end Table
