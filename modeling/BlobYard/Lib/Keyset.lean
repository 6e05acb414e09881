/-
Listings in pages.

A listing has an order, which a key of its rows gives.  A page that is not the last comes with a
cursor, made from its last row, and the next page begins behind the cursor.

* `Follows` — what is handed out when every cursor is followed, up to a page without one;
* `Behind`, `Paged` — the rows behind a cursor, and a listing that cuts them into pages;
* `pageAt_fetched` — a page that is cut off rows of which one more was fetched;
* `Paged.follows` — following its cursors visits every row once, in order, and stops;
* `Paged.follows_written` — the same with cursors that are written and read again.
-/
import BlobYard.Lib.Order

namespace BlobYard

namespace Keyset

variable {α β γ δ κ ε π : Type}

/-! ### Following the cursors -/

/-- From the cursor on, the pages of the listing hand out the items, and the last of them comes
without a cursor. -/
inductive Follows (list : Option γ → Except ε π) (items : π → List β) (next : π → Option γ) :
    Option γ → List β → Prop
  | last {cursor : Option γ} {page : π} (hpage : list cursor = .ok page)
      (hlast : next page = none) : Follows list items next cursor (items page)
  | next {cursor : Option γ} {page : π} {position : γ} {rest : List β}
      (hpage : list cursor = .ok page) (hnext : next page = some position)
      (hrest : Follows list items next (some position) rest) :
      Follows list items next cursor (items page ++ rest)

variable {list : Option γ → Except ε π} {items : π → List β} {next : π → Option γ}

/-! ### Written cursors -/

/-- The listing with its cursors as texts. -/
def written (list : Option γ → Except ε π) (decode : Option δ → Except ε (Option γ))
    (cursor : Option δ) : Except ε π := do
  let position ← decode cursor
  list position

/-! ### Pages of an ordered listing -/

section Pages

variable [LinearOrder κ] {cursor : α → γ} {key : γ → κ} {rows : List α} {read : α → β}
  {limit : ℕ}

/-- The row comes behind the position, or there is no position. -/
def Behind (cursor : α → γ) (key : γ → κ) (position : Option γ) (row : α) : Prop :=
  ∀ p ∈ position, key p < key (cursor row)

instance (position : Option γ) : DecidablePred (Behind cursor key position) :=
  fun row => inferInstanceAs (Decidable (∀ p ∈ position, key p < key (cursor row)))

/-- The rows behind the position, in order. -/
def rowsBehind (cursor : α → γ) (key : γ → κ) (rows : List α) (position : Option γ) : List α :=
  orderBy (fun row => key (cursor row)) (rows.filter fun row => Behind cursor key position row)

/-- The page has the first rows behind the position, and the cursor of the last of them if there
are more. -/
structure PageAt (cursor : α → γ) (read : α → β) (limit : ℕ) (items : List β) (next : Option γ)
    (behind : List α) : Prop where
  items : items = (behind.take limit).map read
  next : next = if limit < behind.length then behind[limit - 1]?.map cursor else none

/-- The listing answers with the page at the start and at the cursor of every row; the keys of
the rows are different. -/
structure Paged (list : Option γ → Except ε π) (items : π → List β) (next : π → Option γ)
    (cursor : α → γ) (key : γ → κ) (read : α → β) (limit : ℕ) (rows : List α) : Prop where
  positive : 0 < limit
  nodup : rows.Nodup
  inj : ∀ a ∈ rows, ∀ b ∈ rows, key (cursor a) = key (cursor b) → a = b
  page : ∀ position, (∀ p ∈ position, ∃ row ∈ rows, cursor row = p) →
    ∃ page, list position = .ok page ∧
      PageAt cursor read limit (items page) (next page) (rowsBehind cursor key rows position)

/-- A page is cut off rows of which one more was fetched. -/
theorem pageAt_fetched (read : α → β) (position : β → γ) {behind : List α} (hpositive : 0 < limit)
    (hposition : ∀ row ∈ behind, position (read row) = cursor row) {fetched : List β}
    (hfetched : fetched = (behind.take (limit + 1)).map read) :
    PageAt cursor read limit (fetched.take limit)
      (if limit < fetched.length then fetched[limit - 1]?.map position else none) behind where
  items := by
    rw [hfetched, ← List.map_take, List.take_take, Nat.min_eq_left (Nat.le_succ limit)]
  next := by
    rw [hfetched, List.length_map, List.length_take]
    by_cases hmore : limit < behind.length
    · have hget : behind[limit - 1]? = some (behind.get ⟨limit - 1, by omega⟩) :=
        List.getElem?_eq_getElem (by omega)
      rw [if_pos (by omega), if_pos hmore, List.getElem?_map, List.getElem?_take_of_lt (by omega),
        hget, Option.map_some, Option.map_some, Option.map_some,
        hposition _ (List.get_mem behind _)]
    · rw [if_neg (by omega), if_neg hmore]

/-- The page behind a position is sorted rows that satisfy a condition on the position. -/
theorem orderBy_behind {position : Option γ} {p : α → Prop} [DecidablePred p] {f : α → κ}
    (hf : ∀ row, f row = key (cursor row)) (h : ∀ row, p row ↔ Behind cursor key position row) :
    orderBy f (rows.filter fun row => p row) = rowsBehind cursor key rows position := by
  have hsame : (fun row => decide (p row)) = fun row => decide (Behind cursor key position row) := by
    funext row
    exact decide_eq_decide.mpr (h row)
  rw [rowsBehind, hsame, show f = fun row => key (cursor row) from funext hf]

/-- In a list in order, the elements behind the last one of a beginning are the others. -/
theorem filter_behind {f : α → κ} {before rest : List α} {last : α}
    (h : (before ++ rest).Pairwise fun a b => f a < f b) (hlast : before.getLast? = some last) :
    (before ++ rest).filter (fun a => decide (f last < f a)) = rest := by
  obtain ⟨init, rfl⟩ := List.getLast?_eq_some_iff.mp hlast
  obtain ⟨hbefore, -, hacross⟩ := List.pairwise_append.mp h
  obtain ⟨-, -, hinit⟩ := List.pairwise_append.mp hbefore
  have hnone : (init ++ [last]).filter (fun a => decide (f last < f a)) = [] := by
    refine List.filter_eq_nil_iff.mpr fun a ha => ?_
    rw [decide_eq_true_eq, not_lt]
    rcases List.mem_append.mp ha with ha | ha
    · exact le_of_lt (hinit a ha last List.mem_cons_self)
    · exact le_of_eq (congrArg f (List.mem_singleton.mp ha))
  have hall : rest.filter (fun a => decide (f last < f a)) = rest := by
    refine List.filter_eq_self.mpr fun a ha => ?_
    rw [decide_eq_true_eq]
    exact hacross last (List.mem_append_right init List.mem_cons_self) a ha
  rw [List.filter_append, hnone, hall, List.nil_append]

namespace Paged

variable (h : Paged list items next cursor key read limit rows)

include h

theorem sorted : (orderBy (fun row => key (cursor row)) rows).Pairwise
    fun a b => key (cursor a) < key (cursor b) :=
  orderBy_strict h.nodup h.inj

omit h in
/-- The rows behind the start are all rows. -/
theorem rowsBehind_none :
    rowsBehind cursor key rows none = orderBy (fun row => key (cursor row)) rows := by
  rw [rowsBehind, List.filter_eq_self.mpr]
  intro row _
  simp [Behind]

/-- The rows behind a row are the ones that follow it. -/
theorem rowsBehind_some {before rest : List α} {last : α}
    (hsplit : orderBy (fun row => key (cursor row)) rows = before ++ rest)
    (hlast : before.getLast? = some last) :
    rowsBehind cursor key rows (some (cursor last)) = rest := by
  have hsorted := h.sorted
  rw [hsplit] at hsorted
  rw [rowsBehind, orderBy_filter h.nodup h.inj, hsplit]
  refine Eq.trans (List.filter_congr fun row _ => ?_) (filter_behind hsorted hlast)
  simp [Behind]

section Written

variable {encode : γ → δ} {decode : Option δ → Except ε (Option γ)}
  (hstart : decode none = .ok none)
  (hwritten : ∀ row ∈ rows, decode (some (encode (cursor row))) = .ok (some (cursor row)))

include hstart hwritten

/-- What is left is visited; the induction is on its length. -/
theorem follows_rest (n : ℕ) : ∀ before rest position,
    orderBy (fun row => key (cursor row)) rows = before ++ rest → rest.length ≤ n →
    (∀ p ∈ position, ∃ row ∈ rows, cursor row = p) → rowsBehind cursor key rows position = rest →
    Follows (written list decode) items (fun page => (next page).map encode)
      (position.map encode) (rest.map read) := by
  have hpage : ∀ position, (∀ p ∈ position, ∃ row ∈ rows, cursor row = p) →
      ∃ page, written list decode (position.map encode) = .ok page ∧
        PageAt cursor read limit (items page) (next page)
          (rowsBehind cursor key rows position) := by
    intro position hposition
    obtain ⟨page, hlist, hat⟩ := h.page position hposition
    refine ⟨page, ?_, hat⟩
    cases position with
    | none =>
      rw [Option.map_none, written, hstart]
      exact hlist
    | some p =>
      obtain ⟨row, hrow, rfl⟩ := hposition p rfl
      rw [Option.map_some, written, hwritten row hrow]
      exact hlist
  induction n with
  | zero =>
    intro before rest position hsplit hlength hposition hbehind
    obtain ⟨page, hlist, hat⟩ := hpage position hposition
    rw [hbehind] at hat
    have hnil : rest = [] := List.length_eq_zero_iff.mp (Nat.le_zero.mp hlength)
    subst hnil
    have hitems : items page = [] := by
      rw [hat.items, List.take_nil, List.map_nil]
    have hlast : next page = none := hat.next.trans (if_neg (Nat.not_lt_zero _))
    rw [List.map_nil, ← hitems]
    exact .last hlist (congrArg (Option.map encode) hlast)
  | succ n ih =>
    intro before rest position hsplit hlength hposition hbehind
    obtain ⟨page, hlist, hat⟩ := hpage position hposition
    rw [hbehind] at hat
    by_cases hmore : limit < rest.length
    -- the page ends with the row at `limit - 1`, and the others are behind it
    · have hpositive := h.positive
      obtain ⟨last, hat_last⟩ : ∃ last, rest[limit - 1]? = some last :=
        ⟨_, List.getElem?_eq_getElem (by omega)⟩
      have hlast : (rest.take limit).getLast? = some last := by
        rw [List.getLast?_eq_getElem?, List.length_take_of_le (le_of_lt hmore),
          List.getElem?_take_of_lt (by omega), hat_last]
      have hnext : next page = some (cursor last) := by
        rw [hat.next, if_pos hmore, hat_last]
        rfl
      have hsplit' : orderBy (fun row => key (cursor row)) rows =
          (before ++ rest.take limit) ++ rest.drop limit := by
        rw [hsplit, List.append_assoc, List.take_append_drop]
      have hlast' : (before ++ rest.take limit).getLast? = some last := by
        rw [List.getLast?_append, hlast]
        rfl
      have hmem : last ∈ rows := by
        have hrest : last ∈ before ++ rest :=
          List.mem_append_right before (List.mem_of_getElem? hat_last)
        rw [← hsplit] at hrest
        exact mem_orderBy.mp hrest
      have hdrop : (rest.drop limit).length ≤ n := by
        rw [List.length_drop]
        omega
      have hrest := ih (before ++ rest.take limit) (rest.drop limit) (some (cursor last)) hsplit'
        hdrop (fun p hp => ⟨last, hmem, Option.some.inj hp⟩) (h.rowsBehind_some hsplit' hlast')
      have hvisited := Follows.next hlist (congrArg (Option.map encode) hnext) hrest
      rwa [hat.items, ← List.map_append, List.take_append_drop] at hvisited
    · have hitems : items page = rest.map read := by
        rw [hat.items, List.take_of_length_le (not_lt.mp hmore)]
      have hlast : next page = none := hat.next.trans (if_neg hmore)
      rw [← hitems]
      exact .last hlist (congrArg (Option.map encode) hlast)

/-- Following the written cursors visits every row once, in order, and stops. -/
theorem follows_written :
    Follows (written list decode) items (fun page => (next page).map encode) none
      ((orderBy (fun row => key (cursor row)) rows).map read) :=
  h.follows_rest hstart hwritten _ [] _ none rfl le_rfl (fun p hp => by cases hp) rowsBehind_none

end Written

/-- Following the cursors visits every row once, in order, and stops. -/
theorem follows :
    Follows list items next none ((orderBy (fun row => key (cursor row)) rows).map read) := by
  have hvisited : Follows (written list Except.ok) items (fun page => (next page).map id) none
      ((orderBy (fun row => key (cursor row)) rows).map read) :=
    h.follows_written rfl fun _ _ => rfl
  have hlist : written list Except.ok = list := rfl
  have hnext : (fun page => (next page).map id) = next := by
    funext page
    exact Option.map_id_apply
  rwa [hlist, hnext] at hvisited

end Paged

end Pages

end Keyset

end BlobYard
