/-
Maps as lists of entries in the order of their keys.

* `Ordered` — every key is above the one before;
* `insertEntry` — the map with one entry more, or with another value;
* `fromEntries` — the map of entries in any order, of which the last one with a key counts;
* `fromEntries_perm` — entries with different keys are the entries of their map;
* `fromEntries_of_perm` — the entries of a map make up that map, whatever their order;
* `pushEntry` — the map with one more value in the list at a key.
-/
import Mathlib.Data.List.Sort
import Mathlib.Order.Lattice

namespace BlobYard

variable {κ β : Type} [LinearOrder κ]

/-- Every key is above the one before. -/
def Ordered (entries : List (κ × β)) : Prop := entries.Pairwise fun a b => a.1 < b.1

instance (entries : List (κ × β)) : Decidable (Ordered entries) :=
  inferInstanceAs (Decidable (List.Pairwise _ _))

/-- The map with the value at the key. -/
def insertEntry (key : κ) (value : β) : List (κ × β) → List (κ × β)
  | [] => [(key, value)]
  | entry :: rest =>
    if key < entry.1 then (key, value) :: entry :: rest
    else if key = entry.1 then (key, value) :: rest
    else entry :: insertEntry key value rest

/-- The map of the entries. -/
def fromEntries (entries : List (κ × β)) : List (κ × β) :=
  entries.foldl (fun map entry => insertEntry entry.1 entry.2 map) []

section Maps

variable {entries : List (κ × β)} {key : κ} {value : β}

theorem Ordered.nodup (h : Ordered entries) : (entries.map Prod.fst).Nodup := by
  rw [List.nodup_iff_pairwise_ne, List.pairwise_map]
  exact h.imp fun hlt => ne_of_lt hlt

theorem mem_of_mem_insertEntry {entry : κ × β} (h : entry ∈ insertEntry key value entries) :
    entry = (key, value) ∨ entry ∈ entries := by
  induction entries with
  | nil => exact Or.inl (List.mem_singleton.mp h)
  | cons first rest ih =>
    rw [insertEntry] at h
    split at h
    · exact (List.mem_cons.mp h).imp_right id
    split at h
    · exact (List.mem_cons.mp h).imp_right (List.mem_cons_of_mem first)
    · rcases List.mem_cons.mp h with rfl | h
      · exact Or.inr List.mem_cons_self
      · exact (ih h).imp_right (List.mem_cons_of_mem first)

theorem Ordered.insertEntry (h : Ordered entries) : Ordered (insertEntry key value entries) := by
  induction entries with
  | nil => exact List.pairwise_singleton _ _
  | cons first rest ih =>
    obtain ⟨hfirst, hrest⟩ := List.pairwise_cons.mp h
    rw [BlobYard.insertEntry]
    split
    case isTrue hlt =>
      refine List.pairwise_cons.mpr ⟨fun entry hentry => ?_, h⟩
      rcases List.mem_cons.mp hentry with rfl | hentry
      · exact hlt
      · exact lt_trans hlt (hfirst entry hentry)
    case isFalse hnot =>
      split
      case isTrue heq =>
        exact List.pairwise_cons.mpr ⟨fun entry hentry => heq ▸ hfirst entry hentry, hrest⟩
      case isFalse hne =>
        refine List.pairwise_cons.mpr ⟨fun entry hentry => ?_, ih hrest⟩
        rcases mem_of_mem_insertEntry hentry with rfl | hentry
        · exact lt_of_le_of_ne (not_lt.mp hnot) (Ne.symm hne)
        · exact hfirst entry hentry

/-- A new key is one entry more. -/
theorem insertEntry_perm (h : key ∉ entries.map Prod.fst) :
    (insertEntry key value entries).Perm ((key, value) :: entries) := by
  induction entries with
  | nil => exact List.Perm.refl _
  | cons first rest ih =>
    rw [List.map_cons, List.mem_cons, not_or] at h
    rw [insertEntry]
    split
    · exact List.Perm.refl _
    · rw [if_neg h.1]
      exact ((ih h.2).cons first).trans (List.Perm.swap _ _ _)

theorem foldl_insertEntry_perm (added : List (κ × β)) (h : ((added ++ entries).map Prod.fst).Nodup) :
    (added.foldl (fun map entry => insertEntry entry.1 entry.2 map) entries).Perm
      (added ++ entries) := by
  induction added generalizing entries with
  | nil => exact List.Perm.refl _
  | cons entry added ih =>
    rw [List.cons_append, List.map_cons, List.nodup_cons, List.map_append, List.mem_append,
      not_or] at h
    have hinsert : (insertEntry entry.1 entry.2 entries).Perm (entry :: entries) :=
      insertEntry_perm h.1.2
    have hmiddle : (added ++ insertEntry entry.1 entry.2 entries).Perm
        (entry :: (added ++ entries)) :=
      (hinsert.append_left added).trans List.perm_middle
    rw [List.foldl_cons]
    refine (ih ?_).trans hmiddle
    rw [(hmiddle.map Prod.fst).nodup_iff, List.map_cons, List.nodup_cons, List.map_append,
      List.mem_append, not_or]
    exact h

theorem ordered_foldl (added : List (κ × β)) (h : Ordered entries) :
    Ordered (added.foldl (fun map entry => insertEntry entry.1 entry.2 map) entries) := by
  induction added generalizing entries with
  | nil => exact h
  | cons entry added ih => exact ih h.insertEntry

theorem ordered_fromEntries (entries : List (κ × β)) : Ordered (fromEntries entries) :=
  ordered_foldl entries List.Pairwise.nil

theorem Ordered.eq_of_perm {entries' : List (κ × β)} (h : Ordered entries)
    (h' : Ordered entries') (hperm : entries.Perm entries') : entries = entries' :=
  hperm.eq_of_pairwise (fun _ _ _ _ hab hba => absurd (lt_trans hab hba) (lt_irrefl _)) h h'

/-- Entries with different keys are the entries of their map. -/
theorem fromEntries_perm (h : (entries.map Prod.fst).Nodup) : (fromEntries entries).Perm entries := by
  have hnodup : ((entries ++ []).map Prod.fst).Nodup := by rwa [List.append_nil]
  have hfold := foldl_insertEntry_perm entries hnodup
  rwa [List.append_nil] at hfold

/-- The entries of a map make up that map. -/
theorem fromEntries_of_perm {entries' : List (κ × β)} (h : Ordered entries)
    (hperm : entries'.Perm entries) : fromEntries entries' = entries := by
  refine (ordered_fromEntries entries').eq_of_perm h ((fromEntries_perm ?_).trans hperm)
  rw [(hperm.map Prod.fst).nodup_iff]
  exact h.nodup

/-- Other values at the same keys. -/
theorem Ordered.map {γ : Type} {entries' : List (κ × γ)} (h : Ordered entries)
    (hkeys : entries'.map Prod.fst = entries.map Prod.fst) : Ordered entries' := by
  have hlt : (entries.map Prod.fst).Pairwise (· < ·) := List.pairwise_map.mpr h
  rw [← hkeys] at hlt
  exact List.pairwise_map.mp hlt

/-- The keys after an insertion. -/
theorem mem_keys_insertEntry {other : κ} :
    other ∈ (insertEntry key value entries).map Prod.fst ↔
      other = key ∨ other ∈ entries.map Prod.fst := by
  induction entries with
  | nil => simp [insertEntry]
  | cons first rest ih =>
    rw [insertEntry]
    split
    · simp
    split
    case isTrue _ heq => simp [heq]
    case isFalse _ _ =>
      rw [List.map_cons, List.mem_cons, ih, List.map_cons, List.mem_cons]
      exact or_left_comm

/-- The keys of a map are those of its entries. -/
theorem mem_keys_fromEntries : key ∈ (fromEntries entries).map Prod.fst ↔
    key ∈ entries.map Prod.fst := by
  have hfold : ∀ added map : List (κ × β),
      key ∈ (added.foldl (fun map entry => insertEntry entry.1 entry.2 map) map).map Prod.fst ↔
        key ∈ added.map Prod.fst ∨ key ∈ map.map Prod.fst := by
    intro added
    induction added with
    | nil => simp
    | cons entry added ih =>
      intro map
      rw [List.foldl_cons, ih, mem_keys_insertEntry, List.map_cons, List.mem_cons]
      tauto
  rw [fromEntries, hfold]
  simp

end Maps

/-! ### Lists of values -/

/-- The map of lists with one more value at the end of the list at the key. -/
def pushEntry (key : κ) (value : β) : List (κ × List β) → List (κ × List β)
  | [] => [(key, [value])]
  | entry :: rest =>
    if key < entry.1 then (key, [value]) :: entry :: rest
    else if key = entry.1 then (key, entry.2 ++ [value]) :: rest
    else entry :: pushEntry key value rest

/-- A map of lists lists the values of each key that are in a list of pairs, in their order. -/
structure Collects (map : List (κ × List β)) (pairs : List (κ × β)) : Prop where
  ordered : Ordered map
  keys : ∀ key, key ∈ map.map Prod.fst ↔ key ∈ pairs.map Prod.fst
  values : ∀ entry ∈ map, entry.2 = (pairs.filter fun pair => pair.1 = entry.1).map Prod.snd

section Lists

variable {map : List (κ × List β)} {pairs : List (κ × β)} {key : κ} {value : β}

theorem mem_keys_pushEntry {other : κ} :
    other ∈ (pushEntry key value map).map Prod.fst ↔ other = key ∨ other ∈ map.map Prod.fst := by
  induction map with
  | nil => simp [pushEntry]
  | cons first rest ih =>
    rw [pushEntry]
    split
    · simp
    split
    case isTrue _ heq => simp [heq]
    case isFalse _ _ =>
      rw [List.map_cons, List.mem_cons, ih, List.map_cons, List.mem_cons]
      exact or_left_comm

theorem Ordered.pushEntry (h : Ordered map) : Ordered (pushEntry key value map) := by
  induction map with
  | nil => exact List.pairwise_singleton _ _
  | cons first rest ih =>
    obtain ⟨hfirst, hrest⟩ := List.pairwise_cons.mp h
    rw [BlobYard.pushEntry]
    split
    case isTrue hlt =>
      refine List.pairwise_cons.mpr ⟨fun entry hentry => ?_, h⟩
      rcases List.mem_cons.mp hentry with rfl | hentry
      · exact hlt
      · exact lt_trans hlt (hfirst entry hentry)
    case isFalse hnot =>
      split
      case isTrue heq =>
        exact List.pairwise_cons.mpr ⟨fun entry hentry => heq ▸ hfirst entry hentry, hrest⟩
      case isFalse hne =>
        refine List.pairwise_cons.mpr ⟨fun entry hentry => ?_, ih hrest⟩
        rcases mem_keys_pushEntry.mp (List.mem_map_of_mem hentry) with heq | hmem
        · exact heq ▸ lt_of_le_of_ne (not_lt.mp hnot) (Ne.symm hne)
        · obtain ⟨entry', hentry', heq⟩ := List.mem_map.mp hmem
          exact heq ▸ hfirst entry' hentry'

/-- What is in the map after a value is pushed. -/
theorem mem_pushEntry (h : Ordered map) {entry : κ × List β}
    (hentry : entry ∈ pushEntry key value map) :
    (entry.1 ≠ key ∧ entry ∈ map) ∨
      (entry.1 = key ∧ (∃ values, (key, values) ∈ map ∧ entry.2 = values ++ [value])) ∨
      entry = (key, [value]) ∧ key ∉ map.map Prod.fst := by
  induction map with
  | nil =>
    obtain rfl := List.mem_singleton.mp hentry
    exact Or.inr (Or.inr ⟨rfl, List.not_mem_nil⟩)
  | cons first rest ih =>
    obtain ⟨hfirst, hrest⟩ := List.pairwise_cons.mp h
    rw [pushEntry] at hentry
    split at hentry
    case isTrue hlt =>
      have habove : ∀ other ∈ first :: rest, key < other.1 := by
        intro other hother
        rcases List.mem_cons.mp hother with rfl | hother
        · exact hlt
        · exact lt_trans hlt (hfirst other hother)
      rcases List.mem_cons.mp hentry with rfl | hmem
      · refine Or.inr (Or.inr ⟨rfl, fun hkey => ?_⟩)
        obtain ⟨other, hother, heq⟩ := List.mem_map.mp hkey
        exact absurd (habove other hother) (heq ▸ lt_irrefl _)
      · exact Or.inl ⟨(habove entry hmem).ne', hmem⟩
    case isFalse hnot =>
      split at hentry
      case isTrue heq =>
        rcases List.mem_cons.mp hentry with rfl | hmem
        · exact Or.inr (Or.inl ⟨rfl, first.2, by rw [heq]; exact List.mem_cons_self, rfl⟩)
        · exact Or.inl ⟨heq ▸ (hfirst entry hmem).ne', List.mem_cons_of_mem first hmem⟩
      case isFalse hne =>
        rcases List.mem_cons.mp hentry with rfl | hmem
        · exact Or.inl ⟨Ne.symm hne, List.mem_cons_self⟩
        · rcases ih hrest hmem with ⟨hother, hin⟩ | ⟨hkey, values, hin, hvalues⟩ | ⟨hnew, hkey⟩
          · exact Or.inl ⟨hother, List.mem_cons_of_mem first hin⟩
          · exact Or.inr (Or.inl ⟨hkey, values, List.mem_cons_of_mem first hin, hvalues⟩)
          · refine Or.inr (Or.inr ⟨hnew, ?_⟩)
            rw [List.map_cons, List.mem_cons, not_or]
            exact ⟨hne, hkey⟩

theorem Collects.nil : Collects ([] : List (κ × List β)) [] where
  ordered := List.Pairwise.nil
  keys := fun _ => Iff.rfl
  values := fun _ hentry => absurd hentry List.not_mem_nil

/-- Pushing a value collects one pair more. -/
theorem Collects.push (h : Collects map pairs) :
    Collects (pushEntry key value map) (pairs ++ [(key, value)]) where
  ordered := h.ordered.pushEntry
  keys := fun other => by
    rw [mem_keys_pushEntry, h.keys, List.map_append, List.mem_append, List.map_singleton,
      List.mem_singleton]
    exact or_comm
  values := fun entry hentry => by
    rw [List.filter_append, List.map_append]
    rcases mem_pushEntry h.ordered hentry with ⟨hne, hmem⟩ | ⟨heq, values, hmem, hvalues⟩ |
      ⟨rfl, hnew⟩
    · rw [h.values entry hmem, List.filter_cons_of_neg (by simpa using Ne.symm hne),
        List.filter_nil, List.map_nil, List.append_nil]
    · have hold : values = (pairs.filter fun pair => pair.1 = key).map Prod.snd :=
        h.values (key, values) hmem
      rw [heq, hvalues, hold, List.filter_cons_of_pos (by simp)]
      rfl
    · have hnone : (pairs.filter fun pair => pair.1 = key) = [] := by
        refine List.filter_eq_nil_iff.mpr fun pair hpair heq => hnew ((h.keys key).mpr ?_)
        exact List.mem_map.mpr ⟨pair, hpair, by simpa using heq⟩
      rw [hnone, List.filter_cons_of_pos (by simp)]
      rfl

end Lists

end BlobYard
