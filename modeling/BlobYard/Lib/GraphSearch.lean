/-
Searching a graph of names.

A node lists its successors by name, and a listed name need not be a node.  Two
searches walk such a graph: one with a stack of pending names, which ends at a name
that is no node, and one that calls itself on the successors, for which such a name
has none.  Both keep the names they have visited and stop at a name they look for.

* `search`, `deepSearch` — the two searches;
* `search_exhausted`, `deepSearch_spec` — what they have visited is closed, or the name
  is reached;
* `Chain`, `Before` — the ways to an end, and which of them the stack takes first;
* `search_least` — the search ends where the first chain ends.
-/
import Mathlib.Data.Finset.Card
import Mathlib.Logic.Relation

namespace GraphSearch

variable {α : Type}

/-- The nodes of a graph and the names of their successors. -/
structure NameGraph (α : Type) where
  nodes : List α
  next : α → Option (List α)
  mem_nodes : ∀ {a successors}, next a = some successors → a ∈ nodes

/-- How a search ends. -/
inductive Ending (α : Type)
  | found (a : α)
  | missing (a : α)
  | exhausted (visited : List α)

/-- The name where a search ends early. -/
def Ending.name : Ending α → Option α
  | found a => some a
  | missing a => some a
  | exhausted _ => none

variable {g : NameGraph α} {stop : α → Bool}

/-! ### The names behind a list -/

/-- The second name is a successor of the first one. -/
def Edge (g : NameGraph α) (a b : α) : Prop :=
  ∃ successors, g.next a = some successors ∧ b ∈ successors

/-- Every name of the list is a node that is not looked for. -/
def Passed (g : NameGraph α) (stop : α → Bool) (visited : List α) : Prop :=
  ∀ a ∈ visited, stop a = false ∧ ∃ successors, g.next a = some successors

/-- The new names of a search have been passed, and their successors are among the visited. -/
def Closed (g : NameGraph α) (stop : α → Bool) (old visited : List α) : Prop :=
  ∀ a ∈ visited, a ∉ old →
    stop a = false ∧ ∃ successors, g.next a = some successors ∧ successors ⊆ visited

/-- What is closed holds everything behind its names. -/
theorem Closed.reach {visited : List α} (h : Closed g stop [] visited) {a b : α}
    (ha : a ∈ visited) (hpath : Relation.ReflTransGen (Edge g) a b) : b ∈ visited := by
  induction hpath with
  | refl => exact ha
  | tail _ hedge ih =>
    obtain ⟨successors, hnext, hmem⟩ := hedge
    obtain ⟨-, successors', hnext', hsub⟩ := h _ ih List.not_mem_nil
    obtain rfl := Option.some.inj (hnext.symm.trans hnext')
    exact hsub hmem

/-- Where the search does not find what it looks for, the names it has visited are those of the
list and all behind them, and none of them is looked for. -/
structure Fruitless (g : NameGraph α) (stop : α → Bool) (pending old visited : List α) : Prop where
  pending : pending ⊆ visited
  closed : ∀ a ∈ visited, a ∉ old →
    stop a = false ∧ ∀ successors, g.next a = some successors → successors ⊆ visited

/-! ### Chains -/

/-- A search ends at a name that is looked for or is no node. -/
def IsEnd (g : NameGraph α) (stop : α → Bool) (a : α) : Prop := stop a = true ∨ g.next a = none

/-- A way from a choice of names to an end, over new nodes that differ from each other. -/
inductive Chain (g : NameGraph α) (stop : α → Bool) : List α → List α → List α → Prop
  | last {visited choices : List α} {a : α} : a ∈ choices → IsEnd g stop a →
      Chain g stop visited choices [a]
  | step {visited choices successors rest : List α} {a : α} : a ∈ choices → ¬ IsEnd g stop a →
      a ∉ visited → g.next a = some successors → Chain g stop (a :: visited) successors rest →
      Chain g stop visited choices (a :: rest)

/-- A chain that starts with an end is over. -/
theorem Chain.of_end {visited choices rest : List α} {a : α}
    (h : Chain g stop visited choices (a :: rest)) (ha : IsEnd g stop a) : rest = [] := by
  cases h with
  | last => rfl
  | step _ hnot => exact absurd ha hnot

theorem Chain.mono {visited choices choices' e : List α} (h : Chain g stop visited choices e)
    (hsub : choices ⊆ choices') : Chain g stop visited choices' e := by
  cases h with
  | last hmem hend => exact .last (hsub hmem) hend
  | step hmem hnot hnew hnext hrest => exact .step (hsub hmem) hnot hnew hnext hrest

/-- The first name of a chain is one of the choices. -/
theorem Chain.head_mem {visited choices e : List α} (h : Chain g stop visited choices e) :
    ∃ a rest, e = a :: rest ∧ a ∈ choices := by
  cases h with
  | last hmem _ => exact ⟨_, _, rfl, hmem⟩
  | step hmem => exact ⟨_, _, rfl, hmem⟩

theorem Passed.not_end {visited : List α} (h : Passed g stop visited) {a : α} (ha : a ∈ visited) :
    ¬ IsEnd g stop a := by
  rintro (hstop | hnone)
  · rw [(h a ha).1] at hstop
    exact Bool.noConfusion hstop
  · obtain ⟨successors, hsome⟩ := (h a ha).2
    rw [hnone] at hsome
    cases hsome

theorem Passed.cons {visited successors : List α} {a : α} (h : Passed g stop visited)
    (hstop : stop a = false) (hnext : g.next a = some successors) :
    Passed g stop (a :: visited) := by
  intro b hb
  rcases List.mem_cons.mp hb with rfl | hb
  · exact ⟨hstop, successors, hnext⟩
  · exact h b hb

/-- The end of a chain lies behind its choices. -/
theorem Chain.reach {visited choices e : List α} (h : Chain g stop visited choices e) {a : α}
    (ha : e.getLast? = some a) : ∃ b ∈ choices, Relation.ReflTransGen (Edge g) b a := by
  induction h with
  | last hmem _ =>
    obtain rfl := Option.some.inj ha
    exact ⟨_, hmem, Relation.ReflTransGen.refl⟩
  | @step visited choices successors rest b hmem _ _ hnext hrest ih =>
    obtain ⟨c, tail, rfl, -⟩ := hrest.head_mem
    obtain ⟨d, hd, hpath⟩ := ih (by simpa using ha)
    exact ⟨b, hmem, Relation.ReflTransGen.head ⟨successors, hnext, hd⟩ hpath⟩

/-- A chain may pass more names when fewer are visited. -/
theorem Chain.anti {old visited choices e : List α} (h : Chain g stop visited choices e)
    (hsub : old ⊆ visited) : Chain g stop old choices e := by
  induction h generalizing old with
  | last hmem hend => exact .last hmem hend
  | step hmem hnot hnew hnext _ ih =>
    exact .step hmem hnot (fun hmem' => hnew (hsub hmem')) hnext (ih (List.cons_subset_cons _ hsub))

/-- When no chain starts with the last choice, the chains are those of the other choices. -/
theorem Chain.of_concat {visited choices e : List α} {a : α}
    (h : Chain g stop visited (choices ++ [a]) e)
    (hnone : ∀ rest, ¬ Chain g stop visited (choices ++ [a]) (a :: rest)) :
    Chain g stop visited choices e ∧ ∀ b rest, e = b :: rest → b ≠ a := by
  have hhead : ∀ b rest, e = b :: rest → b ≠ a := by
    rintro b rest rfl rfl
    exact hnone rest h
  have hchoice : ∀ {b rest}, e = b :: rest → b ∈ choices ++ [a] → b ∈ choices := by
    intro b rest heq hmem
    simpa [hhead b rest heq] using hmem
  refine ⟨?_, hhead⟩
  cases h with
  | last hmem hend => exact .last (hchoice rfl hmem) hend
  | step hmem hnot hnew hnext hrest => exact .step (hchoice rfl hmem) hnot hnew hnext hrest

/-! ### The two searches -/

/-- The stack with the names put onto it, the last one on top. -/
def onTop (names rest : List α) : List α := names.reverse ++ rest

theorem mem_onTop {names rest : List α} {a : α} : a ∈ onTop names rest ↔ a ∈ names ∨ a ∈ rest := by
  simp [onTop]

variable [DecidableEq α]

/-- The number of nodes that are not visited yet. -/
def unvisited (g : NameGraph α) (visited : List α) : ℕ := (g.nodes.toFinset \ visited.toFinset).card

theorem unvisited_le {visited visited' : List α} (h : visited ⊆ visited') :
    unvisited g visited' ≤ unvisited g visited := by
  refine Finset.card_le_card fun a ha => ?_
  simp only [Finset.mem_sdiff, List.mem_toFinset] at ha ⊢
  exact ⟨ha.1, fun hmem => ha.2 (h hmem)⟩

theorem unvisited_lt {a : α} {visited : List α} (hnode : a ∈ g.nodes) (hnew : a ∉ visited) :
    unvisited g (a :: visited) < unvisited g visited := by
  refine Finset.card_lt_card ⟨fun b hb => ?_, fun hsub => ?_⟩
  · simp only [Finset.mem_sdiff, List.mem_toFinset, List.mem_cons, not_or] at hb ⊢
    exact ⟨hb.1, hb.2.2⟩
  · have ha : a ∈ g.nodes.toFinset \ visited.toFinset := by simp [hnode, hnew]
    simpa using hsub ha

/-- Fewer nodes to visit, or as many and a shorter list. -/
theorem lex_of_le {m n k l : ℕ} (h : m ≤ n) (h' : k < l) :
    Prod.Lex (· < ·) (· < ·) (m, k) (n, l) := by
  rcases Nat.lt_or_eq_of_le h with hlt | rfl
  · exact Prod.Lex.left _ _ hlt
  · exact Prod.Lex.right _ h'

/-- The search with a stack: the next name is taken from its top, and the successors of a new name
are put onto it. -/
def search (g : NameGraph α) (stop : α → Bool) (pending visited : List α) : Ending α :=
  match pending with
  | [] => .exhausted visited
  | a :: rest =>
    if stop a then .found a
    else if _hnew : a ∈ visited then search g stop rest visited
    else match _hnext : g.next a with
      | none => .missing a
      | some successors => search g stop (onTop successors rest) (a :: visited)
termination_by (unvisited g visited, pending.length)
decreasing_by
  · exact Prod.Lex.right _ (by simp)
  · exact Prod.Lex.left _ _ (unvisited_lt (g.mem_nodes _hnext) _hnew)

/-- The search that calls itself: whether a name of the list or behind it is looked for, and the
names visited in the end. -/
def deepSearch (g : NameGraph α) (stop : α → Bool) (pending visited : List α) :
    { r : Bool × List α // visited ⊆ r.2 } :=
  match pending with
  | [] => ⟨(false, visited), List.Subset.refl _⟩
  | a :: rest =>
    if stop a then ⟨(true, visited), List.Subset.refl _⟩
    else if _hnew : a ∈ visited then deepSearch g stop rest visited
    else match _hnext : g.next a with
      | none =>
        let r := deepSearch g stop rest (a :: visited)
        ⟨r.1, List.Subset.trans (List.subset_cons_self a visited) r.2⟩
      | some successors =>
        let r := deepSearch g stop successors (a :: visited)
        if r.1.1 then ⟨r.1, List.Subset.trans (List.subset_cons_self a visited) r.2⟩
        else
          let r' := deepSearch g stop rest r.1.2
          ⟨r'.1, List.Subset.trans (List.subset_cons_self a visited) (List.Subset.trans r.2 r'.2)⟩
termination_by (unvisited g visited, pending.length)
decreasing_by
  · exact Prod.Lex.right _ (by simp)
  · exact lex_of_le (unvisited_le (List.subset_cons_self a visited)) (by simp)
  · exact Prod.Lex.left _ _ (unvisited_lt (g.mem_nodes _hnext) _hnew)
  · exact lex_of_le
      (unvisited_le (List.Subset.trans (List.subset_cons_self a visited) r.2)) (by simp)

theorem search_nil (visited : List α) : search g stop [] visited = .exhausted visited := by
  rw [search]

theorem search_stop {a : α} {rest visited : List α} (h : stop a = true) :
    search g stop (a :: rest) visited = .found a := by
  rw [search, if_pos h]

theorem search_visited {a : α} {rest visited : List α} (h : stop a = false) (ha : a ∈ visited) :
    search g stop (a :: rest) visited = search g stop rest visited := by
  rw [search, if_neg (by simp [h]), dif_pos ha]

theorem search_missing {a : α} {rest visited : List α} (h : stop a = false) (ha : a ∉ visited)
    (hnext : g.next a = none) : search g stop (a :: rest) visited = .missing a := by
  rw [search, if_neg (by simp [h]), dif_neg ha]
  split
  · rfl
  · simp_all

theorem search_push {a : α} {rest visited successors : List α} (h : stop a = false)
    (ha : a ∉ visited) (hnext : g.next a = some successors) :
    search g stop (a :: rest) visited =
      search g stop (onTop successors rest) (a :: visited) := by
  rw [search, if_neg (by simp [h]), dif_neg ha]
  split
  · simp_all
  · simp_all

/-- An exhausted search has visited what it started from, and its new names are closed and lie
behind what it started from. -/
theorem search_exhausted {pending visited final : List α}
    (h : search g stop pending visited = .exhausted final) :
    visited ⊆ final ∧ pending ⊆ final ∧ Closed g stop visited final ∧
      ∀ a ∈ final, a ∉ visited → ∃ b ∈ pending, Relation.ReflTransGen (Edge g) b a := by
  -- by induction on the steps of the search
  induction pending, visited using search.induct g stop with
  | case1 visited =>
    rw [search_nil, Ending.exhausted.injEq] at h
    subst h
    exact ⟨List.Subset.refl _, List.nil_subset _, fun a ha hold => absurd ha hold,
      fun a ha hold => absurd ha hold⟩
  | case2 visited a rest hstop =>
    rw [search_stop hstop] at h
    cases h
  | case3 visited a rest hstop hvisited ih =>
    rw [search_visited (by simpa using hstop) hvisited] at h
    obtain ⟨hsub, hrest, hclosed, hreach⟩ := ih h
    refine ⟨hsub, List.cons_subset.mpr ⟨hsub hvisited, hrest⟩, hclosed, fun b hb hold => ?_⟩
    obtain ⟨c, hc, hpath⟩ := hreach b hb hold
    exact ⟨c, List.mem_cons_of_mem a hc, hpath⟩
  | case4 visited a rest hstop hvisited hnext =>
    rw [search_missing (by simpa using hstop) hvisited hnext] at h
    cases h
  | case5 visited a rest hstop hvisited successors hnext ih =>
    have hpass : stop a = false := by simpa using hstop
    rw [search_push hpass hvisited hnext] at h
    obtain ⟨hsub, hrest, hclosed, hreach⟩ := ih h
    have hsuccessors : successors ⊆ final := fun b hb => hrest (mem_onTop.mpr (Or.inl hb))
    have hbelow : rest ⊆ final := fun b hb => hrest (mem_onTop.mpr (Or.inr hb))
    rw [List.cons_subset] at hsub
    refine ⟨hsub.2, List.cons_subset.mpr ⟨hsub.1, hbelow⟩, fun b hb hold => ?_, fun b hb hold => ?_⟩
    · by_cases hba : b = a
      · rw [hba]
        exact ⟨hpass, successors, hnext, hsuccessors⟩
      · exact hclosed b hb (by simp [hba, hold])
    · by_cases hba : b = a
      · exact ⟨a, List.mem_cons_self, hba ▸ Relation.ReflTransGen.refl⟩
      · obtain ⟨c, hc, hpath⟩ := hreach b hb (by simp [hba, hold])
        rcases mem_onTop.mp hc with hc | hc
        · have hedge : Edge g a c := ⟨successors, hnext, hc⟩
          exact ⟨a, List.mem_cons_self, Relation.ReflTransGen.head hedge hpath⟩
        · exact ⟨c, List.mem_cons_of_mem a hc, hpath⟩

/-- What the two early endings say about the name. -/
theorem search_kind {pending visited : List α} {a : α} :
    (search g stop pending visited = .found a → stop a = true) ∧
      (search g stop pending visited = .missing a → stop a = false ∧ g.next a = none) := by
  induction pending, visited using search.induct g stop with
  | case1 visited =>
    rw [search_nil]
    exact ⟨fun h => (by cases h), fun h => (by cases h)⟩
  -- the search stops here
  | case2 visited b rest hstop =>
    rw [search_stop hstop]
    refine ⟨fun h => ?_, fun h => (by cases h)⟩
    cases h
    exact hstop
  -- a name is looked at once
  | case3 visited b rest hstop hvisited ih =>
    rw [search_visited (by simpa using hstop) hvisited]
    exact ih
  -- nothing is known of the name
  | case4 visited b rest hstop hvisited hnext =>
    have hpass : stop b = false := by simpa using hstop
    rw [search_missing hpass hvisited hnext]
    refine ⟨fun h => (by cases h), fun h => ?_⟩
    cases h
    exact ⟨hpass, hnext⟩
  -- its successors go on top of the others
  | case5 visited b rest hstop hvisited successors hnext ih =>
    rw [search_push (by simpa using hstop) hvisited hnext]
    exact ih

/-- A search that ends early ends behind what it started from. -/
theorem search_ends {pending visited : List α} {a : α}
    (h : (search g stop pending visited).name = some a) :
    ∃ b ∈ pending, Relation.ReflTransGen (Edge g) b a := by
  induction pending, visited using search.induct g stop with
  -- the search has gone through everything
  | case1 visited =>
    rw [search_nil] at h
    cases h
  | case2 visited b rest hstop =>
    rw [search_stop hstop, Ending.name, Option.some.injEq] at h
    exact ⟨b, List.mem_cons_self, h ▸ Relation.ReflTransGen.refl⟩
  | case3 visited b rest hstop hvisited ih =>
    rw [search_visited (by simpa using hstop) hvisited] at h
    obtain ⟨c, hc, hpath⟩ := ih h
    exact ⟨c, List.mem_cons_of_mem b hc, hpath⟩
  | case4 visited b rest hstop hvisited hnext =>
    rw [search_missing (by simpa using hstop) hvisited hnext, Ending.name, Option.some.injEq] at h
    exact ⟨b, List.mem_cons_self, h ▸ Relation.ReflTransGen.refl⟩
  | case5 visited b rest hstop hvisited successors hnext ih =>
    rw [search_push (by simpa using hstop) hvisited hnext] at h
    obtain ⟨c, hc, hpath⟩ := ih h
    -- what was found lies behind a successor, or behind something that was waiting
    rcases mem_onTop.mp hc with hc | hc
    · have hedge : Edge g b c := ⟨successors, hnext, hc⟩
      exact ⟨b, List.mem_cons_self, Relation.ReflTransGen.head hedge hpath⟩
    · exact ⟨c, List.mem_cons_of_mem b hc, hpath⟩

/-! ### The search that calls itself -/

theorem deepSearch_missing {a : α} {rest visited : List α} (h : ¬ stop a = true) (ha : a ∉ visited)
    (hnext : g.next a = none) :
    (deepSearch g stop (a :: rest) visited).1 = (deepSearch g stop rest (a :: visited)).1 := by
  rw [deepSearch, if_neg h, dif_neg ha]
  split <;> simp_all

/-- The successors of a new node are searched before the rest of the list. -/
theorem deepSearch_node {a : α} {rest visited successors : List α} (h : ¬ stop a = true)
    (ha : a ∉ visited) (hnext : g.next a = some successors) :
    (deepSearch g stop (a :: rest) visited).1 =
      if (deepSearch g stop successors (a :: visited)).1.1 = true then
        (deepSearch g stop successors (a :: visited)).1
      else (deepSearch g stop rest (deepSearch g stop successors (a :: visited)).1.2).1 := by
  rw [deepSearch, if_neg h, dif_neg ha]
  split
  case h_1 hnone => simp [hnone] at hnext
  case h_2 successors' hsome =>
    obtain rfl := Option.some.inj (hsome.symm.trans hnext)
    by_cases hr : (deepSearch g stop successors' (a :: visited)).1.1 = true
    · simp only [hr, if_true]
    · simp only [hr, Bool.false_eq_true, if_false]

theorem deepSearch_spec (pending visited : List α) :
    ((deepSearch g stop pending visited).1.1 = true →
      ∃ a ∈ pending, ∃ b, Relation.ReflTransGen (Edge g) a b ∧ stop b = true) ∧
    ((deepSearch g stop pending visited).1.1 = false →
      Fruitless g stop pending visited (deepSearch g stop pending visited).1.2) := by
  induction pending, visited using deepSearch.induct g stop with
  | case1 visited =>
    rw [deepSearch]
    exact ⟨fun h => Bool.noConfusion h, fun _ => ⟨List.nil_subset _, fun a ha hold =>
      absurd ha hold⟩⟩
  | case2 visited a rest hstop =>
    rw [deepSearch, if_pos hstop]
    exact ⟨fun _ => ⟨a, List.mem_cons_self, a, Relation.ReflTransGen.refl, hstop⟩,
      fun h => Bool.noConfusion h⟩
  | case3 visited a rest hstop hvisited ih =>
    rw [deepSearch, if_neg hstop, dif_pos hvisited]
    refine ⟨fun h => ?_, fun h => ?_⟩
    · obtain ⟨b, hb, hfound⟩ := ih.1 h
      exact ⟨b, List.mem_cons_of_mem a hb, hfound⟩
    · have hrest := ih.2 h
      exact ⟨List.cons_subset.mpr ⟨(deepSearch g stop rest visited).2 hvisited, hrest.pending⟩,
        hrest.closed⟩
  | case4 visited a rest hstop hvisited hnext ih =>
    rw [deepSearch_missing hstop hvisited hnext]
    refine ⟨fun h => ?_, fun h => ?_⟩
    · obtain ⟨b, hb, hfound⟩ := ih.1 h
      exact ⟨b, List.mem_cons_of_mem a hb, hfound⟩
    · have hrest := ih.2 h
      have hsub := (deepSearch g stop rest (a :: visited)).2
      refine ⟨List.cons_subset.mpr ⟨hsub List.mem_cons_self, hrest.pending⟩, fun b hb hold => ?_⟩
      by_cases hba : b = a
      · rw [hba]
        exact ⟨by simpa using hstop, fun successors hsome => by simp [hnext] at hsome⟩
      · exact hrest.closed b hb (by simp [hba, hold])
  | case5 visited a rest hstop hvisited successors hnext r hr ih =>
    rw [deepSearch_node hstop hvisited hnext, if_pos hr]
    refine ⟨fun _ => ?_, fun h => ?_⟩
    · obtain ⟨b, hb, c, hpath, hc⟩ := ih.1 hr
      exact ⟨a, List.mem_cons_self, c,
        Relation.ReflTransGen.head ⟨successors, hnext, hb⟩ hpath, hc⟩
    · exact absurd hr (by rw [h]; exact Bool.noConfusion)
  | case6 visited a rest hstop hvisited successors hnext r hr ih ih' =>
    rw [deepSearch_node hstop hvisited hnext, if_neg hr]
    refine ⟨fun h => ?_, fun h => ?_⟩
    · obtain ⟨b, hb, hfound⟩ := ih'.1 h
      exact ⟨b, List.mem_cons_of_mem a hb, hfound⟩
    · have hbelow := ih.2 (by simpa using hr)
      have hrest := ih'.2 h
      have hgrow := (deepSearch g stop rest r.1.2).2
      have hsub := r.2
      have hnode : stop a = false ∧ ∀ successors', g.next a = some successors' →
          successors' ⊆ (deepSearch g stop rest r.1.2).1.2 := by
        refine ⟨by simpa using hstop, fun successors' hsome => ?_⟩
        obtain rfl := Option.some.inj (hnext.symm.trans hsome)
        exact List.Subset.trans hbelow.pending hgrow
      refine ⟨List.cons_subset.mpr ⟨hgrow (hsub List.mem_cons_self), hrest.pending⟩,
        fun b hb hold => ?_⟩
      -- the new names are the node, those behind it and those of the rest
      by_cases hba : b = a
      · subst hba
        exact hnode
      · by_cases hfirst : b ∈ r.1.2
        · obtain ⟨hpass, hclosed⟩ := hbelow.closed b hfirst (by simp [hba, hold])
          exact ⟨hpass, fun l hl => List.Subset.trans (hclosed l hl) hgrow⟩
        · exact hrest.closed b hb hfirst

/-- The search finds what lies behind the list. -/
theorem deepSearch_iff {pending : List α} :
    (deepSearch g stop pending []).1.1 = true ↔
      ∃ a ∈ pending, ∃ b, Relation.ReflTransGen (Edge g) a b ∧ stop b = true := by
  refine ⟨(deepSearch_spec pending []).1, fun ⟨a, ha, b, hpath, hb⟩ => ?_⟩
  by_contra hfound
  have hspec := (deepSearch_spec pending []).2 (by simpa using hfound)
  have hmem : b ∈ (deepSearch g stop pending []).1.2 := by
    clear hb
    induction hpath with
    | refl => exact hspec.pending ha
    | tail _ hedge ih =>
      obtain ⟨successors, hnext, hmem⟩ := hedge
      exact (hspec.closed _ ih List.not_mem_nil).2 successors hnext hmem
  rw [(hspec.closed b hmem List.not_mem_nil).1] at hb
  exact Bool.noConfusion hb

/-! ### The first chain -/

/-- The first name stands behind the last place of the second one. -/
def Later (choices : List α) (a b : α) : Prop :=
  choices.reverse.idxOf a < choices.reverse.idxOf b

/-- Of two chains, the one that takes the later name where they part. -/
inductive Before (g : NameGraph α) : List α → List α → List α → Prop
  | head {choices rest rest' : List α} {a b : α} : Later choices a b →
      Before g choices (a :: rest) (b :: rest')
  | tail {choices successors rest rest' : List α} {a : α} : g.next a = some successors →
      Before g successors rest rest' → Before g choices (a :: rest) (a :: rest')

theorem later_concat_self {choices : List α} {a b : α} (h : b ≠ a) :
    Later (choices ++ [a]) a b := by
  simp [Later, h.symm]

theorem later_concat {choices : List α} {a b c : α} (hb : b ≠ a) (hc : c ≠ a) :
    Later (choices ++ [a]) b c ↔ Later choices b c := by
  simp [Later, hb.symm, hc.symm]

theorem Before.asymm {choices e e' : List α} (h : Before g choices e e') :
    ¬ Before g choices e' e := by
  induction h with
  | head hlater =>
    intro h'
    cases h' with
    | head hlater' => exact lt_asymm hlater hlater'
    | tail => exact lt_irrefl _ hlater
  | tail hnext _ ih =>
    intro h'
    cases h' with
    | head hlater' => exact lt_irrefl _ hlater'
    | tail hnext' hrest =>
      obtain rfl := Option.some.inj (hnext.symm.trans hnext')
      exact ih hrest

theorem Passed.of_closed {old visited : List α} (h : Passed g stop old)
    (hclosed : Closed g stop old visited) : Passed g stop visited := by
  intro a ha
  by_cases hold : a ∈ old
  · exact h a hold
  · obtain ⟨hstop, successors, hnext, -⟩ := hclosed a ha hold
    exact ⟨hstop, successors, hnext⟩

/-- No chain leaves a closed list of names. -/
theorem Closed.no_chain {old visited choices e : List α} (hold : Passed g stop old)
    (hclosed : Closed g stop old visited) (hchoices : choices ⊆ visited)
    (h : Chain g stop old choices e) : False := by
  induction h with
  | last hmem hend =>
    exact (hold.of_closed hclosed).not_end (hchoices hmem) hend
  | @step old choices successors rest a hmem hnot hnew hnext _ ih =>
    obtain ⟨hstop, successors', hnext', hsub⟩ := hclosed a (hchoices hmem) hnew
    obtain rfl := Option.some.inj (hnext.symm.trans hnext')
    refine ih (hold.cons hstop hnext) (fun b hb hb' => hclosed b hb fun hbold => ?_) hsub
    exact hb' (List.mem_cons_of_mem a hbold)

/-- A chain of new names avoids what is closed. -/
theorem Chain.avoid {old visited choices e : List α} (h : Chain g stop old choices e)
    (hold : Passed g stop old) (hclosed : Closed g stop old visited) :
    Chain g stop visited choices e := by
  induction h generalizing visited with
  | last hmem hend => exact .last hmem hend
  | @step old choices successors rest a hmem hnot hnew hnext hrest ih =>
    have hstop : stop a = false := by
      by_contra hstop
      exact hnot (Or.inl (by simpa using hstop))
    have hgrow : ∀ {visited' : List α}, (∀ b ∈ visited', b ∈ visited ∨ b = a) →
        visited ⊆ visited' → Closed g stop (a :: old) visited' := by
      intro visited' hsub hsup b hb hb'
      rw [List.mem_cons, not_or] at hb'
      obtain ⟨hpass, l, hl, hlsub⟩ := hclosed b ((hsub b hb).resolve_right hb'.1) hb'.2
      exact ⟨hpass, l, hl, List.Subset.trans hlsub hsup⟩
    have havoid : a ∉ visited := fun ha => by
      obtain ⟨-, successors', hnext', hsub⟩ := hclosed a ha hnew
      obtain rfl := Option.some.inj (hnext.symm.trans hnext')
      exact (hgrow (fun b hb => Or.inl hb) (List.Subset.refl _)).no_chain
        (hold.cons hstop hnext) hsub hrest
    refine .step hmem hnot havoid hnext (ih (hold.cons hstop hnext) ?_)
    exact hgrow (fun b hb => (List.mem_cons.mp hb).symm) (List.subset_cons_self a visited)

/-- What lies deeper in the stack is looked at when all above it is exhausted. -/
theorem search_append (above below visited : List α) :
    search g stop (above ++ below) visited =
      match search g stop above visited with
      | .exhausted final => search g stop below final
      | ending => ending := by
  induction above, visited using search.induct g stop with
  | case1 visited => rw [search_nil, List.nil_append]
  | case2 visited a rest hstop => rw [List.cons_append, search_stop hstop, search_stop hstop]
  | case3 visited a rest hstop hvisited ih =>
    have hpass : stop a = false := by simpa using hstop
    rw [List.cons_append, search_visited hpass hvisited, search_visited hpass hvisited, ih]
  | case4 visited a rest hstop hvisited hnext =>
    have hpass : stop a = false := by simpa using hstop
    rw [List.cons_append, search_missing hpass hvisited hnext, search_missing hpass hvisited hnext]
  | case5 visited a rest hstop hvisited successors hnext ih =>
    have hpass : stop a = false := by simpa using hstop
    rw [List.cons_append, search_push hpass hvisited hnext, search_push hpass hvisited hnext, ← ih,
      onTop, onTop, List.append_assoc]

/-- A chain that no chain comes before. -/
def Least (g : NameGraph α) (stop : α → Bool) (visited choices e : List α) : Prop :=
  Chain g stop visited choices e ∧
    ∀ e', Chain g stop visited choices e' → e' = e ∨ Before g choices e e'

/-- The end of the first chain, if there is a chain. -/
def FirstEnd (g : NameGraph α) (stop : α → Bool) (visited choices : List α) : Option α → Prop
  | some a => ∃ e, Least g stop visited choices e ∧ e.getLast? = some a
  | none => ∀ e, ¬ Chain g stop visited choices e

/-- A choice that is an end is the first chain, if it is the last choice. -/
theorem least_end {visited choices : List α} {a : α} (ha : IsEnd g stop a) :
    Least g stop visited (choices ++ [a]) [a] := by
  refine ⟨.last (by simp) ha, fun e' he' => ?_⟩
  obtain ⟨b, rest, rfl, -⟩ := he'.head_mem
  by_cases hb : b = a
  · rw [hb] at he' ⊢
    exact Or.inl (by rw [he'.of_end ha])
  · exact Or.inr (.head (later_concat_self hb))

theorem Least.concat {visited choices e : List α} {a : α} (h : Least g stop visited choices e)
    (hnone : ∀ rest, ¬ Chain g stop visited (choices ++ [a]) (a :: rest)) :
    Least g stop visited (choices ++ [a]) e := by
  obtain ⟨hchain, hleast⟩ := h
  have hmono := hchain.mono (List.subset_append_left choices [a])
  refine ⟨hmono, fun e' he' => ?_⟩
  obtain ⟨hchain', hhead'⟩ := he'.of_concat hnone
  refine (hleast e' hchain').imp_right fun hbefore => ?_
  cases hbefore with
  | head hlater =>
    exact .head ((later_concat ((hmono.of_concat hnone).2 _ _ rfl) (hhead' _ _ rfl)).mpr hlater)
  | tail hnext hrest => exact .tail hnext hrest

/-- The first chain from a node comes first when the node is the last choice. -/
theorem Least.step {visited choices successors e : List α} {a : α} (hnot : ¬ IsEnd g stop a)
    (hnew : a ∉ visited) (hnext : g.next a = some successors)
    (h : Least g stop (a :: visited) successors e) :
    Least g stop visited (choices ++ [a]) (a :: e) := by
  refine ⟨.step (by simp) hnot hnew hnext h.1, fun e' he' => ?_⟩
  obtain ⟨b, rest, rfl, -⟩ := he'.head_mem
  by_cases hb : b = a
  · subst hb
    cases he' with
    | last _ hend => exact absurd hend hnot
    | step _ _ _ hnext' hrest =>
      obtain rfl := Option.some.inj (hnext.symm.trans hnext')
      exact (h.2 rest hrest).imp (congrArg (b :: ·)) (fun hbefore => .tail hnext hbefore)
  · exact Or.inr (.head (later_concat_self hb))

/-- What is found among fewer choices and with more names visited is found, when no chain starts
with the last choice and what was visited in between is closed. -/
theorem least_rest {old visited choices : List α} {a : α} {ending : Option α} (hsub : old ⊆ visited)
    (hold : Passed g stop old) (hclosed : Closed g stop old visited)
    (hnone : ∀ rest, ¬ Chain g stop old (choices ++ [a]) (a :: rest))
    (h : FirstEnd g stop visited choices ending) :
    FirstEnd g stop old (choices ++ [a]) ending := by
  cases ending with
  | none => exact fun e he => h e ((he.of_concat hnone).1.avoid hold hclosed)
  | some b =>
    obtain ⟨e, ⟨hchain, hleast⟩, hlast⟩ := h
    have holder : Least g stop old choices e :=
      ⟨hchain.anti hsub, fun e' he' => hleast e' (he'.avoid hold hclosed)⟩
    exact ⟨e, holder.concat hnone, hlast⟩

/-- The search over the choices, the last one first, ends where the first chain ends; it is
exhausted when there is no chain. -/
theorem search_least (choices visited : List α) (hpassed : Passed g stop visited) :
    FirstEnd g stop visited choices (search g stop choices.reverse visited).name := by
  rcases List.eq_nil_or_concat choices with hempty | ⟨init, a, hsplit⟩
  · rw [hempty, List.reverse_nil, search_nil]
    intro e he
    obtain ⟨b, rest, -, hmem⟩ := he.head_mem
    exact absurd hmem List.not_mem_nil
  have hshorter : init.length < choices.length := by simp [hsplit]
  rw [hsplit, List.concat_eq_append, List.reverse_append, List.reverse_singleton,
    List.singleton_append]
  by_cases hstop : stop a = true
  · rw [search_stop hstop]
    exact ⟨[a], least_end (Or.inl hstop), rfl⟩
  have hpass : stop a = false := by simpa using hstop
  by_cases hvisited : a ∈ visited
  -- a visited name is skipped, and no chain starts with it
  · rw [search_visited hpass hvisited]
    refine least_rest (List.Subset.refl _) hpassed (fun b hb hb' => absurd hb hb')
      (fun rest h => ?_) (search_least init visited hpassed)
    cases h with
    | last _ hend => exact hpassed.not_end hvisited hend
    | step _ _ hnew => exact hnew hvisited
  cases hnext : g.next a with
  | none =>
    rw [search_missing hpass hvisited hnext]
    exact ⟨[a], least_end (Or.inr hnext), rfl⟩
  | some successors =>
    have hnot : ¬ IsEnd g stop a := by simp [IsEnd, hpass, hnext]
    have hpassed' : Passed g stop (a :: visited) := hpassed.cons hpass hnext
    have hchild := search_least successors (a :: visited) hpassed'
    rw [search_push hpass hvisited hnext, onTop, search_append]
    cases hending : search g stop successors.reverse (a :: visited) with
    | found b =>
      rw [hending] at hchild
      obtain ⟨e, hleast, hlast⟩ := hchild
      exact ⟨a :: e, hleast.step hnot hvisited hnext, by simp [List.getLast?_cons, hlast]⟩
    | missing b =>
      rw [hending] at hchild
      obtain ⟨e, hleast, hlast⟩ := hchild
      exact ⟨a :: e, hleast.step hnot hvisited hnext, by simp [List.getLast?_cons, hlast]⟩
    | exhausted final =>
      -- nothing lies behind the node, and the rest goes on from all the names behind it
      rw [hending] at hchild
      obtain ⟨hsub, hchoices, hclosed, -⟩ := search_exhausted hending
      have hgrow : visited ⊆ final := (List.cons_subset.mp hsub).2
      have hclosed' : Closed g stop visited final := by
        intro b hb hb'
        by_cases hba : b = a
        · rw [hba]
          exact ⟨hpass, successors, hnext, fun c hc => hchoices (List.mem_reverse.mpr hc)⟩
        · exact hclosed b hb (by simp [hba, hb'])
      refine least_rest hgrow hpassed hclosed' (fun rest h => ?_)
        (search_least init final (hpassed.of_closed hclosed'))
      cases h with
      | last _ hend => exact hnot hend
      | step _ _ _ hnext' hrest =>
        obtain rfl := Option.some.inj (hnext.symm.trans hnext')
        exact hchild rest hrest
termination_by (unvisited g visited, choices.length)
decreasing_by
  · exact Prod.Lex.right _ hshorter
  · exact Prod.Lex.left _ _ (unvisited_lt (g.mem_nodes hnext) hvisited)
  · exact lex_of_le (unvisited_le hgrow) hshorter

end GraphSearch
