/-
Application policies.

The check of a policy graph goes through the roles in the order of their names.  Its
cycle check follows parents before their own declarations have been checked, so that a
graph may panic; on every other graph the answer is exact.

* `canonicalize_law` — the answer is total and exact if and only if no role derails
  before a check refuses the graph;
* `undeclaredGrandparent_panics` — the smallest graph that panics.
-/
import BlobYard.Core.ApplicationPolicy

namespace BlobYard

namespace ApplicationPolicy

open GraphSearch

/-- The policy check returns, and accepts exactly the valid graphs, if and only if the graph is not
unsafe. -/
theorem canonicalize_law (graph : ApplicationPolicyGraph) :
    (canonicalizeApplicationPolicy graph ≠ .error .panicked ∧
      ((∃ canonical, canonicalizeApplicationPolicy graph = .ok canonical) ↔ Valid graph)) ↔
      ¬ Unsafe graph := by
  rw [Ne, canonicalize_panics]
  exact and_iff_left canonicalize_ok

/-- The role `a` inherits `b`, and `b` a role that is not declared. -/
def undeclaredGrandparent : ApplicationPolicyGraph where
  defaultRole := none
  roles := [("a", { inherits := ["b"], permissions := [] }),
    ("b", { inherits := ["missing"], permissions := [] })]

theorem derails_undeclaredGrandparent : Derails undeclaredGrandparent "a" := by
  have hb : ¬ IsEnd (parentGraph undeclaredGrandparent) (· == "a") "b" := by
    rintro (h | h)
    · exact absurd h (by decide)
    · exact absurd (next_eq_none.mp h) (by decide)
  have hmissing : IsEnd (parentGraph undeclaredGrandparent) (· == "a") "missing" :=
    Or.inr (next_eq_none.mpr (by decide))
  have hparents : parents undeclaredGrandparent "a" = ["b"] := by decide
  have hnext : (parentGraph undeclaredGrandparent).next "b" = some ["missing"] := by decide
  refine ⟨["b", "missing"], "missing", ?_, rfl, by decide, by decide, fun chain hchain hlast => ?_⟩
  · rw [AncestorChain, hparents]
    exact .step (by decide) hb (by decide) hnext (.last (by decide) hmissing)
  -- no chain leads back
  · rw [AncestorChain, hparents] at hchain
    obtain ⟨first, hfirst, hpath⟩ := hchain.reach hlast
    rw [List.mem_singleton] at hfirst
    have hclosed : ∀ name, Relation.ReflTransGen (Edge (parentGraph undeclaredGrandparent)) first
        name → name = "b" ∨ name = "missing" := by
      intro name hpath
      induction hpath with
      | refl => exact Or.inl hfirst
      | tail _ hedge ih =>
        obtain ⟨successors, hsome, hmem⟩ := hedge
        rcases ih with rfl | rfl
        · rw [hnext, Option.some.injEq] at hsome
          rw [← hsome, List.mem_singleton] at hmem
          exact Or.inr hmem
        · rw [next_eq_none.mpr (by decide)] at hsome
          cases hsome
    exact absurd (hclosed "a" hpath) (by decide)

/-- The graph panics. -/
theorem undeclaredGrandparent_panics :
    canonicalizeApplicationPolicy undeclaredGrandparent = .error .panicked := by
  refine canonicalize_panics.mpr ⟨by decide, [], _, _, rfl, fun role hrole => ?_,
    fun role hrole => absurd hrole List.not_mem_nil, derails_undeclaredGrandparent⟩
  rw [List.nil_append, List.mem_singleton] at hrole
  subst hrole
  decide

end ApplicationPolicy

end BlobYard
