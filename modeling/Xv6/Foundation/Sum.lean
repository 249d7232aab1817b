import Mathlib.Algebra.BigOperators.Group.Finset.Basic
import Mathlib.Algebra.Order.BigOperators.Group.Multiset
import Mathlib.Algebra.Order.Group.Nat

/-! # Sums in which one summand changes -/

namespace Xv6

theorem sum_change {Index Value : Type} [DecidableEq Index] [AddCommMonoid Value]
    {indices : Finset Index} {index : Index} (before after : Index → Value)
    (inside : index ∈ indices)
    (same : ∀ other ∈ indices, other ≠ index → after other = before other) :
    before index + ∑ other ∈ indices, after other =
      after index + ∑ other ∈ indices, before other := by
  have rest : ∑ other ∈ indices.erase index, after other =
      ∑ other ∈ indices.erase index, before other := by
    apply Finset.sum_congr rfl
    intro other member
    rcases Finset.mem_erase.mp member with ⟨different, bound⟩
    exact same other bound different
  rw [← Finset.add_sum_erase indices after inside, ← Finset.add_sum_erase indices before inside,
    rest]
  exact add_left_comm _ _ _

theorem exists_of_sum_eq_one {Index : Type} {indices : Multiset Index} {amount : Index → Nat}
    (total : (indices.map amount).sum = 1) :
    ∃ index ∈ indices, amount index = 1 ∧ ∀ other ∈ indices, other ≠ index → amount other = 0 := by
  induction indices using Multiset.induction with
  | empty => simp at total
  | cons first rest induction =>
    rw [Multiset.map_cons, Multiset.sum_cons] at total
    by_cases zero : amount first = 0
    · rw [zero, zero_add] at total
      rcases induction total with ⟨index, inside, one, others⟩
      refine ⟨index, Multiset.mem_cons_of_mem inside, one, ?_⟩
      intro other member different
      rcases Multiset.mem_cons.mp member with rfl | member
      · exact zero
      · exact others other member different
    · have none : (rest.map amount).sum = 0 := by omega
      refine ⟨first, Multiset.mem_cons_self first rest, by omega, ?_⟩
      intro other member different
      rcases Multiset.mem_cons.mp member with rfl | member
      · exact absurd rfl different
      · exact Multiset.sum_eq_zero_iff.mp none _ (Multiset.mem_map_of_mem amount member)

end Xv6
