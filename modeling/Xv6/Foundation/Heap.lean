import Mathlib.Algebra.Order.Group.Multiset

/-! # A heap with a free list

Cells are free or owned. `Exchange` is the contract of an operation on a heap:
what it needs to own, what it owns afterwards, and that it touches nothing else. -/

namespace Xv6

structure Heap (Address Contents : Type) where
  free : List Address
  cell : Address → Contents

/-- From `before` to `after` the cells `owned` were exchanged for `owned'`
through the free list, and no cell outside of both was changed. -/
structure Exchange {Address Contents : Type} (before : Heap Address Contents)
    (owned : Multiset Address) (after : Heap Address Contents)
    (owned' : Multiset Address) : Prop where
  conserved : (after.free : Multiset Address) + owned' = before.free + owned
  untouched : ∀ address, address ∉ (before.free : Multiset Address) + owned →
    after.cell address = before.cell address

namespace Exchange

variable {Address Contents : Type} {first second third : Heap Address Contents}
  {owned owned' owned'' : Multiset Address}

theorem refl (heap : Heap Address Contents) (owned : Multiset Address) :
    Exchange heap owned heap owned :=
  ⟨rfl, fun _ _ => rfl⟩

theorem trans (left : Exchange first owned second owned')
    (right : Exchange second owned' third owned'') : Exchange first owned third owned'' where
  conserved := right.conserved.trans left.conserved
  untouched := by
    intro address outside
    rw [right.untouched address (by rw [left.conserved]; exact outside)]
    exact left.untouched address outside

/-- What else is owned is not touched. -/
theorem frame (exchange : Exchange first owned second owned') (rest : Multiset Address) :
    Exchange first (owned + rest) second (owned' + rest) where
  conserved := by rw [← add_assoc, exchange.conserved, add_assoc]
  untouched := by
    intro address outside
    apply exchange.untouched
    simp only [Multiset.mem_add, not_or] at outside ⊢
    exact ⟨outside.1, outside.2.1⟩

theorem frame_left (exchange : Exchange first owned second owned') (rest : Multiset Address) :
    Exchange first (rest + owned) second (rest + owned') := by
  rw [add_comm rest, add_comm rest]
  exact exchange.frame rest

variable {address : Address}

/-- Cells that were neither free nor exchanged keep their contents. -/
theorem cell_eq (exchange : Exchange first owned second owned')
    (nodup : ((first.free : Multiset Address) + owned + rest).Nodup) (member : address ∈ rest) :
    second.cell address = first.cell address := by
  apply exchange.untouched
  intro inside
  exact Multiset.disjoint_left.mp (Multiset.nodup_add.mp nodup).2.2 inside member

/-- Only owned cells were written. -/
theorem stores (free : second.free = first.free)
    (same : ∀ address, address ∉ owned → second.cell address = first.cell address) :
    Exchange first owned second owned where
  conserved := by rw [free]
  untouched := fun address outside => same address fun member =>
    outside (Multiset.mem_add.mpr (.inr member))

variable [DecidableEq Address]

theorem alloc {heap : Heap Address Contents} (found : heap.free = address :: rest)
    (contents : Contents) (owned : Multiset Address) :
    Exchange heap owned
      { heap with free := rest, cell := Function.update heap.cell address contents }
      (address ::ₘ owned) where
  conserved := by
    rw [found, ← Multiset.cons_coe, Multiset.add_cons, Multiset.cons_add]
  untouched := by
    intro other outside
    apply Function.update_of_ne
    rintro rfl
    simp [found] at outside

theorem release (heap : Heap Address Contents) (address : Address) (contents : Contents)
    (owned : Multiset Address) :
    Exchange heap (address ::ₘ owned)
      { heap with
        free := address :: heap.free
        cell := Function.update heap.cell address contents }
      owned where
  conserved := by
    rw [← Multiset.cons_coe, Multiset.add_cons, Multiset.cons_add]
  untouched := by
    intro other outside
    apply Function.update_of_ne
    rintro rfl
    simp at outside

theorem store (heap : Heap Address Contents) (member : address ∈ owned) (contents : Contents) :
    Exchange heap owned { heap with cell := Function.update heap.cell address contents } owned := by
  apply stores (by rfl)
  intro other outside
  apply Function.update_of_ne
  rintro rfl
  exact outside member

end Exchange

end Xv6
