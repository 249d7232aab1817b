import Mathlib.Data.Set.Basic

/-! # Exact allocation

Cells hold items that are taken from a pool. The allocation is exact when an item
is marked as used if some cell holds it, and only then, and no two cells hold the
same item: nothing is lost, and nothing is handed out twice. -/

namespace Xv6

variable {Cell Item : Type}

structure Allocation (used : Item → Prop) (cell : Cell → Option Item) : Prop where
  unique : ∀ {first second item}, cell first = some item → cell second = some item → first = second
  used_iff : ∀ item, used item ↔ ∃ place, cell place = some item

namespace Allocation

variable {used used' : Item → Prop} {cell cell' : Cell → Option Item}

section

variable (exact : Allocation used cell)

include exact

theorem used_of (found : cell place = some item) : used item :=
  (exact.used_iff item).mpr ⟨place, found⟩

/-- A free item is put into an empty cell. -/
theorem assign (place : Cell) (item : Item) (empty : cell place = none) (free : ¬ used item)
    (usedEq : ∀ other, used' other ↔ other = item ∨ used other) (here : cell' place = some item)
    (elsewhere : ∀ other, other ≠ place → cell' other = cell other) : Allocation used' cell' := by
  have nowhere : ∀ other, cell other ≠ some item := fun other found => free (exact.used_of found)
  constructor
  · intro first second found firstEq secondEq
    by_cases firstHere : first = place <;> by_cases secondHere : second = place
    · rw [firstHere, secondHere]
    · rw [firstHere, here] at firstEq
      cases firstEq
      rw [elsewhere second secondHere] at secondEq
      exact absurd secondEq (nowhere second)
    · rw [secondHere, here] at secondEq
      cases secondEq
      rw [elsewhere first firstHere] at firstEq
      exact absurd firstEq (nowhere first)
    · rw [elsewhere first firstHere] at firstEq
      rw [elsewhere second secondHere] at secondEq
      exact exact.unique firstEq secondEq
  · intro other
    rw [usedEq]
    constructor
    · intro holds
      rcases holds with same | before
      · exact ⟨place, same ▸ here⟩
      · rcases (exact.used_iff other).mp before with ⟨there, found⟩
        refine ⟨there, ?_⟩
        rw [elsewhere there]
        · exact found
        · intro same
          rw [same, empty] at found
          cases found
    · intro holds
      rcases holds with ⟨there, found⟩
      by_cases same : there = place
      · rw [same, here] at found
        exact .inl (Option.some.inj found).symm
      · rw [elsewhere there same] at found
        exact .inr (exact.used_of found)

/-- The items of a set of cells are freed, and the cells emptied. -/
theorem clear (places : Set Cell)
    (usedEq : ∀ other, used' other ↔ used other ∧ ∀ there ∈ places, cell there ≠ some other)
    (here : ∀ there ∈ places, cell' there = none)
    (elsewhere : ∀ other, other ∉ places → cell' other = cell other) : Allocation used' cell' := by
  have kept : ∀ {there found}, cell' there = some found →
      there ∉ places ∧ cell there = some found := by
    intro there found now
    by_cases member : there ∈ places
    · rw [here there member] at now
      cases now
    · exact ⟨member, (elsewhere there member).symm.trans now⟩
  constructor
  · intro first second found firstEq secondEq
    exact exact.unique (kept firstEq).2 (kept secondEq).2
  · intro other
    rw [usedEq]
    constructor
    · intro holds
      rcases (exact.used_iff other).mp holds.1 with ⟨there, found⟩
      refine ⟨there, ?_⟩
      rw [elsewhere there]
      · exact found
      · exact fun member => holds.2 there member found
    · intro holds
      rcases holds with ⟨there, found⟩
      rcases kept found with ⟨outside, before⟩
      refine ⟨exact.used_of before, fun place member same => outside ?_⟩
      rw [exact.unique before same]
      exact member

/-- The same items in the same cells. -/
theorem congr (usedEq : ∀ other, used' other ↔ used other)
    (cellEq : ∀ place, cell' place = cell place) : Allocation used' cell' := by
  have same : cell' = cell := funext cellEq
  have sameUsed : used' = used := funext fun other => propext (usedEq other)
  rw [same, sameUsed]
  exact exact

end

end Allocation

end Xv6
