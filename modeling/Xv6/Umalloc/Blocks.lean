import Xv6.Foundation.Walk
import Xv6.Umalloc.Machine

/-! # Blocks and the addresses in them

`cover blocks x` counts the blocks that the address `x` is in. Blocks that are
split or joined cover the same addresses. -/

namespace Xv6.Umalloc

variable {blocks more : List Block} {block other : Block} {x : Nat}

/-- An address is in a block. -/
def Block.Has (block : Block) (x : Nat) : Prop := block.addr ≤ x ∧ x < block.stop

instance (block : Block) (x : Nat) : Decidable (block.Has x) :=
  inferInstanceAs (Decidable (_ ∧ _))

def Block.covers (block : Block) (x : Nat) : Nat := if block.Has x then 1 else 0

def cover (blocks : List Block) (x : Nat) : Nat := (blocks.map fun block => block.covers x).sum

@[simp] theorem cover_nil : cover [] x = 0 := rfl

@[simp] theorem cover_cons : cover (block :: blocks) x = block.covers x + cover blocks x := by
  simp [cover]

@[simp] theorem cover_append : cover (blocks ++ more) x = cover blocks x + cover more x := by
  simp [cover]

@[simp] theorem totalUnits_nil : totalUnits [] = 0 := rfl

@[simp] theorem totalUnits_cons :
    totalUnits (block :: blocks) = block.units + totalUnits blocks := by
  simp [totalUnits]

@[simp] theorem totalUnits_append :
    totalUnits (blocks ++ more) = totalUnits blocks + totalUnits more := by
  simp [totalUnits]

theorem cover_perm (perm : blocks.Perm more) : cover blocks x = cover more x := by
  rw [cover, cover]
  exact (perm.map _).sum_eq

theorem totalUnits_perm (perm : blocks.Perm more) : totalUnits blocks = totalUnits more :=
  (perm.map Block.units).sum_eq

theorem units_le_totalUnits (member : block ∈ blocks) : block.units ≤ totalUnits blocks := by
  induction blocks with
  | nil => cases member
  | cons head rest induction =>
    rw [totalUnits_cons]
    rcases List.mem_cons.mp member with equal | later
    · rw [equal]
      omega
    · have inRest := induction later
      omega

theorem length_le_totalUnits (positive : ∀ block ∈ blocks, 0 < block.units) :
    blocks.length ≤ totalUnits blocks := by
  induction blocks with
  | nil => exact Nat.le_refl 0
  | cons head rest induction =>
    have first := positive head List.mem_cons_self
    have later := induction fun block member => positive block (List.mem_cons_of_mem _ member)
    rw [totalUnits_cons, List.length_cons]
    omega

theorem cover_pos_iff : 0 < cover blocks x ↔ ∃ block ∈ blocks, block.Has x := by
  induction blocks with
  | nil => simp
  | cons head rest induction =>
    rw [cover_cons, Block.covers]
    by_cases inside : head.Has x
    · simp [inside]
    · rw [if_neg inside, Nat.zero_add, induction]
      simp [inside]

theorem Block.covers_eq_one (inside : block.Has x) : block.covers x = 1 := if_pos inside

theorem covers_split (addr first second : Nat) :
    (Block.mk addr (first + second)).covers x =
      (Block.mk addr first).covers x + (Block.mk (addr + headerBytes * first) second).covers x := by
  have whole : (Block.mk addr (first + second)).Has x ↔ (Block.mk addr first).Has x ∨
      (Block.mk (addr + headerBytes * first) second).Has x := by
    simp only [Block.Has, Block.stop, headerBytes]
    omega
  have notBoth : (Block.mk addr first).Has x →
      ¬ (Block.mk (addr + headerBytes * first) second).Has x := by
    simp only [Block.Has, Block.stop, headerBytes]
    omega
  simp only [Block.covers, whole]
  by_cases inFirst : (Block.mk addr first).Has x
  · simp [inFirst, notBoth inFirst]
  · simp [inFirst]

/-- Two blocks have no address in common. -/
def Block.Apart (block other : Block) : Prop := block.stop ≤ other.addr ∨ other.stop ≤ block.addr

theorem Block.Apart.symm (apart : block.Apart other) : other.Apart block := Or.symm apart

instance : Std.Symm Block.Apart := ⟨fun _ _ apart => apart.symm⟩

theorem apart_of_cover (positive : 0 < block.units) (otherPositive : 0 < other.units)
    (once : ∀ x, block.covers x + other.covers x ≤ 1) : block.Apart other := by
  by_contra overlap
  simp only [Block.Apart, Block.stop, headerBytes, not_or, not_le] at overlap
  have twice := once (max block.addr other.addr)
  rw [Block.covers_eq_one, Block.covers_eq_one] at twice
  · omega
  · simp only [Block.Has, Block.stop, headerBytes]
    omega
  · simp only [Block.Has, Block.stop, headerBytes]
    omega

theorem covers_le_cover (member : block ∈ blocks) : block.covers x ≤ cover blocks x := by
  induction blocks with
  | nil => cases member
  | cons head rest induction =>
    rw [cover_cons]
    rcases List.mem_cons.mp member with equal | later
    · rw [equal]
      omega
    · have inRest := induction later
      omega

theorem pairwise_apart (positive : ∀ block ∈ blocks, 0 < block.units)
    (once : ∀ x, cover blocks x ≤ 1) : blocks.Pairwise Block.Apart := by
  induction blocks with
  | nil => exact .nil
  | cons head rest induction =>
    apply List.Pairwise.cons
    · intro other member
      apply apart_of_cover (positive head List.mem_cons_self)
        (positive other (List.mem_cons_of_mem _ member))
      intro x
      have whole := once x
      have inRest : other.covers x ≤ cover rest x := covers_le_cover member
      rw [cover_cons] at whole
      omega
    · apply induction fun block member => positive block (List.mem_cons_of_mem _ member)
      intro x
      have whole := once x
      rw [cover_cons] at whole
      omega

theorem cover_le_one (apart : blocks.Pairwise Block.Apart) (x : Nat) : cover blocks x ≤ 1 := by
  induction apart with
  | nil => exact Nat.zero_le 1
  | @cons head rest first _ induction =>
    rw [cover_cons, Block.covers]
    split
    · rename_i inside
      have none : ¬ 0 < cover rest x := by
        rw [cover_pos_iff]
        intro found
        rcases found with ⟨other, member, there⟩
        have away := first other member
        simp only [Block.Apart, Block.Has] at away inside there
        omega
      omega
    · omega

theorem split_at (sorted : blocks.Pairwise fun a b => a.stop < b.addr)
    (apart : ∀ other ∈ blocks, other.Apart block) :
    ∃ below above, blocks = below ++ above ∧ (∀ other ∈ below, other.stop ≤ block.addr) ∧
      ∀ other ∈ above, block.stop ≤ other.addr := by
  induction blocks with
  | nil => exact ⟨[], [], rfl, by simp, by simp⟩
  | cons head rest induction =>
    rw [List.pairwise_cons] at sorted
    rcases apart head List.mem_cons_self with low | high
    · rcases induction sorted.2 fun other member => apart other (List.mem_cons_of_mem _ member)
        with ⟨below, above, equal, before, after⟩
      refine ⟨head :: below, above, by rw [equal]; rfl, ?_, after⟩
      intro other member
      rcases List.mem_cons.mp member with same | later
      · rw [same]
        exact low
      · exact before other later
    · refine ⟨[], head :: rest, rfl, by simp, ?_⟩
      intro other member
      rcases List.mem_cons.mp member with same | later
      · rw [same]
        exact high
      · have far := sorted.1 other later
        simp only [Block.stop] at far high ⊢
        omega

end Xv6.Umalloc
