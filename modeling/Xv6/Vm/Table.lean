import Xv6.Vm.Uvm
import Mathlib.Algebra.Order.BigOperators.Group.Finset

/-! # What a page table is

The pages a page table is made of, and the entry it has for each virtual
address, as functions of the contents of memory. A page table of `level` has
page tables of `level - 1` below it. -/

namespace Xv6.Vm

/-- `pagetable[index]`. -/
def pteAt (cell : Nat → Page) (table index : Nat) : Nat :=
  (cell table).word 8 index

/-- The page table that an entry points to. -/
def child (cell : Nat → Page) (table index : Nat) : Option Nat :=
  if hasFlag (pteAt cell table index) pteV then some (pte2pa (pteAt cell table index)) else none

/-- The indices of a page table's 512 entries. -/
@[irreducible] def entries : Finset Nat := Finset.range 512

theorem mem_entries : index ∈ entries ↔ index < 512 := by
  rw [entries, Finset.mem_range]

/-- What `pages` gives for the page tables that some entries point to. -/
def below (cell : Nat → Page) (pages : Nat → Multiset Nat) (table : Nat)
    (indices : Finset Nat) : Multiset Nat :=
  ∑ index ∈ indices, (child cell table index).elim 0 pages

/-- The page-table pages of a page table. -/
def tables (cell : Nat → Page) : (level table : Nat) → Multiset Nat
  | 0, table => {table}
  | level + 1, table => table ::ₘ below cell (tables cell level) table entries

/-- The page-table pages below the entries other than `index`. -/
def otherTables (cell : Nat → Page) (level table index : Nat) : Multiset Nat :=
  below cell (tables cell level) table (entries.erase index)

/-- The lowest page-table page on the way to `va`. -/
def lowest (cell : Nat → Page) (va : Nat) : (level table : Nat) → Option Nat
  | 0, table => some table
  | level + 1, table => (child cell table (px (level + 1) va)).bind (lowest cell va level)

/-- The entry for `va`; 0 where there is no page for it. -/
def leafAt (cell : Nat → Page) (va : Nat) : (level table : Nat) → Nat
  | 0, table => pteAt cell table (px 0 va)
  | level + 1, table => (child cell table (px (level + 1) va)).elim 0 (leafAt cell va level)

/-- Entries above the lowest level have no permission bits, and those of the
lowest level have some: this is how `freewalk` tells them apart. -/
def WellFormed (cell : Nat → Page) : (level table : Nat) → Prop
  | 0, table => ∀ index < 512, hasFlag (pteAt cell table index) pteV = true →
      hasFlag (pteAt cell table index) (pteR ||| pteW ||| pteX) = true
  | level + 1, table => ∀ index < 512, hasFlag (pteAt cell table index) pteV = true →
      hasFlag (pteAt cell table index) (pteR ||| pteW ||| pteX) = false ∧
        WellFormed cell level (pte2pa (pteAt cell table index))

/-- Two addresses have the same entry in a page table of `level`. -/
def SameSlot (level va other : Nat) : Prop :=
  ∀ lower ≤ level, px lower va = px lower other

section View

variable {cell after : Nat → Page} {level table index va : Nat}

variable {indices : Finset Nat}

theorem below_eq_add_erase (pages : Nat → Multiset Nat) (inside : index ∈ indices) :
    below cell pages table indices =
      (child cell table index).elim 0 pages + below cell pages table (indices.erase index) :=
  (Finset.add_sum_erase indices (fun other => (child cell table other).elim 0 pages) inside).symm

variable {lower page : Nat} {pages : Nat → Multiset Nat}

theorem mem_below (inside : index ∈ indices) (found : child cell table index = some lower)
    (member : page ∈ pages lower) : page ∈ below cell pages table indices := by
  rw [below_eq_add_erase pages inside, found, Multiset.mem_add]
  exact .inl member

theorem below_congr {pages' : Nat → Multiset Nat}
    (children : ∀ index ∈ indices, child after table index = child cell table index)
    (same : ∀ index ∈ indices, ∀ lower, child cell table index = some lower →
      pages' lower = pages lower) :
    below after pages' table indices = below cell pages table indices := by
  apply Finset.sum_congr rfl
  intro index inside
  rw [children index inside]
  cases found : child cell table index with
  | none => rfl
  | some lower => exact same index inside lower found

/-- The page-table pages below the entries from `first` on. -/
def remaining (cell : Nat → Page) (level table first : Nat) : Multiset Nat :=
  below cell (tables cell level) table (entries.filter (first ≤ ·))

theorem remaining_zero :
    tables cell (level + 1) table = table ::ₘ remaining cell level table 0 := by
  have all : entries.filter (0 ≤ ·) = entries := Finset.filter_true_of_mem fun _ _ => Nat.zero_le _
  rw [tables, remaining, all]

theorem remaining_end : remaining cell level table 512 = 0 := by
  have none : entries.filter (512 ≤ ·) = ∅ := by
    apply Finset.filter_false_of_mem
    intro index inside
    have := mem_entries.mp inside
    omega
  rw [remaining, none]
  exact Finset.sum_empty

theorem remaining_succ (bound : index < 512) :
    remaining cell level table index =
      (child cell table index).elim 0 (tables cell level) +
        remaining cell level table (index + 1) := by
  have first : index ∈ entries.filter (index ≤ ·) :=
    Finset.mem_filter.mpr ⟨mem_entries.mpr bound, Nat.le_refl _⟩
  have rest : (entries.filter (index ≤ ·)).erase index = entries.filter (index + 1 ≤ ·) := by
    ext other
    simp only [Finset.mem_erase, Finset.mem_filter]
    constructor
    · rintro ⟨different, inside, above⟩
      exact ⟨inside, by omega⟩
    · rintro ⟨inside, above⟩
      exact ⟨by omega, inside, by omega⟩
  rw [remaining, below_eq_add_erase _ first, rest, remaining]

theorem tables_succ (bound : index < 512) :
    tables cell (level + 1) table =
      table ::ₘ ((child cell table index).elim 0 (tables cell level) +
        otherTables cell level table index) := by
  rw [tables, otherTables, below_eq_add_erase _ (mem_entries.mpr bound)]

theorem table_mem_tables : table ∈ tables cell level table := by
  cases level with
  | zero => exact Multiset.mem_singleton_self table
  | succ level =>
    rw [tables]
    exact Multiset.mem_cons_self table _

theorem mem_tables_of_child (bound : index < 512) (found : child cell table index = some lower)
    (member : page ∈ tables cell level lower) : page ∈ tables cell (level + 1) table := by
  rw [tables_succ bound, found]
  simp [member]

theorem pteAt_congr (same : after table = cell table) (index : Nat) :
    pteAt after table index = pteAt cell table index := by
  rw [pteAt, pteAt, same]

theorem child_congr (same : after table = cell table) (index : Nat) :
    child after table index = child cell table index := by
  rw [child, child, pteAt_congr same]

variable {low : Nat}

theorem lowest_mem (found : lowest cell va level table = some low) :
    low ∈ tables cell level table := by
  induction level generalizing table with
  | zero =>
    cases found
    exact table_mem_tables
  | succ level induction =>
    rw [lowest] at found
    cases next : child cell table (px (level + 1) va) with
    | none =>
      rw [next] at found
      cases found
    | some lower =>
      rw [next] at found
      exact mem_tables_of_child (px_lt _ _) next (induction found)

/-! A page table depends on its own pages only. -/

section

variable (same : ∀ page ∈ tables cell level table, after page = cell page)

include same

theorem tables_congr : tables after level table = tables cell level table := by
  induction level generalizing table with
  | zero => rfl
  | succ level induction =>
    have root := same table table_mem_tables
    rw [tables, tables, below_congr fun index _ => child_congr root index]
    intro index inside lower found
    apply induction
    intro page member
    exact same page (mem_tables_of_child (mem_entries.mp inside) found member)

omit same in
theorem otherTables_congr (root : after table = cell table)
    (same : ∀ page ∈ otherTables cell level table index, after page = cell page) :
    otherTables after level table index = otherTables cell level table index := by
  rw [otherTables, otherTables, below_congr fun index _ => child_congr root index]
  intro other inside lower found
  apply tables_congr
  intro page member
  exact same page (mem_below inside found member)

theorem lowest_congr : lowest after va level table = lowest cell va level table := by
  induction level generalizing table with
  | zero => rfl
  | succ level induction =>
    rw [lowest, lowest, child_congr (same table table_mem_tables)]
    cases found : child cell table (px (level + 1) va) with
    | none => rfl
    | some lower =>
      apply induction
      intro page member
      exact same page (mem_tables_of_child (px_lt _ _) found member)

theorem leafAt_congr : leafAt after va level table = leafAt cell va level table := by
  induction level generalizing table with
  | zero => exact pteAt_congr (same table table_mem_tables) _
  | succ level induction =>
    rw [leafAt, leafAt, child_congr (same table table_mem_tables)]
    cases found : child cell table (px (level + 1) va) with
    | none => rfl
    | some lower =>
      apply induction
      intro page member
      exact same page (mem_tables_of_child (px_lt _ _) found member)

end

variable {other : Nat}

theorem leafAt_of_sameSlot (same : SameSlot level va other) :
    leafAt cell va level table = leafAt cell other level table := by
  induction level generalizing table with
  | zero => rw [leafAt, leafAt, same 0 (Nat.le_refl _)]
  | succ level induction =>
    have top := same (level + 1) (Nat.le_refl _)
    have rest : SameSlot level va other := fun lower bound => same lower (by omega)
    rw [leafAt, leafAt, top]
    cases child cell table (px (level + 1) other) with
    | none => rfl
    | some lower => exact induction rest

theorem WellFormed.congr (wellFormed : WellFormed cell level table)
    (same : ∀ page ∈ tables cell level table, after page = cell page) :
    WellFormed after level table := by
  induction level generalizing table with
  | zero =>
    intro index bound valid
    rw [pteAt_congr (same table table_mem_tables)] at valid ⊢
    exact wellFormed index bound valid
  | succ level induction =>
    intro index bound valid
    rw [pteAt_congr (same table table_mem_tables)] at valid ⊢
    have below := wellFormed index bound valid
    refine ⟨below.1, induction below.2 ?_⟩
    intro page member
    have found : child cell table index = some (pte2pa (pteAt cell table index)) := if_pos valid
    exact same page (mem_tables_of_child bound found member)

theorem WellFormed.leaf (wellFormed : WellFormed cell level table)
    (valid : hasFlag (leafAt cell va level table) pteV = true) :
    hasFlag (leafAt cell va level table) (pteR ||| pteW ||| pteX) = true := by
  induction level generalizing table with
  | zero => exact wellFormed _ (px_lt 0 va) valid
  | succ level induction =>
    rw [leafAt] at valid ⊢
    by_cases entry : hasFlag (pteAt cell table (px (level + 1) va)) pteV = true
    · have below := (wellFormed _ (px_lt _ _) entry).2
      rw [child, if_pos entry] at valid ⊢
      exact induction below valid
    · rw [child, if_neg entry, Option.elim_none] at valid
      exact absurd valid (by decide)

/-! A page of zeros is an empty page table. -/

section

variable (zero : cell table = fun _ => 0)

include zero

theorem pteAt_zero (index : Nat) : pteAt cell table index = 0 := by
  rw [pteAt, zero, Bytes.word_zero]

theorem child_zero (index : Nat) : child cell table index = none := by
  rw [child, pteAt_zero zero]
  rfl

theorem tables_zero : tables cell level table = {table} := by
  cases level with
  | zero => rfl
  | succ level =>
    have none : below cell (tables cell level) table entries = 0 := by
      apply Finset.sum_eq_zero
      intro index _
      rw [child_zero zero]
      rfl
    rw [tables, none]
    rfl

theorem leafAt_zero : leafAt cell va level table = 0 := by
  cases level with
  | zero => exact pteAt_zero zero _
  | succ level =>
    rw [leafAt, child_zero zero]
    rfl

end

theorem WellFormed.zero (zero : cell table = fun _ => 0) : WellFormed cell level table := by
  cases level with
  | zero | succ =>
    intro index _ valid
    rw [pteAt_zero zero] at valid
    cases valid

theorem nodup_of_child (bound : index < 512) (found : child cell table index = some lower)
    (nodup : (tables cell (level + 1) table).Nodup) :
    (tables cell level lower).Nodup ∧ table ∉ tables cell level lower ∧
      table ∉ otherTables cell level table index ∧
      Disjoint (tables cell level lower) (otherTables cell level table index) := by
  rw [tables_succ bound, found] at nodup
  rcases Multiset.nodup_cons.mp nodup with ⟨notMember, rest⟩
  rcases Multiset.nodup_add.mp rest with ⟨left, _, disjoint⟩
  rw [Multiset.mem_add, not_or] at notMember
  exact ⟨left, notMember.1, notMember.2, disjoint⟩

theorem mem_otherTables_of_child (bound : other < 512) (different : other ≠ index)
    (found : child cell table other = some lower) (member : page ∈ tables cell level lower) :
    page ∈ otherTables cell level table index :=
  mem_below (Finset.mem_erase.mpr ⟨different, mem_entries.mpr bound⟩) found member

theorem sameSlot_succ : SameSlot (level + 1) va other ↔
    px (level + 1) va = px (level + 1) other ∧ SameSlot level va other := by
  constructor
  · intro same
    exact ⟨same _ (Nat.le_refl _), fun lower bound => same lower (by omega)⟩
  · rintro ⟨top, rest⟩ lower bound
    rcases Nat.lt_or_eq_of_le bound with less | equal
    · exact rest lower (by omega)
    · exact equal ▸ top

/-! ## Storing an entry -/

/-- Memory after `table[index] = pte`. -/
def setEntry (cell : Nat → Page) (table index pte : Nat) : Nat → Page :=
  Function.update cell table ((cell table).setWord 8 index pte)

variable {pte : Nat}

theorem setEntry_of_ne (different : page ≠ table) :
    setEntry cell table index pte page = cell page :=
  Function.update_of_ne different _ _

theorem pteAt_setEntry (bound : index < 512) (small : pte < 2 ^ 64) (other : Nat) :
    pteAt (setEntry cell table index pte) table other =
      if index = other then pte else pteAt cell table other := by
  rw [pteAt, setEntry, Function.update_self]
  split
  · rename_i equal
    rw [← equal]
    exact Bytes.word_setWord_same _ (by rw [pgSize]; omega) (by simpa using small)
  · rename_i different
    exact Bytes.word_setWord_ne _ (Ne.symm different)

/-! Now `*pte = ...` for the entry of `va` in the lowest page on the way to it. -/

theorem lowest_succ (found : lowest cell va (level + 1) table = some low) :
    ∃ lower, child cell table (px (level + 1) va) = some lower ∧
      lowest cell va level lower = some low := by
  rw [lowest] at found
  cases next : child cell table (px (level + 1) va) with
  | none =>
    rw [next] at found
    cases found
  | some lower =>
    rw [next] at found
    exact ⟨lower, rfl, found⟩

section

variable (found : lowest cell va level table = some low) (nodup : (tables cell level table).Nodup)

include found nodup

theorem tables_setLeaf :
    tables (setEntry cell low (px 0 va) pte) level table = tables cell level table := by
  induction level generalizing table with
  | zero => rfl
  | succ level induction =>
    rcases lowest_succ found with ⟨lower, next, found⟩
    rcases nodup_of_child (px_lt _ _) next nodup with ⟨inner, notLower, notOther, disjoint⟩
    have member := lowest_mem found
    have root : setEntry cell low (px 0 va) pte table = cell table :=
      setEntry_of_ne fun equal => notLower (equal ▸ member)
    rw [tables_succ (px_lt (level + 1) va), tables_succ (px_lt (level + 1) va),
      child_congr root, next, otherTables_congr root]
    · exact congrArg (fun pages => table ::ₘ (pages + otherTables cell level table _))
        (induction found inner)
    · intro page inside
      apply setEntry_of_ne
      rintro rfl
      exact Multiset.disjoint_left.mp disjoint member inside

theorem leafAt_setLeaf_same (small : pte < 2 ^ 64) (same : SameSlot level va other) :
    leafAt (setEntry cell low (px 0 va) pte) other level table = pte := by
  induction level generalizing table with
  | zero =>
    cases found
    rw [leafAt, pteAt_setEntry (px_lt 0 va) small, if_pos (same 0 (Nat.le_refl _))]
  | succ level induction =>
    rcases lowest_succ found with ⟨lower, next, found⟩
    rcases nodup_of_child (px_lt _ _) next nodup with ⟨inner, notLower, _, _⟩
    rcases sameSlot_succ.mp same with ⟨top, rest⟩
    have root : setEntry cell low (px 0 va) pte table = cell table :=
      setEntry_of_ne fun equal => notLower (equal ▸ lowest_mem found)
    rw [leafAt, child_congr root, ← top, next]
    exact induction found inner rest

theorem leafAt_setLeaf_ne (small : pte < 2 ^ 64) (different : ¬SameSlot level va other) :
    leafAt (setEntry cell low (px 0 va) pte) other level table = leafAt cell other level table := by
  induction level generalizing table with
  | zero =>
    cases found
    rw [leafAt, pteAt_setEntry (px_lt 0 va) small, if_neg, leafAt]
    intro equal
    apply different
    intro lower bound
    rw [Nat.le_zero.mp bound, equal]
  | succ level induction =>
    rcases lowest_succ found with ⟨lower, next, found⟩
    rcases nodup_of_child (px_lt _ _) next nodup with ⟨inner, notLower, _, disjoint⟩
    have member := lowest_mem found
    have root : setEntry cell low (px 0 va) pte table = cell table :=
      setEntry_of_ne fun equal => notLower (equal ▸ member)
    rw [leafAt, child_congr root, leafAt]
    by_cases top : px (level + 1) va = px (level + 1) other
    · rw [← top, next]
      exact induction found inner fun rest => different (sameSlot_succ.mpr ⟨top, rest⟩)
    · cases elsewhere : child cell table (px (level + 1) other) with
      | none => rfl
      | some sibling =>
        apply leafAt_congr
        intro page inside
        apply setEntry_of_ne
        rintro rfl
        exact Multiset.disjoint_left.mp disjoint member
          (mem_otherTables_of_child (px_lt _ _) (Ne.symm top) elsewhere inside)

end

theorem WellFormed.setLeaf (wellFormed : WellFormed cell level table)
    (found : lowest cell va level table = some low) (nodup : (tables cell level table).Nodup)
    (small : pte < 2 ^ 64)
    (leaf : hasFlag pte pteV = true → hasFlag pte (pteR ||| pteW ||| pteX) = true) :
    WellFormed (setEntry cell low (px 0 va) pte) level table := by
  induction level generalizing table with
  | zero =>
    cases found
    intro index bound
    rw [pteAt_setEntry (px_lt 0 va) small]
    split
    · exact leaf
    · exact wellFormed index bound
  | succ level induction =>
    rcases lowest_succ found with ⟨lower, next, found⟩
    rcases nodup_of_child (px_lt _ _) next nodup with ⟨inner, notLower, _, disjoint⟩
    have member := lowest_mem found
    have root : setEntry cell low (px 0 va) pte table = cell table :=
      setEntry_of_ne fun equal => notLower (equal ▸ member)
    intro index bound valid
    rw [pteAt_congr root] at valid ⊢
    have here := wellFormed index bound valid
    have elsewhere : child cell table index = some (pte2pa (pteAt cell table index)) :=
      if_pos valid
    refine ⟨here.1, ?_⟩
    by_cases top : index = px (level + 1) va
    · rw [top, next] at elsewhere
      cases elsewhere
      rw [top] at here ⊢
      exact induction here.2 found inner
    · apply here.2.congr
      intro page inside
      apply setEntry_of_ne
      rintro rfl
      exact Multiset.disjoint_left.mp disjoint member
        (mem_otherTables_of_child bound top elsewhere inside)

end View

end Xv6.Vm
