import Xv6.Vm.Growth

/-! # Copying user memory

`uvmcopy` gives the child the pages of the parent, with the same contents and the same
permissions, in memory of its own. -/

namespace Xv6.Vm

open StateProg
open Prog (wp_bind wp_mono wp_pure)

/-- A page that is neither free nor part of a page table. -/
def Apart (memory : Memory) (table page : Nat) : Prop :=
  page ∉ memory.free ∧ page ∉ tables memory.cell 2 table

/-- The permissions and the contents that `uvmcopy` takes over. -/
def flagsOf (memory : Memory) (table vpn : Nat) : Nat :=
  pteFlags (leafAt memory.cell (vpn * pgSize) 2 table)

def contentsOf (memory : Memory) (table vpn : Nat) : Page :=
  memory.cell (pte2pa (leafAt memory.cell (vpn * pgSize) 2 table))

/-- The parent of `uvmcopy`: the pages below `count` are mapped, and nothing of it is free
or belongs to the page table of the child. -/
structure Parent (memory : Memory) (old new count : Nat) : Prop where
  wellFormed : WellFormed memory.cell 2 old
  valid : ∀ vpn < count, hasFlag (leafAt memory.cell (vpn * pgSize) 2 old) pteV = true
  tables : ∀ page ∈ tables memory.cell 2 old, Apart memory new page
  pages : ∀ vpn < count, Apart memory new (pte2pa (leafAt memory.cell (vpn * pgSize) 2 old))

section Copying

variable {table old new count : Nat} {vpns : Finset Nat} {before memory : Memory}

theorem Remapped.apart (remapped : Remapped true table vpns before memory)
    (empty : mappedPages true before.cell table vpns = 0) (apart : Apart before table page) :
    memory.cell page = before.cell page := by
  apply remapped.exchange.untouched
  rw [empty, add_zero, Multiset.mem_add, not_or]
  exact ⟨apart.1, apart.2⟩

theorem write_read_page (target source : Page) :
    Bytes.write target 0 (Bytes.read source 0 pgSize) = source := by
  funext index
  have inside : 0 ≤ index.val ∧ index.val < 0 + (Bytes.read source 0 pgSize).length := by
    rw [Bytes.read_length]
    omega
  rw [Bytes.write, if_pos inside]
  simp [Bytes.read, Bytes.byteAt]

variable [KernelImage] {allowed : String → Prop}

theorem uvmcopyFrom_fills (count mapped : Nat)
    (safe : Safe allowed before (tables before.cell 2 new)) (unmapped : Unmapped before new 0)
    (parent : Parent before old new (mapped + count))
    (bound : (mapped + count) * pgSize ≤ trapframeVa)
    (filled : Filled new 0 mapped (flagsOf before old) (contentsOf before old) before memory) :
    wp allowed (uvmcopyFrom old new count (mapped * pgSize)) memory fun done after =>
      if done = true then
        Filled new 0 (mapped + count) (flagsOf before old) (contentsOf before old) before after
      else Cleared new (userRange 0) before after := by
  have small : ∀ vpn, flagsOf before old vpn < 2 ^ 10 := fun vpn => pteFlags_lt _
  induction count generalizing mapped memory with
  | zero => exact wp_pure.mpr filled
  | succ count induction =>
    have total : mapped + 1 + count = mapped + (count + 1) := by omega
    have next : (0 + mapped + 1) * pgSize ≤ trapframeVa :=
      Nat.le_trans (Nat.mul_le_mul_right pgSize (by omega)) bound
    have here : (0 + mapped) * pgSize ≤ trapframeVa :=
      Nat.le_trans (Nat.mul_le_mul_right pgSize (Nat.le_succ _)) next
    have empty := unmapped.pages (pageRange_subset_userRange here)
    have undo := fun current (filled : Filled new 0 mapped (flagsOf before old)
        (contentsOf before old) before current) => filled.undo_spec safe unmapped here
    have page : mapped * pgSize / pgSize = mapped := Nat.mul_div_cancel _ (by decide)
    -- the parent is as it was at the start
    have kept : ∀ page ∈ tables before.cell 2 old, memory.cell page = before.cell page :=
      fun page member => filled.toRemapped.apart empty (parent.tables page member)
    have entry : leafAt memory.cell (mapped * pgSize) 2 old =
        leafAt before.cell (mapped * pgSize) 2 old := leafAt_congr kept
    have valid := parent.valid mapped (by omega)
    have leaf := parent.wellFormed.leaf valid
    rw [← entry] at valid
    rcases lowest_of_valid valid with ⟨low, found⟩
    have inRange := (vpn_lt_maxVa next).1
    rw [Nat.zero_add] at inRange
    rw [uvmcopyFrom, walk, if_neg (Nat.not_le.mpr inRange)]
    apply wp_bind.mpr
    apply walkFrom_noalloc
    simp only [found, Option.map_some, wp_bind, wp_loadPte, ← leafAt_of_lowest found,
      valid, Bool.not_true, Bool.false_eq_true, if_false, page]
    apply wp_mono (kalloc_spec memory)
    intro result allocated allocation
    cases result with
    | none =>
      subst allocation
      simp only [wp_bind, wp_pure, uvmunmap, Nat.zero_mod, ne_eq, not_true_eq_false, if_false]
      have taken := undo _ filled
      rw [Nat.zero_mul] at taken
      exact taken
    | some mem =>
      simp only [readPage, writePage, wp_bind, wp_get, wp_pure, wp_modify, write_read_page]
      have apart := parent.pages mapped (by omega)
      have different : pte2pa (leafAt memory.cell (mapped * pgSize) 2 old) ≠ mem := by
        intro equal
        rw [entry] at equal
        exact apart.1 (equal ▸ filled.toRemapped.free_of_free safe empty allocation.free)
      have copied : allocated.cell (pte2pa (leafAt memory.cell (mapped * pgSize) 2 old)) =
          contentsOf before old (0 + mapped) := by
        rw [allocation.same _ different, entry, filled.toRemapped.apart empty apart, contentsOf,
          Nat.zero_add]
      have fresh := allocation.store (contentsOf before old (0 + mapped))
      have flags : pteFlags (leafAt memory.cell (mapped * pgSize) 2 old) =
          flagsOf before old (0 + mapped) := by
        rw [entry, flagsOf, Nat.zero_add]
      have perm :
          hasFlag (flagsOf before old (0 + mapped)) (pteR ||| pteW ||| pteX) = true := by
        rw [← flags, hasFlag_pteFlags, entry]
        exact leaf
      have mapping := filled.mappages_spec small safe unmapped next perm fresh
        (Function.update_self _ _ _)
      rw [copied, flags]
      rw [Nat.zero_add] at mapping fresh ⊢
      apply wp_mono mapping
      intro done after result
      cases done with
      | true =>
        rw [if_pos rfl] at result
        have rest := induction (mapped + 1) (by rw [total]; exact parent)
          (by rw [total]; exact bound) result.1
        rw [total, Nat.succ_mul] at rest
        exact rest
      | false =>
        simp only [Bool.false_eq_true, if_false, wp_bind, wp_pure, uvmunmap,
          Nat.zero_mod, ne_eq, not_true_eq_false]
        apply wp_mono (filled.kfree_spec small safe unmapped here fresh result)
        intro _ last refilled
        have taken := undo _ refilled
        rw [Nat.zero_mul] at taken
        exact taken

omit [KernelImage] in
theorem flagsOf_entry (aligned : mem % pgSize = 0)
    (valid : hasFlag (leafAt before.cell (vpn * pgSize) 2 old) pteV = true) :
    pteFlags (pa2pte mem ||| flagsOf before old vpn ||| pteV) = flagsOf before old vpn ∧
      pte2pa (pa2pte mem ||| flagsOf before old vpn ||| pteV) = mem := by
  have small : flagsOf before old vpn < 2 ^ 10 := pteFlags_lt _
  have same : flagsOf before old vpn ||| pteV = flagsOf before old vpn := pteFlags_or_pteV valid
  rw [Nat.or_assoc, same]
  exact ⟨pteFlags_entry small, pte2pa_entry aligned small⟩

/-- `uvmcopy` copies memory exactly and privately, or leaves nothing behind; the parent is
as it was. -/
theorem uvmcopy_copies {sz : Nat} (safe : Safe NoPanic memory (tables memory.cell 2 new))
    (wellFormed : WellFormed memory.cell 2 new) (empty : HasSize memory.cell new 0)
    (parent : Parent memory old new (numPages sz)) (bound : sz ≤ trapframeVa) :
    wp NoPanic (uvmcopy old new sz) memory fun done after =>
      ((∀ va, entryOf after.cell old va = entryOf memory.cell old va) ∧
        ∀ vpn < numPages sz, userPageAt after.cell old vpn = userPageAt memory.cell old vpn) ∧
      if done = true then
        HasSize after.cell new sz ∧
        (∀ vpn < numPages sz, ∀ pte contents,
          userPageAt memory.cell old vpn = some (pte, contents) →
          ∃ mine, userPageAt after.cell new vpn = some (mine, contents) ∧
            pteFlags mine = pteFlags pte ∧ pte2pa mine ∈ memory.free) ∧
        (∀ vpn < numPages sz, ∀ other < numPages sz,
          pte2pa (leafAt after.cell (vpn * pgSize) 2 new) =
            pte2pa (leafAt after.cell (other * pgSize) 2 new) → vpn = other) ∧
        ∀ vpn < numPages sz, ∀ other < numPages sz,
          pte2pa (leafAt after.cell (vpn * pgSize) 2 new) ≠
            pte2pa (leafAt memory.cell (other * pgSize) 2 old)
      else
        HasSize after.cell new 0 ∧
        (after.free : Multiset Nat) + tables after.cell 2 new =
          memory.free + tables memory.cell 2 new := by
  have zero : numPages 0 = 0 := by decide
  have unmapped : Unmapped memory new 0 := by
    have none := empty.unmapped
    rw [zero] at none
    exact none
  have count : (sz + pgSize - 1) / pgSize = numPages sz := by
    unfold numPages pgRoundUp
    unfold trapframeVa trampolineVa maxVa at bound
    unfold pgSize at *
    omega
  have limit : (0 + numPages sz) * pgSize ≤ trapframeVa := by
    rw [Nat.zero_add, numPages_mul]
    exact pgRoundUp_le bound
  have within := pageRange_subset_userRange limit
  have vacant := unmapped.pages within
  have loop := uvmcopyFrom_fills (numPages sz) 0 safe unmapped
    (by rw [Nat.zero_add]; exact parent) limit (.start wellFormed)
  rw [Nat.zero_mul, Nat.zero_add] at loop
  -- nothing of the parent is touched
  have keeps : ∀ after vpns, Remapped true new vpns memory after →
      mappedPages true memory.cell new vpns = 0 →
      (∀ va, entryOf after.cell old va = entryOf memory.cell old va) ∧
        ∀ vpn < numPages sz, userPageAt after.cell old vpn = userPageAt memory.cell old vpn := by
    intro after vpns remapped none
    have kept : ∀ page ∈ tables memory.cell 2 old, after.cell page = memory.cell page :=
      fun page member => remapped.apart none (parent.tables page member)
    have entries : ∀ va, entryOf after.cell old va = entryOf memory.cell old va := by
      intro va
      rw [entryOf, entryOf, leafAt_congr kept]
    refine ⟨entries, ?_⟩
    intro vpn below
    rw [userPageAt, userPageAt, entries, entryOf_of_valid (parent.valid vpn below),
      Option.map_some, Option.map_some, remapped.apart none (parent.pages vpn below)]
  rw [uvmcopy, count]
  apply wp_mono loop
  intro done after result
  cases done with
  | false =>
    have cleared : Cleared new (userRange 0) memory after := result
    have none := unmapped.pages (Finset.Subset.refl _)
    refine ⟨keeps after _ cleared.toRemapped none, ?_, ?_⟩
    · intro vpn inside
      rw [userPageAt_isSome, cleared.unmapped vpn inside, zero]
      exact iff_of_false Bool.false_ne_true (Nat.not_lt_zero vpn)
    · have conserved := cleared.exchange.conserved
      rw [none, mappedPages_unmapped cleared.unmapped, add_zero, add_zero] at conserved
      exact conserved
  | true =>
    have filled : Filled new 0 (numPages sz) (flagsOf memory old) (contentsOf memory old)
      memory after := result
    have member : ∀ vpn < numPages sz, vpn ∈ pageRange 0 (numPages sz) := by
      intro vpn below
      rw [mem_pageRange]
      omega
    have aligned : ∀ mem ∈ memory.free, mem % pgSize = 0 := fun mem free =>
      (safe.good mem (Multiset.mem_add.mpr (.inl (Multiset.mem_coe.mpr free)))).1
    have page : ∀ vpn < numPages sz, ∃ mem ∈ memory.free,
        leafAt after.cell (vpn * pgSize) 2 new = pa2pte mem ||| flagsOf memory old vpn ||| pteV ∧
        pte2pa (leafAt after.cell (vpn * pgSize) 2 new) = mem ∧
        after.cell mem = contentsOf memory old vpn := by
      intro vpn below
      rcases filled.page vpn (member vpn below) with ⟨mem, free, entry, copied⟩
      refine ⟨mem, free, entry, ?_, copied⟩
      rw [entry]
      exact (flagsOf_entry (aligned mem free) (parent.valid vpn below)).2
    have valid : ∀ vpn < numPages sz,
        hasFlag (leafAt after.cell (vpn * pgSize) 2 new) pteV = true := by
      intro vpn below
      rcases page vpn below with ⟨_, _, entry, _⟩
      rw [entry]
      exact hasFlag_pteV
    refine ⟨keeps after _ filled.toRemapped vacant, ?_, ?_, ?_, ?_⟩
    · intro vpn inside
      by_cases below : vpn < numPages sz
      · exact iff_of_true (userPageAt_isSome.mpr (valid vpn below)) below
      · have outside : vpn ∉ pageRange 0 (numPages sz) := by
          rw [mem_pageRange]
          omega
        rw [userPageAt_isSome, filled.same vpn (userRange_lt inside) outside, unmapped vpn inside]
        exact iff_of_false Bool.false_ne_true below
    · intro vpn below pte contents found
      rcases page vpn below with ⟨mem, free, entry, target, copied⟩
      rw [userPageAt, entryOf_of_valid (parent.valid vpn below), Option.map_some] at found
      cases found
      refine ⟨leafAt after.cell (vpn * pgSize) 2 new, ?_, ?_, ?_⟩
      · rw [userPageAt, entryOf_of_valid (valid vpn below), Option.map_some, target, copied]
        rfl
      · rw [entry]
        exact (flagsOf_entry (aligned mem free) (parent.valid vpn below)).1
      · rw [target]
        exact free
    · intro vpn below other below' same
      have held := filled.toRemapped.safe safe vacant
      exact mappedPages_injective (Multiset.nodup_add.mp held.owned_nodup).2.1
        (member vpn below) (member other below') (valid vpn below) (valid other below') same
    · intro vpn below other below' same
      rcases page vpn below with ⟨mem, free, _, target, _⟩
      rw [target] at same
      exact (parent.pages other below').1 (same ▸ free)

end Copying

/-! A parent with one page, and the empty page table of a child. -/

section Small

attribute [local instance] Kernel.smallImage

def smallOld : Nat := physTop - 7 * pgSize

def smallNew : Nat := physTop - 8 * pgSize

/-- Two empty page tables and six free pages. -/
def smallStart : Memory where
  free := (List.range 6).map fun i => physTop - (i + 1) * pgSize
  cell := fun _ _ => 0

/-- The parent gets its page. -/
def smallGrow : Outcome (Nat × Memory) :=
  Prog.run StateOp.handle (uvmalloc smallOld 0 pgSize pteW) smallStart []

def smallParent : Memory := (smallGrow.getD (0, smallStart)).2

theorem smallStart_safe :
    Safe NoPanic smallStart (tables smallStart.cell 2 smallOld + {smallNew}) := by
  have pages : tables smallStart.cell 2 smallOld = {smallOld} := tables_zero rfl
  refine ⟨⟨?_, ?_⟩, .inr ?_⟩
  · rw [pages]
    decide
  · rw [pages]
    decide
  · rw [pages]
    decide

theorem smallParent_filled :
    Filled smallOld 0 1 (fun _ => pteR ||| pteU ||| pteW) (fun _ _ => 0)
      smallStart smallParent := by
  have ended : smallGrow = .next (smallGrow.getD (0, smallStart)) :=
    Outcome.eq_next_of_isNext (0, smallStart) (by decide +kernel)
  have success : (smallGrow.getD (0, smallStart)).1 = pgSize := by decide +kernel
  have unmapped : Unmapped smallStart smallOld (numPages 0) := by
    intro vpn _
    rw [leafAt_zero rfl]
    rfl
  have result := Prog.run_eq_next (uvmalloc_fills (Nat.zero_le pgSize) (by decide) (by decide)
    (smallStart_safe.of_le (Multiset.le_add_right _ _)) (.zero rfl) unmapped (.inl (by decide)))
    ended
  rcases result with grown | failed
  · exact grown.2.2
  · exact absurd (success.symm.trans failed.1) (by decide)

theorem smallParent_exchange : Exchange smallStart (tables smallStart.cell 2 smallOld)
    smallParent (tables smallParent.cell 2 smallOld +
      mappedPages true smallParent.cell smallOld (pageRange 0 1)) := by
  have none : mappedPages true smallStart.cell smallOld (pageRange 0 1) = 0 := by
    apply mappedPages_unmapped
    intro vpn _
    rw [leafAt_zero rfl]
    rfl
  have exchange := smallParent_filled.exchange
  rw [none, add_zero] at exchange
  exact exchange

theorem smallParent_new : smallParent.cell smallNew = fun _ => 0 :=
  smallStart_safe.toProper.untouched smallParent_exchange (Multiset.mem_singleton_self smallNew)

theorem smallParent_tables : tables smallParent.cell 2 smallNew = {smallNew} :=
  tables_zero smallParent_new

theorem uvmcopy_copies_small :
    Parent smallParent smallOld smallNew (numPages pgSize) ∧
    wp NoPanic (uvmcopy smallOld smallNew pgSize) smallParent fun done after =>
      if done = true then HasSize after.cell smallNew pgSize
      else HasSize after.cell smallNew 0 := by
  have held := smallStart_safe.exchange (smallParent_exchange.frame {smallNew})
  have nodup := held.owned_nodup
  have valid : ∀ vpn < numPages pgSize,
      hasFlag (leafAt smallParent.cell (vpn * pgSize) 2 smallOld) pteV = true := by
    intro vpn below
    have one : numPages pgSize = 1 := by decide
    rcases smallParent_filled.page vpn (by rw [mem_pageRange]; omega) with ⟨_, _, entry, _⟩
    rw [entry]
    exact hasFlag_pteV
  have apart : ∀ page ∈ tables smallParent.cell 2 smallOld +
      mappedPages true smallParent.cell smallOld (pageRange 0 1),
      Apart smallParent smallNew page := by
    intro page member
    refine ⟨held.toProper.not_mem_free (Multiset.mem_add.mpr (.inl member)), ?_⟩
    rw [smallParent_tables]
    exact Multiset.disjoint_left.mp (Multiset.nodup_add.mp nodup).2.2 member
  have parent : Parent smallParent smallOld smallNew (numPages pgSize) := by
    refine ⟨smallParent_filled.wellFormed, valid, ?_, ?_⟩
    · exact fun page member => apart page (Multiset.mem_add.mpr (.inl member))
    · intro vpn below
      have one : numPages pgSize = 1 := by decide
      exact apart _ (Multiset.mem_add.mpr (.inr
        (mem_mappedPages_of_valid (by rw [mem_pageRange]; omega) (valid vpn below))))
  have empty : HasSize smallParent.cell smallNew 0 := by
    intro vpn _
    rw [userPageAt_isSome, leafAt_zero smallParent_new]
    exact iff_of_false (by decide) (Nat.not_lt_zero vpn)
  have safe : Safe NoPanic smallParent (tables smallParent.cell 2 smallNew) := by
    rw [smallParent_tables]
    exact held.of_le (Multiset.le_add_left _ _)
  refine ⟨parent, ?_⟩
  apply wp_mono (uvmcopy_copies safe (.zero smallParent_new) empty parent (by decide))
  intro done after result
  cases done with
  | true | false => exact result.2.1

end Small

end Xv6.Vm
