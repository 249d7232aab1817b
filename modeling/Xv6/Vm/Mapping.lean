import Xv6.Vm.Space
import Mathlib.Order.Interval.Finset.Nat

/-! # What `mappages` and `uvmunmap` do to the entries of a page table

Both work on the entries of a range of virtual pages and leave all others alone.
The pages that are mapped may be owned by the address space or not. -/

namespace Xv6.Vm

open StateProg
open Prog (wp_bind wp_mono wp_pure)

/-- The panics that may end a run: none. -/
def NoPanic (_ : String) : Prop := False

variable {low pte : Nat}

theorem Changed.store (grown : Grown 2 table before middle)
    (found : lowest middle.cell va 2 table = some low)
    (proper : Proper before (tables before.cell 2 table)) (small : pte < 2 ^ 64)
    (leaf : hasFlag pte pteV = true → hasFlag pte (pteR ||| pteW ||| pteX) = true) :
    Changed table va pte before { middle with cell := setEntry middle.cell low (px 0 va) pte } := by
  have nodup := (proper.exchange grown.exchange).owned_nodup
  refine ⟨?_, grown.wellFormed.setLeaf found nodup small leaf, ?_, ?_, ?_⟩
  · rw [tables_setLeaf found nodup]
    exact grown.exchange.trans (Exchange.store middle (lowest_mem found) _)
  · rw [tables_setLeaf found nodup]
    exact grown.more
  · intro other same
    exact leafAt_setLeaf_same found nodup small same
  · intro other different
    rw [leafAt_setLeaf_ne found nodup small different]
    exact grown.leaf other

/-! ## Entries that change -/

/-- The pages that are mapped at some virtual pages, where the address space owns them. -/
def mappedPages (owned : Bool) (cell : Nat → Page) (table : Nat) (vpns : Finset Nat) :
    Multiset Nat :=
  if owned then leafPages (fun va => leafAt cell va 2 table) vpns else 0

/-- Only entries of `vpns` were changed, and page-table pages may have been added. Pages
that are mapped there and owned came from the free list or went to it. -/
structure Remapped (owned : Bool) (table : Nat) (vpns : Finset Nat) (before after : Memory) :
    Prop where
  exchange : Exchange before
    (tables before.cell 2 table + mappedPages owned before.cell table vpns) after
    (tables after.cell 2 table + mappedPages owned after.cell table vpns)
  wellFormed : WellFormed after.cell 2 table
  more : tables before.cell 2 table ≤ tables after.cell 2 table
  same : ∀ vpn < 2 ^ 27, vpn ∉ vpns →
    leafAt after.cell (vpn * pgSize) 2 table = leafAt before.cell (vpn * pgSize) 2 table

/-- The virtual pages of a range. -/
def pageRange (first count : Nat) : Finset Nat := Finset.Ico first (first + count)

variable {count first : Nat}

@[simp] theorem mem_pageRange : vpn ∈ pageRange first count ↔ first ≤ vpn ∧ vpn < first + count :=
  Finset.mem_Ico

theorem pageRange_zero : pageRange first 0 = ∅ := Finset.Ico_self first

section Changes

variable {owned : Bool} {table va pte : Nat} {vpns larger : Finset Nat}
  {first second third : Memory} {cell after : Nat → Page}

theorem mappedPages_congr
    (same : ∀ vpn ∈ vpns,
      leafAt after (vpn * pgSize) 2 table = leafAt cell (vpn * pgSize) 2 table) :
    mappedPages owned after table vpns = mappedPages owned cell table vpns := by
  unfold mappedPages
  split
  · exact leafPages_congr same
  · rfl

theorem mappedPages_subset (subset : vpns ⊆ larger) :
    mappedPages owned cell table larger =
      mappedPages owned cell table vpns + mappedPages owned cell table (larger \ vpns) := by
  unfold mappedPages
  split
  · rw [leafPages, leafPages, leafPages, add_comm, Finset.sum_sdiff subset]
  · rfl

theorem mappedPages_unmapped
    (unmapped : ∀ vpn ∈ vpns, hasFlag (leafAt cell (vpn * pgSize) 2 table) pteV = false) :
    mappedPages owned cell table vpns = 0 := by
  unfold mappedPages
  split
  · apply Finset.sum_eq_zero
    intro vpn inside
    exact if_neg (Bool.eq_false_iff.mp (unmapped vpn inside))
  · rfl

namespace Remapped

theorem refl (wellFormed : WellFormed first.cell 2 table) :
    Remapped owned table vpns first first :=
  ⟨.refl _ _, wellFormed, le_refl _, fun _ _ _ => rfl⟩

theorem trans (left : Remapped owned table vpns first second)
    (right : Remapped owned table vpns second third) : Remapped owned table vpns first third :=
  ⟨left.exchange.trans right.exchange, right.wellFormed, left.more.trans right.more,
    fun vpn bound outside => (right.same vpn bound outside).trans (left.same vpn bound outside)⟩

theorem mono (remapped : Remapped owned table vpns first second) (subset : vpns ⊆ larger)
    (inside : ∀ vpn ∈ larger, vpn < 2 ^ 27) : Remapped owned table larger first second := by
  refine ⟨?_, remapped.wellFormed, remapped.more,
    fun vpn bound outside => remapped.same vpn bound fun member => outside (subset member)⟩
  have others : mappedPages owned second.cell table (larger \ vpns) =
      mappedPages owned first.cell table (larger \ vpns) := by
    apply mappedPages_congr
    intro vpn member
    rcases Finset.mem_sdiff.mp member with ⟨within, outside⟩
    exact remapped.same vpn (inside vpn within) outside
  rw [mappedPages_subset subset, mappedPages_subset subset, others, ← add_assoc, ← add_assoc]
  exact remapped.exchange.frame _

end Remapped

theorem Grown.remapped (grown : Grown 2 table first second) :
    Remapped owned table ∅ first second := by
  refine ⟨?_, grown.wellFormed, grown.more, fun vpn _ _ => grown.leaf (vpn * pgSize)⟩
  rw [mappedPages_unmapped (by simp), mappedPages_unmapped (by simp), add_zero, add_zero]
  exact grown.exchange

theorem Changed.same (changed : Changed table va pte first second) (aligned : va % pgSize = 0)
    (bound : va < 2 ^ 39) :
    ∀ vpn < 2 ^ 27, vpn ∉ ({va / pgSize} : Finset Nat) →
      leafAt second.cell (vpn * pgSize) 2 table = leafAt first.cell (vpn * pgSize) 2 table := by
  intro vpn small outside
  apply changed.elsewhere
  rw [sameSlot_page aligned bound small]
  exact fun equal => outside (Finset.mem_singleton.mpr equal)

theorem Changed.remapped (changed : Changed table va pte first second)
    (aligned : va % pgSize = 0) (bound : va < 2 ^ 39) :
    Remapped false table {va / pgSize} first second := by
  refine ⟨?_, changed.wellFormed, changed.more, changed.same aligned bound⟩
  rw [mappedPages, mappedPages, if_neg Bool.false_ne_true, if_neg Bool.false_ne_true, add_zero,
    add_zero]
  exact changed.exchange

end Changes

/-! ## `mappages` -/

section Mappages

variable {allowed : String → Prop} {table perm va pa : Nat} {memory : Memory}

theorem mappagesFrom_step {post : Bool → Memory → Prop} (inRange : va < maxVa)
    (proper : Proper memory (tables memory.cell 2 table))
    (wellFormed : WellFormed memory.cell 2 table)
    (leaf : hasFlag perm (pteR ||| pteW ||| pteX) = true) (small : perm < 2 ^ 64)
    (bound : pa < 2 ^ 64) (unmapped : hasFlag (leafAt memory.cell va 2 table) pteV = false)
    (stops : ∀ after, Grown 2 table memory after → post false after)
    (goesOn : ∀ middle, Changed table va (pa2pte pa ||| perm ||| pteV) memory middle →
      wp allowed (mappagesFrom table perm count (va + pgSize) ((pa + pgSize) % 2 ^ 64)) middle
        post) : wp allowed (mappagesFrom table perm (count + 1) va pa) memory post := by
  rw [mappagesFrom, walk, if_neg (Nat.not_le.mpr inRange)]
  apply wp_bind.mpr
  apply wp_mono (walkFrom_alloc_spec va 2 table memory proper wellFormed)
  intro result middle walked
  rcases walked with ⟨grown, low⟩
  cases result with
  | none => exact wp_pure.mpr (stops middle grown)
  | some entry =>
    rcases entry with ⟨page, index⟩
    rcases low page index rfl with ⟨rfl, found⟩
    rw [← grown.leaf, leafAt_of_lowest found] at unmapped
    simp only [wp_bind, wp_loadPte, unmapped, Bool.false_eq_true, if_false, wp_storePte]
    apply goesOn
    apply Changed.store grown found proper
    · have page : pa2pte pa < 2 ^ 64 := by
        rw [pa2pte, Nat.shiftLeft_eq, Nat.shiftRight_eq_div_pow]
        omega
      exact Nat.or_lt_two_pow (Nat.or_lt_two_pow page small) (by decide)
    · intro _
      rw [Nat.or_assoc, hasFlag_entry (by decide), hasFlag_or_pteV]
      exact leaf

theorem mappages_page_spec (aligned : va % pgSize = 0) (inRange : va < maxVa)
    (proper : Proper memory (tables memory.cell 2 pagetable))
    (wellFormed : WellFormed memory.cell 2 pagetable)
    (leaf : hasFlag perm (pteR ||| pteW ||| pteX) = true) (small : perm < 2 ^ 10)
    (bound : pa < 2 ^ 56) (unmapped : hasFlag (leafAt memory.cell va 2 pagetable) pteV = false) :
    wp allowed (mappages pagetable va pgSize pa perm) memory fun done after =>
      if done = true then Changed pagetable va (pa2pte pa ||| perm ||| pteV) memory after
      else Grown 2 pagetable memory after := by
  rw [mappages, if_neg (by decide)]
  simp only [pgRoundDown_of_aligned aligned, pgRoundDown_last aligned, Nat.sub_self, Nat.zero_div]
  apply mappagesFrom_step inRange proper wellFormed leaf (by omega) (by omega) unmapped
  · exact fun after grown => grown
  · exact fun middle changed => wp_pure.mpr changed

end Mappages

/-! ## `uvmunmap` -/

/-- Free and owned pages that can be freed, where `kfree` may not panic. -/
structure Safe [KernelImage] (allowed : String → Prop) (memory : Memory) (owned : Multiset Nat) :
    Prop extends Proper memory owned where
  above : allowed "kfree" ∨
    ∀ pa ∈ (memory.free : Multiset Nat) + owned, KernelImage.kernelEnd ≤ pa

theorem Proper.of_le {owned less : Multiset Nat} (proper : Proper memory owned) (le : less ≤ owned) :
    Proper memory less where
  nodup := Multiset.nodup_of_le (Multiset.add_le_add_left le) proper.nodup
  good := fun pa member => proper.good pa (Multiset.mem_of_le (Multiset.add_le_add_left le) member)

namespace Safe

variable [KernelImage] {allowed : String → Prop} {memory after : Memory}
  {owned owned' less : Multiset Nat}

theorem exchange (safe : Safe allowed memory owned)
    (exchange : Exchange memory owned after owned') :
    Safe allowed after owned' := by
  refine ⟨safe.toProper.exchange exchange, ?_⟩
  rw [exchange.conserved]
  exact safe.above

theorem of_le (safe : Safe allowed memory owned) (le : less ≤ owned) :
    Safe allowed memory less := by
  refine ⟨safe.toProper.of_le le, safe.above.imp_right fun above pa member => ?_⟩
  exact above pa (Multiset.mem_of_le (Multiset.add_le_add_left le) member)

theorem kfree {pa : Nat} (safe : Safe allowed memory owned) (member : pa ∈ owned) :
    wp allowed (kfree pa) memory fun _ after =>
      (∀ owned, Exchange memory (pa ::ₘ owned) after owned) ∧
        ∀ page, page ≠ pa → after.cell page = memory.cell page := by
  have inside : pa ∈ (memory.free : Multiset Nat) + owned := Multiset.mem_add.mpr (.inr member)
  rcases safe.good pa inside with ⟨aligned, below⟩
  apply kfree_takes
  exact safe.above.imp_right fun above => ⟨aligned, above pa inside, below⟩

end Safe

theorem pteFlags_ne_pteV (leaf : hasFlag pte (pteR ||| pteW ||| pteX) = true) :
    pteFlags pte ≠ pteV := by
  intro equal
  rw [← hasFlag_pteFlags, equal] at leaf
  exact absurd leaf (by decide)

variable {doFree : Bool} {npages : Nat}

section Unmap

variable [KernelImage] {allowed : String → Prop} {table va : Nat} {memory : Memory}

theorem uvmunmapFrom_step {post : Unit → Memory → Prop} (inRange : va < maxVa)
    (wellFormed : WellFormed memory.cell 2 table) (found : lowest memory.cell va 2 table = some low)
    (valid : hasFlag (leafAt memory.cell va 2 table) pteV = true)
    (holds : wp allowed (do
        if doFree then
          kfree (pte2pa (leafAt memory.cell va 2 table))
        storePte low (px 0 va) 0
        uvmunmapFrom table doFree npages (va + pgSize)) memory post) :
    wp allowed (uvmunmapFrom table doFree (npages + 1) va) memory post := by
  rw [uvmunmapFrom, walk, if_neg (Nat.not_le.mpr inRange)]
  apply wp_bind.mpr
  apply walkFrom_noalloc
  rw [found]
  apply wp_bind.mpr
  apply wp_loadPte.mpr
  rw [← leafAt_of_lowest found, valid]
  simp only [Bool.not_true, Bool.false_eq_true, if_false]
  rw [if_neg (pteFlags_ne_pteV (wellFormed.leaf valid))]
  exact holds

theorem unmapPage_spec {owned : Bool} (aligned : va % pgSize = 0) (bound : va < 2 ^ 39)
    (safe : Safe allowed memory
      (tables memory.cell 2 table + mappedPages owned memory.cell table {va / pgSize}))
    (wellFormed : WellFormed memory.cell 2 table) (found : lowest memory.cell va 2 table = some low)
    (valid : hasFlag (leafAt memory.cell va 2 table) pteV = true) :
    wp allowed (do
        if owned then
          kfree (pte2pa (leafAt memory.cell va 2 table))
        storePte low (px 0 va) 0) memory fun _ after =>
      Remapped owned table {va / pgSize} memory after ∧
        leafAt after.cell (va / pgSize * pgSize) 2 table = 0 := by
  have whole : va / pgSize * pgSize = va := Nat.div_mul_cancel (Nat.dvd_of_mod_eq_zero aligned)
  have proper : Proper memory (tables memory.cell 2 table) := safe.toProper.left
  cases owned with
  | false =>
    simp only [Bool.false_eq_true, if_false, wp_storePte]
    have changed : Changed table va 0 memory
        { memory with cell := setEntry memory.cell low (px 0 va) 0 } :=
      Changed.store (.refl wellFormed) found proper (by decide) (by decide)
    rw [whole]
    exact ⟨changed.remapped aligned bound, changed.here va fun _ _ => rfl⟩
  | true =>
    have pages : mappedPages true memory.cell table {va / pgSize} =
        {pte2pa (leafAt memory.cell va 2 table)} := by
      rw [mappedPages, if_pos rfl, leafPages, Finset.sum_singleton, whole, mapped, if_pos valid]
    rw [pages] at safe
    simp only [if_true, wp_bind, wp_storePte]
    generalize pte2pa (leafAt memory.cell va 2 table) = pa at pages safe ⊢
    apply wp_mono (safe.kfree (Multiset.mem_add.mpr (.inr (Multiset.mem_singleton_self pa))))
    intro _ freed released
    rcases released with ⟨released, elsewhere⟩
    -- the page that is freed is not a page of the page table
    have kept : ∀ page ∈ tables memory.cell 2 table, freed.cell page = memory.cell page := by
      intro page inside
      apply elsewhere
      rintro rfl
      exact Multiset.disjoint_left.mp (Multiset.nodup_add.mp safe.owned_nodup).2.2 inside
        (Multiset.mem_singleton_self _)
    have first : Exchange memory
        (tables memory.cell 2 table + {pa}) freed (tables freed.cell 2 table) := by
      rw [tables_congr kept, add_comm, Multiset.singleton_add]
      exact released _
    have changed : Changed table va 0 freed
        { freed with cell := setEntry freed.cell low (px 0 va) 0 } :=
      Changed.store (.refl (wellFormed.congr kept)) ((lowest_congr kept).trans found)
        (safe.toProper.exchange first) (by decide) (by decide)
    have zero :
        leafAt (setEntry freed.cell low (px 0 va) 0) (va / pgSize * pgSize) 2 table = 0 := by
      rw [whole]
      exact changed.here va fun _ _ => rfl
    refine ⟨⟨?_, changed.wellFormed, ?_, ?_⟩, zero⟩
    · have none :
          mappedPages true (setEntry freed.cell low (px 0 va) 0) table {va / pgSize} = 0 := by
        apply mappedPages_unmapped
        intro vpn member
        rw [Finset.mem_singleton.mp member, zero]
        decide
      rw [pages, none, add_zero]
      exact first.trans changed.exchange
    · rw [← tables_congr kept]
      exact changed.more
    · intro vpn small outside
      rw [changed.same aligned bound vpn small outside, leafAt_congr kept]

/-- `uvmunmap` clears the entries of a range, and frees the pages if it is told to. -/
theorem uvmunmapFrom_spec {owned : Bool} (npages va : Nat) {memory : Memory}
    (aligned : va % pgSize = 0) (inRange : va + npages * pgSize ≤ maxVa)
    (safe : Safe allowed memory (tables memory.cell 2 table +
      mappedPages owned memory.cell table (pageRange (va / pgSize) npages)))
    (wellFormed : WellFormed memory.cell 2 table)
    (valid : ∀ vpn ∈ pageRange (va / pgSize) npages,
      hasFlag (leafAt memory.cell (vpn * pgSize) 2 table) pteV = true) :
    wp allowed (uvmunmapFrom table owned npages va) memory fun _ after =>
      Remapped owned table (pageRange (va / pgSize) npages) memory after ∧
        ∀ vpn ∈ pageRange (va / pgSize) npages, leafAt after.cell (vpn * pgSize) 2 table = 0 := by
  induction npages generalizing va memory with
  | zero =>
    refine wp_pure.mpr ⟨.refl wellFormed, ?_⟩
    intro vpn inside
    rw [mem_pageRange] at inside
    omega
  | succ npages induction =>
    have whole : va / pgSize * pgSize = va :=
      Nat.div_mul_cancel (Nat.dvd_of_mod_eq_zero aligned)
    have next : (va + pgSize) / pgSize = va / pgSize + 1 := Nat.add_div_right va (by decide)
    have below : va < maxVa ∧ va < 2 ^ 39 := by
      unfold maxVa pgSize at *
      omega
    have single : {va / pgSize} ⊆ pageRange (va / pgSize) (npages + 1) := by
      rw [Finset.singleton_subset_iff, mem_pageRange]
      omega
    have later : pageRange (va / pgSize + 1) npages ⊆ pageRange (va / pgSize) (npages + 1) := by
      intro vpn member
      rw [mem_pageRange] at member ⊢
      omega
    have inside : ∀ vpn ∈ pageRange (va / pgSize) (npages + 1), vpn < 2 ^ 27 := by
      intro vpn member
      rw [mem_pageRange] at member
      unfold maxVa pgSize at *
      omega
    have here := valid (va / pgSize) (single (Finset.mem_singleton_self _))
    rw [whole] at here
    rcases lowest_of_valid here with ⟨low, found⟩
    have safeHere : Safe allowed memory
        (tables memory.cell 2 table + mappedPages owned memory.cell table {va / pgSize}) := by
      apply safe.of_le
      rw [mappedPages_subset single]
      exact Multiset.add_le_add_left (Multiset.le_add_right _ _)
    apply uvmunmapFrom_step below.1 wellFormed found here
    have one := unmapPage_spec aligned below.2 safeHere wellFormed found here
    have goOn : ∀ middle, Remapped owned table {va / pgSize} memory middle →
        leafAt middle.cell (va / pgSize * pgSize) 2 table = 0 →
        wp allowed (uvmunmapFrom table owned npages (va + pgSize)) middle fun _ after =>
          Remapped owned table (pageRange (va / pgSize) (npages + 1)) memory after ∧
            ∀ vpn ∈ pageRange (va / pgSize) (npages + 1),
              leafAt after.cell (vpn * pgSize) 2 table = 0 := by
      intro middle first zero
      have all := first.mono single inside
      have others : ∀ vpn ∈ pageRange (va / pgSize + 1) npages,
          leafAt middle.cell (vpn * pgSize) 2 table =
            leafAt memory.cell (vpn * pgSize) 2 table := by
        intro vpn member
        apply first.same vpn (inside vpn (later member))
        rw [mem_pageRange] at member
        rw [Finset.mem_singleton]
        omega
      have rest := @induction (va + pgSize) middle (by rw [Nat.add_mod_right]; exact aligned)
        (by rw [Nat.succ_mul] at inRange; omega)
      rw [next] at rest
      apply wp_mono (rest ?_ first.wellFormed ?_)
      · intro _ after further
        rcases further with ⟨remapped, cleared⟩
        refine ⟨all.trans (remapped.mono later inside), ?_⟩
        intro vpn member
        rw [mem_pageRange] at member
        rcases Nat.eq_or_lt_of_le member.1 with equal | above
        · rw [← equal, remapped.same _ (inside _ (single (Finset.mem_singleton_self _)))
            (by rw [mem_pageRange]; omega)]
          exact zero
        · exact cleared vpn (by rw [mem_pageRange]; omega)
      · apply (safe.exchange all.exchange).of_le
        rw [mappedPages_subset later]
        exact Multiset.add_le_add_left (Multiset.le_add_right _ _)
      · intro vpn member
        rw [others vpn member]
        exact valid vpn (later member)
    cases owned with
    | false =>
      simp only [Bool.false_eq_true, if_false, wp_bind] at one ⊢
      exact wp_mono one fun _ middle done => goOn middle done.1 done.2
    | true =>
      simp only [if_true, wp_bind] at one ⊢
      apply wp_mono one
      exact fun _ freed stored => wp_mono stored fun _ middle done =>
        goOn middle done.1 done.2

end Unmap

/-! ## The partial map -/

/-- What is mapped at `va`: the entry for it, if it is valid. -/
def entryOf (cell : Nat → Page) (table va : Nat) : Option Nat :=
  if hasFlag (leafAt cell va 2 table) pteV then some (leafAt cell va 2 table) else none

section Map

variable {owned : Bool} {cell : Nat → Page} {table va : Nat} {vpns : Finset Nat}
  {memory after : Memory} {allowed : String → Prop}

theorem entryOf_of_valid (valid : hasFlag (leafAt cell va 2 table) pteV = true) :
    entryOf cell table va = some (leafAt cell va 2 table) :=
  if_pos valid

theorem entryOf_eq_none : entryOf cell table va = none ↔
    hasFlag (leafAt cell va 2 table) pteV = false := by
  unfold entryOf
  split
  · rename_i valid
    rw [valid]
    exact iff_of_false (by simp) (by simp)
  · rename_i invalid
    exact iff_of_true rfl (Bool.eq_false_iff.mpr invalid)

theorem leafAt_page (bound : va < 2 ^ 39) :
    leafAt cell va 2 table = leafAt cell (va / pgSize * pgSize) 2 table := by
  have small : va / pgSize < 2 ^ 27 := by
    unfold pgSize
    omega
  have same := sameSlot_div va
  rw [Nat.mod_eq_of_lt small] at same
  exact leafAt_of_sameSlot same

theorem entryOf_page (bound : va < 2 ^ 39) :
    entryOf cell table va = entryOf cell table (va / pgSize * pgSize) := by
  rw [entryOf, entryOf, leafAt_page bound]

theorem Remapped.entryOf_eq (remapped : Remapped owned table vpns memory after)
    (bound : va < 2 ^ 39) (outside : va / pgSize ∉ vpns) :
    entryOf after.cell table va = entryOf memory.cell table va := by
  have small : va / pgSize < 2 ^ 27 := by
    unfold pgSize
    omega
  rw [entryOf_page bound, entryOf_page bound, entryOf, entryOf, remapped.same _ small outside]

/-- The page tables of `vm.c`: the page-table pages and the free pages are different pages
above the kernel. -/
structure PageTable [KernelImage] (memory : Memory) (table : Nat) : Prop where
  safe : Safe NoPanic memory (tables memory.cell 2 table)
  wellFormed : WellFormed memory.cell 2 table

theorem Remapped.pageTable [KernelImage] (remapped : Remapped owned table vpns memory after)
    (safe : Safe NoPanic memory (tables memory.cell 2 table + pages))
    (held : mappedPages owned memory.cell table vpns = pages) : PageTable after table := by
  rw [← held] at safe
  exact ⟨(safe.exchange remapped.exchange).of_le (Multiset.le_add_right _ _), remapped.wellFormed⟩

end Map

section Small

attribute [local instance] Kernel.smallImage

/-- An empty page table, and two free pages. -/
def smallMemory : Memory where
  free := [physTop - 2 * pgSize, physTop - pgSize]
  cell := fun _ _ => 0

theorem smallMemory_pageTable :
    PageTable smallMemory (physTop - 3 * pgSize) := by
  have pages : tables smallMemory.cell 2 (physTop - 3 * pgSize) = {physTop - 3 * pgSize} :=
    tables_zero rfl
  refine ⟨⟨⟨?_, ?_⟩, .inr ?_⟩, .zero rfl⟩
  · rw [pages]
    decide
  · rw [pages]
    decide
  · rw [pages]
    decide

end Small

end Xv6.Vm
