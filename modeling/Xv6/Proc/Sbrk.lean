import Xv6.Proc.System

/-! # `sbrk`

`sys_sbrk` returns the old size when `growproc` says that it went well. `uvmdealloc` takes
a new size that is not below the old one for a request to do nothing, and the new size is
computed in 64 bits: what is taken away from a process must not be more than it has. -/

namespace Xv6.Kernel

open StateProg Vm
open Prog (wp_bind wp_mono wp_pure)

section Calls

variable [KernelImage]

def sysSbrk (p : Nat) (n : Int) : KernelProg Int := do
  let addr := ((← get).proc p).sz
  if (← growproc p n) < 0 then
    return -1
  else
    return addr

/-- User memory of this size, whose pages are in use only there. -/
structure UserSpace (memory : Memory) (table sz : Nat) : Prop where
  safe : Safe NoPanic memory
    (tables memory.cell 2 table + mappedPages true memory.cell table (userRange 0))
  wellFormed : WellFormed memory.cell 2 table
  size : HasSize memory.cell table sz
  bound : sz ≤ trapframeVa

/-- Size and mappings are as before. -/
def SizeKept (p table : Nat) (before after : Kernel) : Prop :=
  (after.proc p).sz = (before.proc p).sz ∧
    ∀ va < maxVa, entryOf after.memory.cell table va = entryOf before.memory.cell table va

/-- The size has changed by `n`, and there is that much memory. -/
def SizeChanged (p table : Nat) (n : Int) (before after : Kernel) : Prop :=
  ((after.proc p).sz : Int) = (before.proc p).sz + n ∧
    HasSize after.memory.cell table (after.proc p).sz

section Space

omit [KernelImage]

variable {table sz : Nat} {memory after : Memory}

theorem Cleared.entryOf_same (cleared : Cleared table (userRange (numPages sz)) memory after)
    (size : HasSize memory.cell table sz) (inRange : va < maxVa) :
    entryOf after.cell table va = entryOf memory.cell table va := by
  have wide : va < 2 ^ 39 := by
    unfold maxVa at inRange
    omega
  by_cases above : va / pgSize ∈ userRange (numPages sz)
  · have none := size.unmapped _ above
    have none' := cleared.unmapped _ above
    rw [← leafAt_page wide] at none none'
    rw [entryOf_eq_none.mpr none, entryOf_eq_none.mpr none']
  · exact cleared.toRemapped.entryOf_eq wide above

end Space

variable {p table : Nat} {n : Int} {kernel : Kernel}

theorem UserSpace.room {memory : Memory} {sz : Nat} (space : UserSpace memory table sz) :
    (numPages sz + memory.free.length) * pgSize ≤ trapframeVa := by
  have inside : ∀ vpn ∈ pageRange 0 (numPages sz), vpn ∈ userRange 0 := by
    intro vpn member
    rw [mem_pageRange] at member
    exact numPages_lt space.bound (by omega)
  have valid : ∀ vpn ∈ pageRange 0 (numPages sz),
      hasFlag (leafAt memory.cell (vpn * pgSize) 2 table) pteV = true := by
    intro vpn member
    apply userPageAt_isSome.mp
    apply (space.size vpn (inside vpn member)).mpr
    rw [mem_pageRange] at member
    omega
  have count := card_mappedPages valid
  rw [pageRange, Nat.card_Ico, Nat.add_sub_cancel_left, ← pageRange] at count
  have less : mappedPages true memory.cell table (pageRange 0 (numPages sz)) ≤
      tables memory.cell 2 table + mappedPages true memory.cell table (userRange 0) := by
    rw [mappedPages_subset inside, ← add_assoc]
    exact (Multiset.le_add_left _ _).trans (Multiset.le_add_right _ _)
  have held := space.safe.of_le less
  have total := card_le_pages held.nodup held.good
  rw [Multiset.card_add, Multiset.coe_card, count] at total
  unfold physTop kernBase trapframeVa trampolineVa maxVa pgSize at *
  omega

theorem Balanced.userSpace (balanced : Balanced boot kernel owned held)
    (placed : KernelImage.kernelEnd ≤ physTop) (running : Running kernel p)
    (found : (kernel.proc p).pagetable = some table) :
    UserSpace kernel.memory table (kernel.proc p).sz := by
  have ok := balanced.world.procOk running.slot
  have maps := ok.maps table found
  rcases ok.space table found with ⟨_, _, space⟩
  have own : userRange 0 ⊆ ownVpns := fun vpn inside => own_of_lt_div (mem_userRange.mp inside).2
  refine ⟨?_, space.wellFormed, ?_, ok.size⟩
  · have safe : Safe NoPanic kernel.memory (Vm.space kernel.memory.cell table) :=
      balanced.world.safeSpace placed running.slot found
    have whole : userPages kernel.memory.cell table =
      mappedPages true kernel.memory.cell table ownVpns := (if_pos rfl).symm
    apply safe.of_le
    rw [Vm.space, whole, mappedPages_subset own, ← add_assoc]
    exact Multiset.le_add_right _ _
  · intro vpn inside
    rw [userPageAt_isSome]
    exact maps vpn (own inside)

section

variable (found : (kernel.proc p).pagetable = some table)

include found

theorem growproc_grows (space : UserSpace kernel.memory table (kernel.proc p).sz) (grows : 0 < n)
    (isInt : n < 2 ^ 31) :
    wp NoPanic (growproc p n) kernel fun ret after =>
      ret = -1 ∧ SizeKept p table kernel after ∨ ret = 0 ∧ SizeChanged p table n kernel after := by
  have bound := space.bound
  have newsz : ((((kernel.proc p).sz : Int) + n) % 2 ^ 64).toNat =
      (kernel.proc p).sz + n.toNat := by
    unfold trapframeVa trampolineVa maxVa pgSize at bound
    omega
  unfold growproc
  apply wp_bind.mpr
  apply wp_get.mpr
  apply wp_bind.mpr
  apply wp_pagetableOf found
  rw [if_pos grows, newsz]
  apply wp_bind.mpr
  apply onMemory_spec
  apply wp_mono (uvmalloc_fills (Nat.le_add_right _ _) bound (by decide)
    (space.safe.of_le (Multiset.le_add_right _ _)) space.wellFormed space.size.unmapped
    (.inr space.room))
  intro sz memory result
  rcases result with grown | failed
  · rcases grown with ⟨rfl, limit, filled⟩
    rw [if_neg (by omega)]
    apply wp_bind.mpr
    apply wp_modifyProc.mpr
    refine wp_pure.mpr (.inr ⟨rfl, ?_, ?_⟩)
    · rw [setProc_proc_self]
      push_cast
      omega
    · rw [setProc_proc_self]
      exact filled.hasSize space.size (numPages_mono (Nat.le_add_right _ _) limit)
  · rcases failed with ⟨rfl, cleared⟩
    rw [if_pos rfl]
    exact wp_pure.mpr (.inl ⟨rfl, rfl, fun va inRange =>
      Cleared.entryOf_same cleared space.size inRange⟩)

theorem growproc_shrinks (space : UserSpace kernel.memory table (kernel.proc p).sz)
    (shrinks : n < 0) (enough : 0 ≤ ((kernel.proc p).sz : Int) + n) :
    wp NoPanic (growproc p n) kernel fun ret after =>
      ret = 0 ∧ SizeChanged p table n kernel after := by
  have bound := space.bound
  have newsz : ((((kernel.proc p).sz : Int) + n) % 2 ^ 64).toNat =
      (kernel.proc p).sz - (-n).toNat := by
    unfold trapframeVa trampolineVa maxVa pgSize at bound
    omega
  have smaller : (kernel.proc p).sz - (-n).toNat < (kernel.proc p).sz := by omega
  have range := pageRange_numPages (Nat.le_of_lt smaller) bound
  have below := pageRange_below range
  have order := numPages_mono (Nat.le_of_lt smaller) bound
  unfold growproc
  apply wp_bind.mpr
  apply wp_get.mpr
  apply wp_bind.mpr
  apply wp_pagetableOf found
  rw [if_neg (by omega), if_pos shrinks, newsz]
  apply wp_bind.mpr
  apply onMemory_spec
  apply wp_mono (uvmdealloc_clears smaller bound ?_ space.wellFormed ?_)
  · intro sz memory result
    rcases result with ⟨rfl, cleared⟩
    apply wp_bind.mpr
    apply wp_modifyProc.mpr
    refine wp_pure.mpr ⟨rfl, ?_, ?_⟩
    · rw [setProc_proc_self]
      push_cast
      omega
    · rw [setProc_proc_self]
      refine cleared.hasSize space.size (fun vpn member => (mem_pageRange.mp member).1) ?_
      intro vpn outside
      rw [mem_pageRange] at outside
      show vpn < numPages (kernel.proc p).sz ↔ vpn < numPages ((kernel.proc p).sz - (-n).toNat)
      omega
  · apply space.safe.of_le
    rw [mappedPages_subset below, ← add_assoc]
    exact Multiset.le_add_right _ _
  · intro vpn member
    apply userPageAt_isSome.mp
    apply (space.size vpn (below member)).mpr
    rw [mem_pageRange] at member
    omega

theorem growproc_wraps (bound : (kernel.proc p).sz ≤ trapframeVa) (isInt : -2 ^ 31 ≤ n)
    (tooMuch : ((kernel.proc p).sz : Int) + n < 0) :
    wp NoPanic (growproc p n) kernel fun ret after =>
      ret = 0 ∧ (after.proc p).sz = (kernel.proc p).sz := by
  have newsz : (kernel.proc p).sz ≤ ((((kernel.proc p).sz : Int) + n) % 2 ^ 64).toNat := by
    unfold trapframeVa trampolineVa maxVa pgSize at bound
    omega
  unfold growproc
  apply wp_bind.mpr
  apply wp_get.mpr
  apply wp_bind.mpr
  apply wp_pagetableOf found
  rw [if_neg (by omega), if_pos (by omega)]
  apply wp_bind.mpr
  apply onMemory_spec
  apply uvmdealloc_same newsz
  apply wp_bind.mpr
  apply wp_modifyProc.mpr
  refine wp_pure.mpr ⟨rfl, ?_⟩
  rw [setProc_proc_self]

end

/-- What `sys_sbrk` reports is what it did, exactly where the process has as much memory as
is taken away. -/
theorem sysSbrk_reports_iff (found : (kernel.proc p).pagetable = some table)
    (space : UserSpace kernel.memory table (kernel.proc p).sz) (lower : -2 ^ 31 ≤ n)
    (upper : n < 2 ^ 31) :
    wp NoPanic (sysSbrk p n) kernel (fun ret after =>
      ret = -1 ∧ SizeKept p table kernel after ∨
        ret = (kernel.proc p).sz ∧ SizeChanged p table n kernel after) ↔
      0 ≤ ((kernel.proc p).sz : Int) + n := by
  constructor
  · intro honest
    by_contra tooMuch
    have wraps : wp NoPanic (sysSbrk p n) kernel fun ret after =>
        ret = (kernel.proc p).sz ∧ (after.proc p).sz = (kernel.proc p).sz := by
      unfold sysSbrk
      apply wp_bind.mpr
      apply wp_get.mpr
      apply wp_bind.mpr
      apply wp_mono (growproc_wraps found space.bound lower (by omega))
      intro ret after result
      rcases result with ⟨rfl, same⟩
      exact wp_pure.mpr ⟨rfl, same⟩
    rcases Prog.wp_meet (fun _ => id) honest wraps with ⟨ret, after, reported, rfl, same⟩
    rcases reported with failed | changed
    · omega
    · have moved := changed.2.1
      omega
  · intro enough
    unfold sysSbrk
    apply wp_bind.mpr
    apply wp_get.mpr
    apply wp_bind.mpr
    rcases lt_trichotomy n 0 with shrinks | rfl | grows
    · apply wp_mono (growproc_shrinks found space shrinks enough)
      intro ret after result
      rcases result with ⟨rfl, changed⟩
      exact wp_pure.mpr (.inr ⟨rfl, changed⟩)
    · have nothing : wp NoPanic (growproc p 0) kernel fun ret after =>
          ret = 0 ∧ after = kernel := by
        unfold growproc
        apply wp_bind.mpr
        apply wp_get.mpr
        apply wp_bind.mpr
        apply wp_pagetableOf found
        exact wp_pure.mpr ⟨rfl, rfl⟩
      apply wp_mono nothing
      intro ret after result
      rcases result with ⟨rfl, rfl⟩
      exact wp_pure.mpr (.inr ⟨rfl, (add_zero _).symm, space.size⟩)
    · apply wp_mono (growproc_grows found space grows upper)
      intro ret after result
      rcases result with failed | changed
      · rcases failed with ⟨rfl, kept⟩
        exact wp_pure.mpr (.inl ⟨rfl, kept⟩)
      · rcases changed with ⟨rfl, changed⟩
        exact wp_pure.mpr (.inr ⟨rfl, changed⟩)

end Calls

/-! `init` of the small machine has one page. It asks for two to be taken away, and `sbrk`
says that they are. -/

section Small

attribute [local instance] smallImage

def smallInit : Outcome Kernel :=
  runSteps step (bootKernel (smallBoot.getD ([], noMemory)).2) [(.userinit [0x73], [])]

def smallKernel : Kernel := smallInit.getD (bootKernel noMemory)

theorem smallKernel_balanced : ∃ boot, Balanced boot smallKernel 0 0 := by
  have booted := Outcome.eq_next_of_isNext ([], noMemory)
    (show smallBoot.isNext = true by decide +kernel)
  have ran := Outcome.eq_next_of_isNext (bootKernel noMemory)
    (show smallInit.isNext = true by decide +kernel)
  exact ⟨_, run_balanced (steps_iff_runSteps.mpr ran)
    (bootKernel_balanced (Prog.run_eq_next (bootMemory_spec 2) booted))⟩

theorem smallKernel_userSpace : ∃ table, (smallKernel.proc 0).pagetable = some table ∧
    (smallKernel.proc 0).sz = 4096 ∧ UserSpace smallKernel.memory table 4096 := by
  rcases smallKernel_balanced with ⟨boot, balanced⟩
  have running : Running smallKernel 0 := ⟨mem_procSlots.mpr (by decide), by decide +kernel⟩
  have size : (smallKernel.proc 0).sz = 4096 := by decide +kernel
  rcases balanced.pagetable running with ⟨table, found⟩
  have space := balanced.userSpace (by decide) running found
  rw [size] at space
  exact ⟨table, found, size, space⟩

theorem sysSbrk_reports_iff_small : ∃ table, (smallKernel.proc 0).pagetable = some table ∧
    (wp NoPanic (sysSbrk 0 4096) smallKernel fun ret after =>
      ret = -1 ∧ SizeKept 0 table smallKernel after ∨
        ret = 4096 ∧ SizeChanged 0 table 4096 smallKernel after) ∧
    ¬wp NoPanic (sysSbrk 0 (-8192)) smallKernel fun ret after =>
      ret = -1 ∧ SizeKept 0 table smallKernel after ∨
        ret = 4096 ∧ SizeChanged 0 table (-8192) smallKernel after := by
  rcases smallKernel_userSpace with ⟨table, found, size, space⟩
  rw [← size] at space
  have grows := (sysSbrk_reports_iff found space (n := 4096) (by decide) (by decide)).mpr
    (by rw [size]; decide)
  have wraps := mt (sysSbrk_reports_iff found space (n := -8192) (by decide) (by decide)).mp
    (by rw [size]; decide)
  rw [size] at grows wraps
  exact ⟨table, found, grows, wraps⟩

def smallShrink : Outcome (Int × Kernel) :=
  Prog.run StateOp.handle (sysSbrk 0 (-8192)) smallKernel []

theorem sysSbrk_wraps : ∃ ret after,
    Prog.run StateOp.handle (sysSbrk 0 (-8192)) smallKernel [] = .next (ret, after) ∧
      ret = (smallKernel.proc 0).sz ∧
      ((after.proc 0).sz : Int) ≠ (smallKernel.proc 0).sz - 8192 := by
  have ends := Outcome.eq_next_of_isNext (0, smallKernel)
    (show smallShrink.isNext = true by decide +kernel)
  have returned : (smallShrink.getD (0, smallKernel)).1 = (smallKernel.proc 0).sz := by
    decide +kernel
  have size : (((smallShrink.getD (0, smallKernel)).2.proc 0).sz : Int) ≠
      (smallKernel.proc 0).sz - 8192 := by
    decide +kernel
  exact ⟨_, _, ends, returned, size⟩

end Small

end Xv6.Kernel
