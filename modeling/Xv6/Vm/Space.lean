import Xv6.Foundation.Sum
import Xv6.Vm.Walk

/-! # The pages of an address space

An address space owns its page-table pages and the pages it maps, apart from the
trampoline, which belongs to the kernel, and the trapframe, which belongs to the
process. -/

namespace Xv6.Vm

open StateProg

/-- The virtual pages whose mappings own the page they map. -/
@[irreducible] def ownVpns : Finset Nat :=
  (Finset.range (2 ^ 27)).filter fun vpn =>
    vpn ≠ trapframeVa / pgSize ∧ vpn ≠ trampolineVa / pgSize

variable {vpn : Nat}

theorem mem_ownVpns : vpn ∈ ownVpns ↔
    vpn < 2 ^ 27 ∧ vpn ≠ trapframeVa / pgSize ∧ vpn ≠ trampolineVa / pgSize := by
  rw [ownVpns, Finset.mem_filter, Finset.mem_range]

/-- The page that an entry maps. -/
def mapped (pte : Nat) : Multiset Nat :=
  if hasFlag pte pteV then {pte2pa pte} else 0

/-- The pages that the entries of some virtual pages map. -/
def leafPages (leaf : Nat → Nat) (vpns : Finset Nat) : Multiset Nat :=
  ∑ vpn ∈ vpns, mapped (leaf (vpn * pgSize))

/-- The pages mapped by an address space and owned by it. -/
def userPages (cell : Nat → Page) (table : Nat) : Multiset Nat :=
  leafPages (fun va => leafAt cell va 2 table) ownVpns

/-- All pages of an address space. -/
def space (cell : Nat → Page) (table : Nat) : Multiset Nat :=
  tables cell 2 table + userPages cell table

/-- The entry of `va` became `pte`. -/
structure Changed (table va pte : Nat) (before after : Memory) : Prop where
  exchange : Exchange before (tables before.cell 2 table) after (tables after.cell 2 table)
  wellFormed : WellFormed after.cell 2 table
  more : tables before.cell 2 table ≤ tables after.cell 2 table
  here : ∀ other, SameSlot 2 va other → leafAt after.cell other 2 table = pte
  elsewhere : ∀ other, ¬SameSlot 2 va other →
    leafAt after.cell other 2 table = leafAt before.cell other 2 table

variable {va : Nat}

theorem sameSlot_page (aligned : va % pgSize = 0) (bound : va < 2 ^ 39) (small : vpn < 2 ^ 27) :
    SameSlot 2 va (vpn * pgSize) ↔ vpn = va / pgSize := by
  unfold pgSize at *
  constructor
  · intro same
    have zero := same 0 (by omega)
    have one := same 1 (by omega)
    have two := same 2 (by omega)
    simp only [px, Nat.shiftRight_eq_div_pow] at zero one two
    omega
  · rintro rfl lower _
    rw [Nat.div_mul_cancel (Nat.dvd_of_mod_eq_zero aligned)]

theorem sameSlot_symm (same : SameSlot level va other) : SameSlot level other va :=
  fun lower bound => (same lower bound).symm

theorem leafPages_congr {leaf leaf' : Nat → Nat}
    (same : ∀ vpn ∈ vpns, leaf' (vpn * pgSize) = leaf (vpn * pgSize)) :
    leafPages leaf' vpns = leafPages leaf vpns := by
  apply Finset.sum_congr rfl
  intro vpn inside
  rw [same vpn inside]

theorem leafPages_change {leaf leaf' : Nat → Nat} {vpns : Finset Nat} {vpn : Nat}
    (inside : vpn ∈ vpns)
    (same : ∀ other ∈ vpns, other ≠ vpn → leaf' (other * pgSize) = leaf (other * pgSize)) :
    mapped (leaf (vpn * pgSize)) + leafPages leaf' vpns =
      mapped (leaf' (vpn * pgSize)) + leafPages leaf vpns := by
  have change := sum_change (fun vpn => mapped (leaf (vpn * pgSize)))
    (fun vpn => mapped (leaf' (vpn * pgSize))) inside
  exact change fun other member different => congrArg mapped (same other member different)

namespace Changed

variable {table va pte : Nat} {before after : Memory}

theorem userPages (changed : Changed table va pte before after) (aligned : va % pgSize = 0)
    (bound : va < 2 ^ 39) (own : va / pgSize ∈ ownVpns) :
    mapped (leafAt before.cell va 2 table) + userPages after.cell table =
      mapped pte + userPages before.cell table := by
  have whole : va / pgSize * pgSize = va := Nat.div_mul_cancel (Nat.dvd_of_mod_eq_zero aligned)
  have rest : ∀ other ∈ ownVpns, other ≠ va / pgSize →
      leafAt after.cell (other * pgSize) 2 table = leafAt before.cell (other * pgSize) 2 table := by
    intro other inside different
    apply changed.elsewhere
    rw [sameSlot_page aligned bound (mem_ownVpns.mp inside).1]
    exact different
  have change := @leafPages_change (fun va => leafAt before.cell va 2 table)
    (fun va => leafAt after.cell va 2 table) ownVpns (va / pgSize) own rest
  simp only [whole] at change
  rw [changed.here va fun _ _ => rfl] at change
  exact change

theorem userPages_of_not_own (changed : Changed table va pte before after)
    (aligned : va % pgSize = 0) (bound : va < 2 ^ 39) (notOwn : va / pgSize ∉ ownVpns) :
    Vm.userPages after.cell table = Vm.userPages before.cell table := by
  apply leafPages_congr
  intro vpn inside
  apply changed.elsewhere
  rw [sameSlot_page aligned bound (mem_ownVpns.mp inside).1]
  rintro rfl
  exact notOwn inside

end Changed

variable {after before : Memory} {table : Nat}

theorem Grown.userPages (grown : Grown 2 table before after) :
    userPages after.cell table = userPages before.cell table :=
  leafPages_congr fun vpn _ => grown.leaf (vpn * pgSize)

variable {cell : Nat → Page}

theorem userPages_eq_zero (unmapped : ∀ va, hasFlag (leafAt cell va 2 table) pteV = false) :
    userPages cell table = 0 := by
  apply Finset.sum_eq_zero
  intro vpn _
  exact if_neg (Bool.eq_false_iff.mp (unmapped (vpn * pgSize)))

/-! ## Which pages are mapped -/

/-- Of the pages that an address space can own, it maps exactly `pages`. -/
def Maps (cell : Nat → Page) (table : Nat) (pages : Nat → Prop) : Prop :=
  ∀ vpn ∈ ownVpns, hasFlag (leafAt cell (vpn * pgSize) 2 table) pteV = true ↔ pages vpn

namespace Maps

variable {cell after : Nat → Page} {table : Nat} {pages pages' : Nat → Prop}

theorem of_same (maps : Maps cell table pages)
    (same : ∀ vpn ∈ ownVpns, hasFlag (leafAt after (vpn * pgSize) 2 table) pteV =
      hasFlag (leafAt cell (vpn * pgSize) 2 table) pteV) : Maps after table pages := by
  intro vpn own
  rw [same vpn own]
  exact maps vpn own

theorem congr (maps : Maps cell table pages)
    (kept : ∀ page ∈ tables cell 2 table, after page = cell page) : Maps after table pages :=
  maps.of_same fun _ _ => by rw [leafAt_congr kept]

theorem iff (maps : Maps cell table pages) (same : ∀ vpn ∈ ownVpns, pages vpn ↔ pages' vpn) :
    Maps cell table pages' := fun vpn own => (maps vpn own).trans (same vpn own)

theorem none (empty : ∀ va, leafAt cell va 2 table = 0) : Maps cell table fun _ => False := by
  intro vpn _
  rw [empty]
  exact iff_of_false (by decide) id

end Maps

theorem sameSlot_div (va : Nat) : SameSlot 2 va (va / pgSize % 2 ^ 27 * pgSize) := by
  intro lower bound
  have which : lower = 0 ∨ lower = 1 ∨ lower = 2 := by omega
  rcases which with rfl | rfl | rfl <;>
    · simp only [px, Nat.shiftRight_eq_div_pow, pgSize]
      omega

theorem Maps.unmapped_all (maps : Maps cell table fun _ => False)
    (trapframe : hasFlag (leafAt cell trapframeVa 2 table) pteV = false)
    (trampoline : hasFlag (leafAt cell trampolineVa 2 table) pteV = false) (va : Nat) :
    hasFlag (leafAt cell va 2 table) pteV = false := by
  rw [leafAt_of_sameSlot (sameSlot_div va)]
  have bound : va / pgSize % 2 ^ 27 < 2 ^ 27 := Nat.mod_lt _ (by decide)
  generalize va / pgSize % 2 ^ 27 = vpn at bound
  by_cases own : vpn ∈ ownVpns
  · exact Bool.eq_false_iff.mpr (mt (maps vpn own).mp id)
  · have fixed : vpn = trapframeVa / pgSize ∨ vpn = trampolineVa / pgSize := by
      by_contra neither
      rw [not_or] at neither
      exact own (mem_ownVpns.mpr ⟨bound, neither⟩)
    rcases fixed with rfl | rfl
    · exact trapframe
    · exact trampoline

namespace Changed

variable {table va pte : Nat} {before after : Memory} {pages : Nat → Prop}

theorem maps (changed : Changed table va pte before after) (aligned : va % pgSize = 0)
    (bound : va < 2 ^ 39) (maps : Maps before.cell table pages) :
    Maps after.cell table fun vpn =>
      if vpn = va / pgSize then hasFlag pte pteV = true else pages vpn := by
  intro vpn own
  have slot := sameSlot_page aligned bound (mem_ownVpns.mp own).1
  beta_reduce
  split
  · rename_i here
    rw [changed.here _ (slot.mpr here)]
  · rename_i elsewhere
    rw [changed.elsewhere _ (mt slot.mp elsewhere)]
    exact maps vpn own

theorem maps_of_not_own (changed : Changed table va pte before after)
    (aligned : va % pgSize = 0) (bound : va < 2 ^ 39) (notOwn : va / pgSize ∉ ownVpns)
    (maps : Maps before.cell table pages) : Maps after.cell table pages := by
  apply (changed.maps aligned bound maps).iff
  intro vpn own
  rw [if_neg]
  intro equal
  exact notOwn (equal ▸ own)

end Changed

theorem Grown.maps {pages : Nat → Prop} (grown : Grown 2 table before after)
    (maps : Maps before.cell table pages) : Maps after.cell table pages :=
  maps.of_same fun vpn _ => by rw [grown.leaf]

/-! ## The bound of physical memory -/

theorem card_le_pages {pages : Multiset Nat} (nodup : pages.Nodup)
    (good : ∀ pa ∈ pages, pa % pgSize = 0 ∧ pa < physTop) :
    pages.card ≤ physTop / pgSize := by
  have inside : pages.toFinset ⊆ (Finset.range (physTop / pgSize)).image (· * pgSize) := by
    intro pa member
    rcases good pa (Multiset.mem_toFinset.mp member) with ⟨aligned, below⟩
    refine Finset.mem_image.mpr ⟨pa / pgSize, Finset.mem_range.mpr ?_, ?_⟩
    · unfold physTop kernBase pgSize at *
      omega
    · exact Nat.div_mul_cancel (Nat.dvd_of_mod_eq_zero aligned)
  calc pages.card
    _ = pages.toFinset.card := (Multiset.toFinset_card_of_nodup nodup).symm
    _ ≤ ((Finset.range (physTop / pgSize)).image (· * pgSize)).card := Finset.card_le_card inside
    _ ≤ (Finset.range (physTop / pgSize)).card := Finset.card_image_le
    _ = physTop / pgSize := Finset.card_range _

theorem Maps.limit_le {memory : Memory} (maps : Maps memory.cell table (· < limit))
    (proper : Proper memory (space memory.cell table)) : limit ≤ physTop / pgSize := by
  by_contra above
  rw [not_le] at above
  have owned : Proper memory (Vm.userPages memory.cell table) := proper.right
  have upper := card_le_pages owned.owned_nodup fun pa member =>
    owned.good pa (Multiset.mem_add.mpr (.inr member))
  have first : Finset.range (physTop / pgSize + 1) ⊆ ownVpns := by
    intro vpn member
    have bound := Finset.mem_range.mp member
    rw [mem_ownVpns]
    unfold physTop kernBase trapframeVa trampolineVa maxVa pgSize at *
    omega
  have one : ∀ vpn ∈ Finset.range (physTop / pgSize + 1),
      (Vm.mapped (leafAt memory.cell (vpn * pgSize) 2 table)).card = 1 := by
    intro vpn member
    have valid := (maps vpn (first member)).mpr (by
      have bound := Finset.mem_range.mp member
      omega)
    rw [Vm.mapped, if_pos valid, Multiset.card_singleton]
  have lower : physTop / pgSize + 1 ≤ (Vm.userPages memory.cell table).card := by
    calc physTop / pgSize + 1
      _ = ∑ vpn ∈ Finset.range (physTop / pgSize + 1),
            (Vm.mapped (leafAt memory.cell (vpn * pgSize) 2 table)).card := by
          rw [Finset.sum_congr rfl one, ← Finset.card_eq_sum_ones, Finset.card_range]
      _ ≤ ∑ vpn ∈ ownVpns, (Vm.mapped (leafAt memory.cell (vpn * pgSize) 2 table)).card :=
          Finset.sum_le_sum_of_subset first
      _ = (Vm.userPages memory.cell table).card := (Multiset.card_sum _ _).symm
  omega

/-- The number of pages that a process of size `sz` has. -/
def numPages (sz : Nat) : Nat := pgRoundUp sz / pgSize

theorem numPages_mul (sz : Nat) : numPages sz * pgSize = pgRoundUp sz :=
  Nat.div_mul_cancel (Nat.dvd_of_mod_eq_zero (pgRoundUp_aligned sz))

variable {sz sz' : Nat}

theorem numPages_mono (order : sz ≤ sz') (bound : sz' ≤ trapframeVa) :
    numPages sz ≤ numPages sz' := by
  unfold numPages pgRoundUp
  unfold trapframeVa trampolineVa maxVa at bound
  unfold pgSize at *
  omega

theorem pageRange_numPages (order : sz ≤ sz') (bound : sz' ≤ trapframeVa) :
    (numPages sz + (numPages sz' - numPages sz)) * pgSize ≤ trapframeVa := by
  rw [Nat.add_sub_cancel' (numPages_mono order bound), numPages_mul]
  exact pgRoundUp_le bound

theorem numPages_of_aligned (bound : sz ≤ trapframeVa) (aligned : sz % pgSize = 0) :
    numPages sz = sz / pgSize := by
  unfold numPages pgRoundUp trapframeVa trampolineVa maxVa pgSize at *
  omega

end Xv6.Vm
