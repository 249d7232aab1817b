import Xv6.Vm.Freewalk

/-! # The page table of a process

`proc_pagetable` and `proc_freepagetable` of `proc.c`. -/

namespace Xv6.Vm

open StateProg
open Prog (wp_bind wp_mono wp_pure)

variable {va : Nat}

theorem fixed_not_own (which : va = trapframeVa ∨ va = trampolineVa) :
    va % pgSize = 0 ∧ va < 2 ^ 39 ∧ va / pgSize ∉ ownVpns := by
  rcases which with rfl | rfl
  · refine ⟨by decide, by decide, fun member => (mem_ownVpns.mp member).2.1 rfl⟩
  · refine ⟨by decide, by decide, fun member => (mem_ownVpns.mp member).2.2 rfl⟩

/-- The entries of the two pages at the top may change, but the pages that the
address space owns are the same ones, up to page-table pages. -/
structure FixedChange (table : Nat) (before after : Memory) : Prop where
  exchange : Exchange before (space before.cell table) after (space after.cell table)
  wellFormed : WellFormed after.cell 2 table
  maps : ∀ pages, Maps before.cell table pages → Maps after.cell table pages

variable {after before : Memory} {table : Nat}

theorem Changed.fixedChange (which : va = trapframeVa ∨ va = trampolineVa)
    (changed : Changed table va pte before after) : FixedChange table before after := by
  rcases fixed_not_own which with ⟨aligned, bound, notOwn⟩
  refine ⟨?_, changed.wellFormed, fun _ => changed.maps_of_not_own aligned bound notOwn⟩
  rw [space, space, changed.userPages_of_not_own aligned bound notOwn]
  exact changed.exchange.frame _

theorem Grown.fixedChange (grown : Grown 2 table before after) :
    FixedChange table before after := by
  refine ⟨?_, grown.wellFormed, fun _ => grown.maps⟩
  rw [space, space, grown.userPages]
  exact grown.exchange.frame _

theorem space_zero {cell : Nat → Page} (zero : cell table = fun _ => 0) :
    space cell table = {table} := by
  have none : userPages cell table = 0 := userPages_eq_zero fun va => by
    rw [leafAt_zero zero]
    decide
  rw [space, tables_zero zero, none, add_zero]

theorem not_sameSlot_top : ¬SameSlot 2 trapframeVa trampolineVa :=
  fun same => absurd (same 0 (by decide)) (by decide)

variable [KernelImage] {allowed : String → Prop}

/-- `proc_pagetable`: a page table without user memory, but with trampoline and
trapframe pages. -/
def procPagetable (trapframe : Nat) : MemProg (Option Nat) := do
  match ← uvmcreate with
  | none => return none
  | some pagetable =>
    if ← mappages pagetable trampolineVa pgSize KernelImage.trampoline (pteR ||| pteX) then
      if ← mappages pagetable trapframeVa pgSize trapframe (pteR ||| pteW) then
        return some pagetable
      else
        uvmunmap pagetable trampolineVa 1 false
        uvmfree pagetable 0
        return none
    else
      uvmfree pagetable 0
      return none

def procFreepagetable (pagetable sz : Nat) : MemProg Unit := do
  uvmunmap pagetable trampolineVa 1 false
  uvmunmap pagetable trapframeVa 1 false
  uvmfree pagetable sz

/-- The address space of a process: the two pages at the top are mapped, for the
kernel only. -/
structure Space (cell : Nat → Page) (pagetable trapframe : Nat) : Prop where
  wellFormed : WellFormed cell 2 pagetable
  trampoline : leafAt cell trampolineVa 2 pagetable =
    pa2pte KernelImage.trampoline ||| (pteR ||| pteX) ||| pteV
  trapframe : leafAt cell trapframeVa 2 pagetable = pa2pte trapframe ||| (pteR ||| pteW) ||| pteV

variable {cell : Nat → Page} {pagetable trapframe : Nat}

theorem Space.congr {after : Nat → Page} (space : Space cell pagetable trapframe)
    (kept : ∀ page ∈ tables cell 2 pagetable, after page = cell page) :
    Space after pagetable trapframe := by
  refine ⟨space.wellFormed.congr kept, ?_, ?_⟩
  · rw [leafAt_congr kept]
    exact space.trampoline
  · rw [leafAt_congr kept]
    exact space.trapframe

theorem Space.valid (space : Space cell pagetable trapframe)
    (which : va = trapframeVa ∨ va = trampolineVa) :
    hasFlag (leafAt cell va 2 pagetable) pteV = true := by
  rcases which with rfl | rfl
  · rw [space.trapframe]
    exact hasFlag_pteV
  · rw [space.trampoline]
    exact hasFlag_pteV

variable {memory : Memory}

theorem uvmunmap_fixed_spec (which : va = trapframeVa ∨ va = trampolineVa)
    (proper : Proper memory (tables memory.cell 2 table))
    (wellFormed : WellFormed memory.cell 2 table)
    (valid : hasFlag (leafAt memory.cell va 2 table) pteV = true) :
    wp allowed (uvmunmap table va 1 false) memory fun _ after =>
      Changed table va 0 memory after := by
  rcases lowest_of_valid valid with ⟨low, found⟩
  rcases fixed_not_own which with ⟨aligned, bound, _⟩
  have inRange : va < maxVa := by
    unfold maxVa
    rcases which with rfl | rfl <;> decide
  rw [uvmunmap, if_neg (not_not.mpr aligned)]
  apply uvmunmapFrom_step inRange wellFormed found valid
  simp only [uvmunmapFrom, Bool.false_eq_true, if_false, wp_bind, wp_storePte, wp_pure]
  exact Changed.store (.refl wellFormed) found proper (by decide) (by decide)

theorem procFreepagetable_spec (bound : sz ≤ trapframeVa)
    (safe : Safe allowed memory (space memory.cell table))
    (shape : Space memory.cell table trapframe) (maps : Maps memory.cell table (· < numPages sz)) :
    wp allowed (procFreepagetable table sz) memory fun _ after =>
      Exchange memory (space memory.cell table) after 0 := by
  simp only [procFreepagetable, wp_bind]
  apply wp_mono (uvmunmap_fixed_spec (.inr rfl) safe.toProper.left shape.wellFormed
    (shape.valid (.inr rfl)))
  intro _ first changed
  have change := changed.fixedChange (.inr rfl)
  have safe' := safe.exchange change.exchange
  have kept := changed.elsewhere trapframeVa (mt sameSlot_symm not_sameSlot_top)
  apply wp_mono (uvmunmap_fixed_spec (.inl rfl) safe'.toProper.left change.wellFormed
    (by rw [kept]; exact shape.valid (.inl rfl)))
  intro _ second changed'
  have change' := changed'.fixedChange (.inl rfl)
  have unmapped : ∀ va, va = trapframeVa ∨ va = trampolineVa →
      hasFlag (leafAt second.cell va 2 table) pteV = false := by
    intro va which
    rcases which with rfl | rfl
    · rw [changed'.here _ fun _ _ => rfl]
      rfl
    · rw [changed'.elsewhere _ not_sameSlot_top, changed.here _ fun _ _ => rfl]
      rfl
  apply wp_mono (uvmfree_spec bound (safe'.exchange change'.exchange) change'.wellFormed
    (change'.maps _ (change.maps _ maps)) unmapped)
  intro _ after released
  exact (change.exchange.trans change'.exchange).trans released

theorem uvmfree_none_spec (safe : Safe allowed memory (space memory.cell table))
    (wellFormed : WellFormed memory.cell 2 table) (maps : Maps memory.cell table fun _ => False)
    (fixed : ∀ va, va = trapframeVa ∨ va = trampolineVa →
      hasFlag (leafAt memory.cell va 2 table) pteV = false) :
    wp allowed (uvmfree table 0) memory fun _ after =>
      Exchange memory (space memory.cell table) after 0 :=
  uvmfree_spec (Nat.zero_le _) safe wellFormed
    (maps.iff fun vpn _ => iff_of_false id (Nat.not_lt_zero vpn)) fixed

theorem procPagetable_spec (safe : Safe allowed memory 0) (bound : trapframe < 2 ^ 56) :
    wp allowed (procPagetable trapframe) memory fun result after =>
      match result with
      | none => Exchange memory 0 after 0
      | some pagetable => Exchange memory 0 after (space after.cell pagetable) ∧
          Space after.cell pagetable trapframe ∧ Maps after.cell pagetable (· < 0) := by
  simp only [procPagetable, uvmcreate, wp_bind]
  apply wp_mono (kalloc_spec memory)
  intro result allocated allocation
  cases result with
  | none =>
    subst allocation
    exact wp_pure.mpr (wp_pure.mpr (.refl _ _))
  | some table =>
    simp only [wp_bind, wp_fillPage, wp_pure]
    have fresh := allocation.store fun _ => 0
    generalize created : ({ allocated with
      cell := Function.update allocated.cell table fun _ => 0 } : Memory) = empty at fresh ⊢
    have zero : empty.cell table = fun _ => 0 := by
      rw [← created]
      exact Function.update_self _ _ _
    have start : Exchange memory 0 empty (space empty.cell table) := by
      rw [space_zero zero]
      exact fresh.exchange 0
    have safeEmpty := safe.exchange start
    have emptyMaps : Maps empty.cell table fun _ => False := .none fun _ => leafAt_zero zero
    have invalid : ∀ va, hasFlag (leafAt empty.cell va 2 table) pteV = false := by
      intro va
      rw [leafAt_zero zero]
      rfl
    apply wp_mono (mappages_page_spec (by decide) (by decide) safeEmpty.toProper.left
      (.zero zero) (by decide) (by decide) KernelImage.trampoline_lt (invalid _))
    intro done first mapping
    cases done with
    | false =>
      have change := Grown.fixedChange mapping
      have exchange := start.trans change.exchange
      simp only [Bool.false_eq_true, if_false, wp_bind, wp_pure]
      apply wp_mono (uvmfree_none_spec (safe.exchange exchange) change.wellFormed
        (change.maps _ emptyMaps) fun va _ => by rw [Grown.leaf mapping]; exact invalid va)
      exact fun _ after released => exchange.trans released
    | true =>
      simp only [if_true] at mapping ⊢
      have change := mapping.fixedChange (.inr rfl)
      have exchange := start.trans change.exchange
      have safeFirst := safe.exchange exchange
      have free : hasFlag (leafAt first.cell trapframeVa 2 table) pteV = false := by
        rw [mapping.elsewhere _ (mt sameSlot_symm not_sameSlot_top)]
        exact invalid _
      simp only [wp_bind]
      apply wp_mono (mappages_page_spec (by decide) (by decide) safeFirst.toProper.left
        change.wellFormed (by decide) (by decide) bound free)
      intro done second mapping'
      cases done with
      | true =>
        simp only [if_true] at mapping' ⊢
        have change' := mapping'.fixedChange (.inl rfl)
        refine wp_pure.mpr ⟨exchange.trans change'.exchange,
          ⟨mapping'.wellFormed, ?_, mapping'.here _ fun _ _ => rfl⟩, ?_⟩
        · rw [mapping'.elsewhere _ not_sameSlot_top, mapping.here _ fun _ _ => rfl]
        · exact (change'.maps _ (change.maps _ emptyMaps)).iff
            fun vpn _ => iff_of_false id (Nat.not_lt_zero vpn)
      | false =>
        have change' := Grown.fixedChange mapping'
        have exchange' := exchange.trans change'.exchange
        have safeSecond := safe.exchange exchange'
        have valid : hasFlag (leafAt second.cell trampolineVa 2 table) pteV = true := by
          rw [Grown.leaf mapping', mapping.here _ fun _ _ => rfl]
          exact hasFlag_pteV
        simp only [Bool.false_eq_true, if_false, wp_bind, wp_pure]
        apply wp_mono (uvmunmap_fixed_spec (.inr rfl) safeSecond.toProper.left
          change'.wellFormed valid)
        intro _ third changed
        have change'' := changed.fixedChange (.inr rfl)
        have exchange'' := exchange'.trans change''.exchange
        have unmapped : ∀ va, va = trapframeVa ∨ va = trampolineVa →
            hasFlag (leafAt third.cell va 2 table) pteV = false := by
          intro va which
          rcases which with rfl | rfl
          · rw [changed.elsewhere _ (mt sameSlot_symm not_sameSlot_top), Grown.leaf mapping']
            exact free
          · rw [changed.here _ fun _ _ => rfl]
            rfl
        apply wp_mono (uvmfree_none_spec (safe.exchange exchange'')
          change''.wellFormed (change''.maps _ (change'.maps _ (change.maps _ emptyMaps))) unmapped)
        exact fun _ after released => exchange''.trans released

end Xv6.Vm
