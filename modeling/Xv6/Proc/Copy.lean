import Xv6.Proc.Pagetable
import Xv6.Vm.UserCopy

/-! # Contracts of the copies to and from user memory -/

namespace Xv6.Vm

open StateProg

variable {cell : Nat → Page} {memory : Memory} {table : Nat}

theorem ContentsChange.stores (proper : Proper memory (space memory.cell table))
    (wellFormed : WellFormed memory.cell 2 table)
    (elsewhere : ∀ page ∉ userPages memory.cell table, cell page = memory.cell page) :
    ContentsChange table memory { memory with cell := cell } := by
  have kept : ∀ page ∈ tables memory.cell 2 table, cell page = memory.cell page := by
    intro page inside
    apply elsewhere
    exact Multiset.disjoint_left.mp (Multiset.nodup_add.mp proper.owned_nodup).2.2 inside
  refine ⟨⟨⟨?_, ?_⟩, wellFormed.congr kept, fun va _ => leafAt_congr kept⟩,
    fun _ maps => maps.congr kept⟩
  · rw [space_congr kept]
  · intro page outside
    apply elsewhere
    exact fun member =>
      outside (Multiset.mem_add.mpr (.inr (Multiset.mem_add.mpr (.inr member))))

variable {pa : Nat}

theorem ContentsChange.storePage (proper : Proper memory (space memory.cell table))
    (wellFormed : WellFormed memory.cell 2 table) (member : pa ∈ userPages memory.cell table)
    (contents : Page) :
    ContentsChange table memory
      { memory with cell := Function.update memory.cell pa contents } := by
  apply ContentsChange.stores proper wellFormed
  intro page outside
  apply Function.update_of_ne
  rintro rfl
  exact outside member

variable [KernelImage]

variable {trapframe : Nat}

theorem SpaceChange.space (change : SpaceChange table before after)
    (space : Space before.cell table trapframe) : Space after.cell table trapframe :=
  ⟨change.wellFormed, (change.fixed _ (.inr rfl)).trans space.trampoline,
    (change.fixed _ (.inl rfl)).trans space.trapframe⟩

variable {va : Nat}

theorem Space.own (space : Space cell table trapframe) (aligned : va % pgSize = 0)
    (inRange : va < maxVa) (user : hasFlag (leafAt cell va 2 table) pteU = true) :
    va / pgSize ∈ ownVpns := by
  have notTrapframe : va ≠ trapframeVa := by
    rintro rfl
    rw [space.trapframe, Nat.or_assoc, hasFlag_entry (by decide)] at user
    exact absurd user (by decide)
  have notTrampoline : va ≠ trampolineVa := by
    rintro rfl
    rw [space.trampoline, Nat.or_assoc, hasFlag_entry (by decide)] at user
    exact absurd user (by decide)
  rw [mem_ownVpns]
  unfold trapframeVa trampolineVa maxVa pgSize at *
  omega

theorem Space.userPage (space : Space cell table trapframe) (aligned : va % pgSize = 0)
    (inRange : va < maxVa) (valid : hasFlag (leafAt cell va 2 table) pteV = true)
    (user : hasFlag (leafAt cell va 2 table) pteU = true) :
    pte2pa (leafAt cell va 2 table) ∈ userPages cell table :=
  mem_userPages aligned (space.own aligned inRange user) valid

theorem Space.found (space : Space cell table trapframe)
    (found : Vm.userPage cell table va = some pa) :
    va / pgSize ∈ ownVpns ∧ hasFlag (leafAt cell (va / pgSize * pgSize) 2 table) pteV = true ∧
      pa = pte2pa (leafAt cell (va / pgSize * pgSize) 2 table) := by
  rw [← userPage_roundDown] at found
  rcases userPage_eq_some found with ⟨inRange, valid, user, same⟩
  have own := space.own (Nat.mul_mod_left _ _) inRange user
  rw [Nat.mul_div_cancel _ (by decide)] at own
  exact ⟨own, valid, same⟩

theorem Space.tablesApart (space : Space memory.cell table trapframe)
    (proper : Proper memory (Vm.space memory.cell table)) : TablesApart memory.cell table := by
  intro va pa found isTable
  rw [← userPage_roundDown] at found
  rcases userPage_eq_some found with ⟨inRange, valid, user, rfl⟩
  have member := space.userPage (Nat.mul_mod_left _ _) inRange valid user
  exact Multiset.disjoint_left.mp (Multiset.nodup_add.mp proper.owned_nodup).2.2 isTable member

variable {allowed : String → Prop}

theorem copyout_spec (dstva : Nat) (src : List UInt8)
    (proper : Proper memory (space memory.cell table)) (space : Space memory.cell table trapframe) :
    wp allowed (copyout table dstva src) memory fun _ after =>
      ContentsChange table memory after := by
  have apart := space.tablesApart proper
  apply Prog.wp_mono (copyoutFrom_stores apart src.length (Nat.le_refl _) fun _ _ => rfl)
  intro done after result
  rcases result with ⟨n, _, _, rfl⟩
  have elsewhere : ∀ page ∉ userPages memory.cell table,
      storeBytes (userPage memory.cell table) (src.take n) dstva memory.cell page =
        memory.cell page := by
    intro page outside
    apply storeBytes_elsewhere
    intro i _ found
    rw [← userPage_roundDown] at found
    rcases userPage_eq_some found with ⟨inRange, valid, user, rfl⟩
    exact outside (space.userPage (Nat.mul_mod_left _ _) inRange valid user)
  exact .stores proper space.wellFormed elsewhere

omit [KernelImage] in
theorem copyin_spec (table srcva len : Nat) (memory : Memory) :
    wp allowed (copyin table srcva len) memory fun _ after => after = memory :=
  Prog.wp_mono (copyinFrom_spec len [] (Nat.le_refl len)) fun _ _ result => result.1

end Xv6.Vm
