import Xv6.Vm.Contracts

/-! # Contracts of `freewalk`, `uvmfree` and `uvmcopy` -/

namespace Xv6.Vm

open StateProg
open Prog (wp_bind wp_mono wp_pure)

/-- A page table that maps nothing. -/
def Empty (cell : Nat → Page) : (level table : Nat) → Prop
  | 0, table => ∀ index < 512, hasFlag (pteAt cell table index) pteV = false
  | level + 1, table => ∀ index < 512, ∀ lower, child cell table index = some lower →
      Empty cell level lower

variable {cell : Nat → Page}

theorem Empty.congr {after : Nat → Page} (empty : Empty cell level table)
    (same : ∀ page ∈ tables cell level table, after page = cell page) :
    Empty after level table := by
  induction level generalizing table with
  | zero =>
    intro index bound
    rw [pteAt_congr (same table table_mem_tables)]
    exact empty index bound
  | succ level induction =>
    intro index bound lower found
    rw [child_congr (same table table_mem_tables)] at found
    apply induction (empty index bound lower found)
    intro page member
    exact same page (mem_tables_of_child bound found member)

theorem px_join (topBound : top < 512) (middleBound : middle < 512) (lowBound : low < 512) :
    px 2 (top * 2 ^ 30 + middle * 2 ^ 21 + low * 2 ^ 12) = top ∧
      px 1 (top * 2 ^ 30 + middle * 2 ^ 21 + low * 2 ^ 12) = middle ∧
      px 0 (top * 2 ^ 30 + middle * 2 ^ 21 + low * 2 ^ 12) = low := by
  simp only [px, Nat.shiftRight_eq_div_pow]
  omega

theorem empty_of_unmapped (unmapped : ∀ va, hasFlag (leafAt cell va 2 table) pteV = false) :
    Empty cell 2 table := by
  intro top topBound second foundSecond middle middleBound third foundThird low lowBound
  rcases px_join topBound middleBound lowBound with ⟨pxTop, pxMiddle, pxLow⟩
  have none := unmapped (top * 2 ^ 30 + middle * 2 ^ 21 + low * 2 ^ 12)
  rwa [leafAt, pxTop, foundSecond, Option.elim_some, leafAt, pxMiddle, foundThird,
    Option.elim_some, leafAt, pxLow] at none

variable [KernelImage] {allowed : String → Prop}

/-- What `freewalk` has done when it comes to entry `index`: the page tables
below the entries before it are free. -/
structure Freed (level table : Nat) (before : Memory) (index : Nat) (memory : Memory) : Prop where
  exchange : Exchange before (tables before.cell (level + 1) table) memory
    (table ::ₘ remaining before.cell level table index)
  kept : ∀ page ∈ remaining before.cell level table index, memory.cell page = before.cell page
  entry : ∀ other, index ≤ other → pteAt memory.cell table other = pteAt before.cell table other

variable {memory : Memory} {table : Nat}

theorem freewalk_leaf_spec (safe : Safe allowed memory {table}) (empty : Empty memory.cell 0 table) :
    wp allowed (freewalk 1 table) memory fun _ after => Exchange memory {table} after 0 := by
  simp only [freewalk, wp_bind]
  apply Prog.wp_forEach fun index state => state = memory
  · rfl
  · rintro index state _ bound rfl
    have invalid := empty index (by omega)
    simp only [freewalkEntry, wp_bind, wp_loadPte, invalid, Bool.false_and,
      Bool.false_eq_true, if_false]
    exact wp_pure.mpr rfl
  · rintro state rfl
    apply wp_mono (safe.kfree (Multiset.mem_singleton_self table))
    exact fun _ after released => released.1 0

theorem freewalkEntry_spec (bound : index < 512)
    (safe : Safe allowed before (tables before.cell (level + 1) table))
    (wellFormed : WellFormed before.cell (level + 1) table)
    (empty : Empty before.cell (level + 1) table)
    (free : ∀ lower memory, Safe allowed memory (tables memory.cell level lower) →
      WellFormed memory.cell level lower → Empty memory.cell level lower →
      wp allowed (freewalk (level + 1) lower) memory fun _ after =>
        Exchange memory (tables memory.cell level lower) after 0)
    (freed : Freed level table before index memory) :
    wp allowed (freewalkEntry (freewalk (level + 1)) table index) memory fun _ after =>
      Freed level table before (index + 1) after := by
  simp only [freewalkEntry, wp_bind, wp_loadPte, freed.entry index (Nat.le_refl _)]
  have inner := safe.exchange freed.exchange
  rw [remaining_succ bound] at inner
  cases valid : hasFlag (pteAt before.cell table index) pteV with
  | false =>
    have missing : child before.cell table index = none := by
      rw [child, valid]
      rfl
    have same : remaining before.cell level table index =
        remaining before.cell level table (index + 1) := by
      rw [remaining_succ bound, missing, Option.elim_none, zero_add]
    refine wp_pure.mpr ⟨same ▸ freed.exchange, same ▸ freed.kept, ?_⟩
    exact fun other above => freed.entry other (by omega)
  | true =>
    have below := wellFormed index bound valid
    have found : child before.cell table index = some (pte2pa (pteAt before.cell table index)) :=
      if_pos valid
    generalize pte2pa (pteAt before.cell table index) = lower at below found ⊢
    have split : remaining before.cell level table index =
        tables before.cell level lower + remaining before.cell level table (index + 1) := by
      rw [remaining_succ bound, found, Option.elim_some]
    rw [found, Option.elim_some] at inner
    have kept : ∀ page ∈ tables before.cell level lower, memory.cell page = before.cell page :=
      fun page member => freed.kept page (by rw [split, Multiset.mem_add]; exact .inl member)
    have sameTables := tables_congr kept
    rw [below.1]
    simp only [Bool.not_false, Bool.and_self, if_true, wp_bind, wp_storePte]
    -- the child is freed while the table itself and the later children are framed
    have framed : Safe allowed memory (tables memory.cell level lower +
        (table ::ₘ remaining before.cell level table (index + 1))) := by
      rw [sameTables, Multiset.add_cons]
      exact inner
    apply wp_mono (free lower memory (framed.of_le (Multiset.le_add_right _ _)) (below.2.congr kept)
      ((empty index bound lower found).congr kept))
    intro _ after released
    have root : after.cell table = memory.cell table :=
      framed.toProper.untouched released (Multiset.mem_cons_self _ _)
    have notTable : ∀ page ∈ remaining before.cell level table (index + 1), page ≠ table := by
      rintro page member rfl
      exact (Multiset.nodup_cons.mp framed.toProper.right.owned_nodup).1 member
    refine ⟨?_, ?_, ?_⟩
    · have first := freed.exchange
      rw [split, ← sameTables, ← Multiset.add_cons] at first
      have second := released.frame (table ::ₘ remaining before.cell level table (index + 1))
      rw [zero_add] at second
      exact (first.trans second).trans (Exchange.store after (Multiset.mem_cons_self _ _) _)
    · intro page member
      have later : page ∈ remaining before.cell level table index := by
        rw [split, Multiset.mem_add]
        exact .inr member
      calc setEntry after.cell table index 0 page
        _ = after.cell page := setEntry_of_ne (notTable page member)
        _ = memory.cell page :=
            framed.toProper.untouched released (Multiset.mem_cons_of_mem member)
        _ = before.cell page := freed.kept page later
    · intro other above
      rw [pteAt_setEntry bound (by decide), if_neg (by omega), pteAt_congr root]
      exact freed.entry other (by omega)

theorem freewalk_spec (level table : Nat)
    (safe : Safe allowed memory (tables memory.cell level table))
    (wellFormed : WellFormed memory.cell level table) (empty : Empty memory.cell level table) :
    wp allowed (freewalk (level + 1) table) memory fun _ after =>
      Exchange memory (tables memory.cell level table) after 0 := by
  induction level generalizing table memory with
  | zero => exact freewalk_leaf_spec safe empty
  | succ level induction =>
    rw [freewalk, wp, wp_bind]
    apply Prog.wp_forEach (Freed level table memory)
    · refine ⟨?_, fun _ _ => rfl, fun _ _ => rfl⟩
      rw [remaining_zero]
      exact .refl _ _
    · intro index state _ bound freed
      exact freewalkEntry_spec (by omega) safe wellFormed empty
        (fun lower memory => induction lower) freed
    · intro state freed
      have exchange := freed.exchange
      rw [Nat.zero_add, remaining_end] at exchange
      apply wp_mono ((safe.exchange exchange).kfree (Multiset.mem_cons_self _ _))
      exact fun _ after released => exchange.trans (released.1 0)

variable {sz : Nat}

theorem uvmfree_spec (bound : sz ≤ trapframeVa)
    (safe : Safe allowed memory (space memory.cell table))
    (wellFormed : WellFormed memory.cell 2 table) (maps : Maps memory.cell table (· < numPages sz))
    (fixed : ∀ va, va = trapframeVa ∨ va = trampolineVa →
      hasFlag (leafAt memory.cell va 2 table) pteV = false) :
    wp allowed (uvmfree table sz) memory fun _ after =>
      Exchange memory (space memory.cell table) after 0 := by
  -- once nothing is mapped any more, the address space is its page-table pages
  have rest : ∀ middle, SpaceChange table memory middle → Maps middle.cell table (· < 0) →
      wp allowed (freewalk 3 table) middle fun _ after =>
        Exchange memory (space memory.cell table) after 0 := by
    intro middle change none
    have inner := safe.exchange change.exchange
    have unmapped := (none.iff fun vpn _ => iff_false_intro (Nat.not_lt_zero vpn)).unmapped_all
      (by rw [change.fixed _ (.inl rfl)]; exact fixed _ (.inl rfl))
      (by rw [change.fixed _ (.inr rfl)]; exact fixed _ (.inr rfl))
    apply wp_mono (freewalk_spec 2 table (inner.of_le (Multiset.le_add_right _ _))
      change.wellFormed (empty_of_unmapped unmapped))
    intro _ after released
    have exchange := change.exchange
    rw [space, space, userPages_eq_zero unmapped, add_zero, ← space] at exchange
    exact exchange.trans released
  unfold uvmfree
  split
  · simp only [wp_bind]
    have pages : 0 + pgRoundUp sz / pgSize * pgSize ≤ trapframeVa := by
      have := pgRoundUp_le bound
      have := Nat.div_mul_le_self (pgRoundUp sz) pgSize
      omega
    have range := maps.iff fun vpn _ => show _ ↔ vpn < 0 ∨
        0 / pgSize ≤ vpn ∧ vpn < 0 / pgSize + pgRoundUp sz / pgSize by
      rw [numPages, Nat.zero_div]
      omega
    apply wp_mono (uvmunmap_free_spec (Nat.zero_mod _) pages (Nat.zero_le _) safe wellFormed range)
    exact fun _ middle change => rest middle change.1 change.2
  · rename_i zero
    rw [show sz = 0 by omega] at maps
    exact rest memory (.refl wellFormed) maps

/-- `uvmcopy` fills the child with as many pages as the parent has, or leaves it empty. -/
theorem uvmcopy_spec (bound : sz ≤ trapframeVa)
    (safe : Safe allowed memory (space memory.cell new + space memory.cell old))
    (oldFormed : WellFormed memory.cell 2 old) (wellFormed : WellFormed memory.cell 2 new)
    (oldMaps : Maps memory.cell old (· < numPages sz)) (maps : Maps memory.cell new (· < 0)) :
    wp allowed (uvmcopy old new sz) memory fun done after =>
      SpaceChange new memory after ∧
        Maps after.cell new (· < if done = true then numPages sz else 0) := by
  have count : (sz + pgSize - 1) / pgSize = numPages sz := by
    unfold numPages pgRoundUp trapframeVa trampolineVa maxVa pgSize at *
    omega
  have limit : (0 + numPages sz) * pgSize ≤ trapframeVa := by
    rw [Nat.zero_add, numPages_mul]
    exact pgRoundUp_le bound
  have within := pageRange_subset_userRange limit
  have below : ∀ vpn < numPages sz, vpn < trapframeVa / pgSize := by
    intro vpn inside
    have member := @within vpn (by rw [mem_pageRange]; omega)
    exact (mem_userRange.mp member).2
  have apart : ∀ page ∈ space memory.cell old, Apart memory new page := by
    intro page member
    have disjoint := (Multiset.nodup_add.mp safe.owned_nodup).2.2
    refine ⟨safe.toProper.not_mem_free (Multiset.mem_add.mpr (.inr member)), fun mine => ?_⟩
    exact Multiset.disjoint_left.mp disjoint (Multiset.mem_add.mpr (.inl mine)) member
  have valid : ∀ vpn < numPages sz,
      hasFlag (leafAt memory.cell (vpn * pgSize) 2 old) pteV = true :=
    fun vpn inside => oldMaps.valid (below vpn inside) inside
  have parent : Parent memory old new (numPages sz) := by
    refine ⟨oldFormed, valid, ?_, ?_⟩
    · exact fun page member => apart page (Multiset.mem_add.mpr (.inl member))
    · intro vpn inside
      have aligned : vpn * pgSize % pgSize = 0 := Nat.mul_mod_left _ _
      have low : vpn * pgSize < trapframeVa :=
        (Nat.mul_lt_mul_of_pos_right (below vpn inside) (by decide)).trans_le
          (Nat.div_mul_le_self _ _)
      have member := mem_userPages aligned (own_of_lt aligned low) (valid vpn inside)
      exact apart _ (Multiset.mem_add.mpr (.inr member))
  have loop := uvmcopyFrom_fills (numPages sz) 0
    (safe.of_le ((Multiset.le_add_right _ _).trans (Multiset.le_add_right _ _))) maps.above
    (by rw [Nat.zero_add]; exact parent) limit (.start wellFormed)
  rw [Nat.zero_mul, Nat.zero_add] at loop
  rw [uvmcopy, count]
  apply wp_mono loop
  intro done after result
  cases done with
  | true =>
    have filled : Filled new 0 (numPages sz) (flagsOf memory old) (contentsOf memory old)
      memory after := result
    have maps' := filled.maps maps
    rw [Nat.zero_add] at maps'
    exact ⟨filled.toRemapped.spaceChange within, maps'⟩
  | false =>
    have cleared : Cleared new (userRange 0) memory after := result
    exact ⟨cleared.toRemapped.spaceChange (Finset.Subset.refl _),
      cleared.maps maps (fun vpn _ => Nat.zero_le vpn) fun _ _ => Iff.rfl⟩

end Xv6.Vm
