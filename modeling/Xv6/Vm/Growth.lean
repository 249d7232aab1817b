import Xv6.Vm.Mapping

/-! # Growing, shrinking and copying user memory

`uvmalloc`, `uvmdealloc` and `uvmcopy`: new pages come from the free list and are
mapped one after the other; where one cannot be had, those before it go back. -/

namespace Xv6.Vm

open StateProg
open Prog (wp_bind wp_mono wp_pure)

/-- Some entries are not valid any more. -/
structure Cleared (table : Nat) (vpns : Finset Nat) (before after : Memory) : Prop
    extends Remapped true table vpns before after where
  unmapped : ∀ vpn ∈ vpns, hasFlag (leafAt after.cell (vpn * pgSize) 2 table) pteV = false

/-- Pages from the free list were mapped at `count` virtual pages from `first` on, with
these permissions and contents. -/
structure Filled (table first count : Nat) (flags : Nat → Nat) (contents : Nat → Page)
    (before after : Memory) : Prop
    extends Remapped true table (pageRange first count) before after where
  page : ∀ vpn ∈ pageRange first count, ∃ mem ∈ before.free,
    leafAt after.cell (vpn * pgSize) 2 table = pa2pte mem ||| flags vpn ||| pteV ∧
      after.cell mem = contents vpn

/-- The virtual pages from `first` up to the trapframe. -/
def userRange (first : Nat) : Finset Nat := pageRange first (trapframeVa / pgSize - first)

variable {first vpn : Nat}

@[simp] theorem mem_userRange :
    vpn ∈ userRange first ↔ first ≤ vpn ∧ vpn < trapframeVa / pgSize := by
  rw [userRange, mem_pageRange]
  omega

theorem userRange_lt (inside : vpn ∈ userRange first) : vpn < 2 ^ 27 := by
  rw [mem_userRange] at inside
  unfold trapframeVa trampolineVa maxVa pgSize at inside
  omega

variable {count : Nat}

theorem pageRange_subset_userRange (bound : (first + count) * pgSize ≤ trapframeVa) :
    pageRange first count ⊆ userRange first := by
  intro vpn inside
  rw [mem_pageRange] at inside
  rw [mem_userRange]
  unfold trapframeVa trampolineVa maxVa pgSize at *
  omega

theorem vpn_lt_maxVa (bound : (vpn + 1) * pgSize ≤ trapframeVa) :
    vpn * pgSize < maxVa ∧ vpn * pgSize < 2 ^ 39 := by
  unfold trapframeVa trampolineVa maxVa pgSize at *
  omega

variable {mem : Nat}

theorem mapped_entry {flags : Nat} (aligned : mem % pgSize = 0) (small : flags < 2 ^ 10) :
    mapped (pa2pte mem ||| flags ||| pteV) = {mem} := by
  have bits : flags ||| pteV < 2 ^ 10 := Nat.or_lt_two_pow small (by decide)
  rw [mapped, Nat.or_assoc, hasFlag_entry (by decide), pte2pa_entry aligned bits, hasFlag_pteV,
    if_pos rfl]

/-! ## User memory -/

/-- What user memory has at a virtual page: the entry for it, and the contents of the page. -/
def userPageAt (cell : Nat → Page) (table vpn : Nat) : Option (Nat × Page) :=
  (entryOf cell table (vpn * pgSize)).map fun pte => (pte, cell (pte2pa pte))

section UserMemory

variable {table vpn : Nat} {vpns all : Finset Nat} {cell : Nat → Page} {before after : Memory}

theorem userPageAt_isSome : (userPageAt cell table vpn).isSome = true ↔
    hasFlag (leafAt cell (vpn * pgSize) 2 table) pteV = true := by
  unfold userPageAt entryOf
  split
  · rename_i valid
    exact iff_of_true rfl valid
  · rename_i invalid
    exact iff_of_false Bool.false_ne_true invalid

theorem mem_mappedPages_of_valid (inside : vpn ∈ vpns)
    (valid : hasFlag (leafAt cell (vpn * pgSize) 2 table) pteV = true) :
    pte2pa (leafAt cell (vpn * pgSize) 2 table) ∈ mappedPages true cell table vpns := by
  rw [mappedPages, if_pos rfl, leafPages, Multiset.mem_sum]
  refine ⟨vpn, inside, ?_⟩
  rw [mapped, if_pos valid]
  exact Multiset.mem_singleton_self _

theorem card_mappedPages (valid : ∀ vpn ∈ vpns,
      hasFlag (leafAt cell (vpn * pgSize) 2 table) pteV = true) :
    (mappedPages true cell table vpns).card = vpns.card := by
  have one : ∀ vpn ∈ vpns, (mapped (leafAt cell (vpn * pgSize) 2 table)).card = 1 := by
    intro vpn member
    rw [mapped, if_pos (valid vpn member), Multiset.card_singleton]
  rw [mappedPages, if_pos rfl, leafPages, Multiset.card_sum, Finset.sum_const_nat one, Nat.mul_one]

theorem Remapped.userPageAt_eq (remapped : Remapped true table vpns before after)
    (proper : Proper before (tables before.cell 2 table + mappedPages true before.cell table all))
    (subset : vpns ⊆ all) (inside : vpn ∈ all) (low : vpn < 2 ^ 27) (outside : vpn ∉ vpns) :
    userPageAt after.cell table vpn = userPageAt before.cell table vpn := by
  have same := remapped.same vpn low outside
  rw [userPageAt, userPageAt, entryOf, entryOf, same]
  split
  · rename_i valid
    have other : vpn ∈ all \ vpns := Finset.mem_sdiff.mpr ⟨inside, outside⟩
    have mine := mem_mappedPages_of_valid other valid
    rw [mappedPages_subset subset, ← add_assoc] at proper
    rw [Option.map_some, Option.map_some, proper.untouched remapped.exchange mine]
  · rfl

theorem mappedPages_injective (nodup : (mappedPages true cell table vpns).Nodup)
    (inside : vpn ∈ vpns) (inside' : other ∈ vpns)
    (valid : hasFlag (leafAt cell (vpn * pgSize) 2 table) pteV = true)
    (valid' : hasFlag (leafAt cell (other * pgSize) 2 table) pteV = true)
    (same : pte2pa (leafAt cell (vpn * pgSize) 2 table) =
      pte2pa (leafAt cell (other * pgSize) 2 table)) : vpn = other := by
  by_contra different
  rw [mappedPages_subset (Finset.singleton_subset_iff.mpr inside)] at nodup
  have disjoint := (Multiset.nodup_add.mp nodup).2.2
  have first := mem_mappedPages_of_valid (Finset.mem_singleton_self vpn) valid
  have apart : other ∈ vpns \ {vpn} :=
    Finset.mem_sdiff.mpr ⟨inside', fun member => different (Finset.mem_singleton.mp member).symm⟩
  have second := mem_mappedPages_of_valid apart valid'
  rw [← same] at second
  exact Multiset.disjoint_left.mp disjoint first second

end UserMemory

section Calls

variable [KernelImage] {allowed : String → Prop}

variable {vpns : Finset Nat}

section Fill

variable {table first count : Nat} {flags : Nat → Nat} {contents : Nat → Page}
  {before memory middle after : Memory}

/-- No page from `first` up to the trapframe is mapped. -/
def Unmapped (memory : Memory) (table first : Nat) : Prop :=
  ∀ vpn ∈ userRange first, hasFlag (leafAt memory.cell (vpn * pgSize) 2 table) pteV = false

omit [KernelImage] in
theorem Unmapped.pages (unmapped : Unmapped before table first) (subset : vpns ⊆ userRange first) :
    mappedPages true before.cell table vpns = 0 :=
  mappedPages_unmapped fun vpn inside => unmapped vpn (subset inside)

theorem Remapped.safe (remapped : Remapped true table vpns before memory)
    (safe : Safe allowed before (tables before.cell 2 table))
    (empty : mappedPages true before.cell table vpns = 0) :
    Safe allowed memory (tables memory.cell 2 table + mappedPages true memory.cell table vpns) := by
  have exchange := remapped.exchange
  rw [empty, add_zero] at exchange
  exact safe.exchange exchange

theorem Remapped.free_of_free (remapped : Remapped true table vpns before memory)
    (safe : Safe allowed before (tables before.cell 2 table))
    (empty : mappedPages true before.cell table vpns = 0) (free : mem ∈ memory.free) :
    mem ∈ before.free := by
  have conserved := remapped.exchange.conserved
  rw [empty, add_zero] at conserved
  have member : mem ∈ (before.free : Multiset Nat) + tables before.cell 2 table := by
    rw [← conserved, Multiset.mem_add]
    exact .inl free
  rcases Multiset.mem_add.mp member with stillFree | isTable
  · exact stillFree
  · have inside := Multiset.mem_of_le remapped.more isTable
    exact absurd free ((remapped.safe safe empty).toProper.not_mem_free
      (Multiset.mem_add.mpr (.inl inside)))

omit [KernelImage] in
theorem Filled.start (wellFormed : WellFormed before.cell 2 table) :
    Filled table first 0 flags contents before before := by
  refine ⟨.refl wellFormed, ?_⟩
  intro vpn inside
  rw [mem_pageRange] at inside
  omega

omit [KernelImage] in
theorem mem_mappedPages {cell : Nat → Page} (inside : vpn ∈ vpns)
    (entry : leafAt cell (vpn * pgSize) 2 table = pa2pte mem ||| bits ||| pteV)
    (aligned : mem % pgSize = 0) (small : bits < 2 ^ 10) :
    mem ∈ mappedPages true cell table vpns := by
  rw [mappedPages, if_pos rfl, leafPages, Multiset.mem_sum]
  refine ⟨vpn, inside, ?_⟩
  rw [entry, mapped_entry aligned small]
  exact Multiset.mem_singleton_self mem

section

variable (filled : Filled table first count flags contents before memory)
  (small : ∀ vpn, flags vpn < 2 ^ 10) (safe : Safe allowed before (tables before.cell 2 table))

include filled small safe

theorem Filled.grow (empty : mappedPages true before.cell table (pageRange first count) = 0)
    (inside : ∀ vpn ∈ pageRange first count, vpn < 2 ^ 27)
    (grown : Remapped true table ∅ memory after) :
    Filled table first count flags contents before after := by
  have held := filled.toRemapped.safe safe empty
  refine ⟨filled.toRemapped.trans (grown.mono (Finset.empty_subset _) inside), ?_⟩
  intro vpn member
  rcases filled.page vpn member with ⟨mem, free, entry, content⟩
  refine ⟨mem, free, ?_, ?_⟩
  · rw [grown.same vpn (inside vpn member) (Finset.notMem_empty vpn)]
    exact entry
  · have aligned := (safe.good mem (Multiset.mem_add.mpr (.inl (Multiset.mem_coe.mpr free)))).1
    have mine := mem_mappedPages member entry aligned (small vpn)
    have exchange := grown.exchange
    rw [mappedPages_unmapped (by simp), add_zero] at exchange
    rw [held.toProper.untouched exchange mine]
    exact content

theorem Filled.extend (unmapped : Unmapped before table first)
    (bound : (first + count + 1) * pgSize ≤ trapframeVa) (fresh : Fresh mem memory middle)
    (content : middle.cell mem = contents (first + count))
    (changed : Changed table ((first + count) * pgSize)
      (pa2pte mem ||| flags (first + count) ||| pteV) middle after) :
    Filled table first (count + 1) flags contents before after := by
  have shorter : (first + count) * pgSize ≤ trapframeVa :=
    Nat.le_trans (Nat.mul_le_mul_right pgSize (Nat.le_succ _)) bound
  have within := pageRange_subset_userRange shorter
  have empty := unmapped.pages within
  have held := filled.toRemapped.safe safe empty
  have wide := (vpn_lt_maxVa bound).2
  have aligned : (first + count) * pgSize % pgSize = 0 := Nat.mul_mod_left _ _
  have page : (first + count) * pgSize / pgSize = first + count := Nat.mul_div_cancel _ (by decide)
  have good := (held.good mem (Multiset.mem_add.mpr (.inl (Multiset.mem_coe.mpr fresh.free)))).1
  have notOwned : ∀ other ∈ tables memory.cell 2 table + mappedPages true memory.cell table
      (pageRange first count), other ≠ mem := by
    intro other member equal
    exact held.toProper.not_mem_free (equal ▸ member) fresh.free
  have kept : ∀ other ∈ tables memory.cell 2 table, middle.cell other = memory.cell other :=
    fun other member => fresh.same other (notOwned other (Multiset.mem_add.mpr (.inl member)))
  -- the entries that are there already, and the pages they map
  have entries : ∀ vpn < 2 ^ 27, vpn ≠ first + count →
      leafAt after.cell (vpn * pgSize) 2 table = leafAt memory.cell (vpn * pgSize) 2 table := by
    intro vpn low different
    rw [changed.same aligned wide vpn low (by rw [page, Finset.mem_singleton]; exact different),
      leafAt_congr kept]
  have here : leafAt after.cell ((first + count) * pgSize) 2 table =
      pa2pte mem ||| flags (first + count) ||| pteV := changed.here _ fun _ _ => rfl
  have step : Exchange memory
      (tables memory.cell 2 table + mappedPages true memory.cell table (pageRange first count))
      after (tables after.cell 2 table + (mem ::ₘ
        mappedPages true memory.cell table (pageRange first count))) := by
    have moved := changed.exchange.frame
      (mem ::ₘ mappedPages true memory.cell table (pageRange first count))
    rw [tables_congr kept, Multiset.add_cons] at moved
    exact (fresh.exchange _).trans moved
  have pages : mappedPages true after.cell table (pageRange first (count + 1)) =
      mem ::ₘ mappedPages true memory.cell table (pageRange first count) := by
    have subset : pageRange first count ⊆ pageRange first (count + 1) := by
      intro vpn inside
      rw [mem_pageRange] at inside ⊢
      omega
    have last : pageRange first (count + 1) \ pageRange first count = {first + count} := by
      ext vpn
      rw [Finset.mem_sdiff, mem_pageRange, mem_pageRange, Finset.mem_singleton]
      omega
    have same : mappedPages true after.cell table (pageRange first count) =
        mappedPages true memory.cell table (pageRange first count) := by
      apply mappedPages_congr
      intro vpn inside
      apply entries vpn (userRange_lt (within inside))
      rw [mem_pageRange] at inside
      omega
    have one : mappedPages true after.cell table {first + count} = {mem} := by
      rw [mappedPages, if_pos rfl, leafPages, Finset.sum_singleton, here,
        mapped_entry good (small _)]
    rw [mappedPages_subset subset, last, same, one, add_comm, Multiset.singleton_add]
  have whole : mappedPages true before.cell table (pageRange first (count + 1)) = 0 :=
    unmapped.pages (pageRange_subset_userRange bound)
  refine ⟨⟨?_, changed.wellFormed, ?_, ?_⟩, ?_⟩
  · rw [whole, pages, ← empty]
    exact filled.exchange.trans step
  · have more := changed.more
    rw [tables_congr kept] at more
    exact filled.more.trans more
  · intro vpn low outside
    rw [mem_pageRange] at outside
    rw [entries vpn low (by omega)]
    apply filled.same vpn low
    rw [mem_pageRange]
    omega
  · intro vpn inside
    rw [mem_pageRange] at inside
    have which : vpn = first + count ∨ vpn < first + count := by omega
    rcases which with equal | earlier
    · subst equal
      refine ⟨mem, filled.toRemapped.free_of_free safe empty fresh.free, here, ?_⟩
      rw [← content]
      have owns : Proper middle (tables middle.cell 2 table + {mem}) := by
        have inner := held.toProper.exchange (fresh.exchange _)
        apply inner.of_le
        rw [tables_congr kept, add_comm, Multiset.singleton_add]
        exact Multiset.cons_le_cons mem (Multiset.le_add_right _ _)
      exact owns.untouched changed.exchange (Multiset.mem_singleton_self mem)
    · have member : vpn ∈ pageRange first count := by
        rw [mem_pageRange]
        omega
      rcases filled.page vpn member with ⟨other, free, entry, held'⟩
      have aligned' := (safe.good other (Multiset.mem_add.mpr (.inl (Multiset.mem_coe.mpr free)))).1
      have mine := mem_mappedPages member entry aligned' (small vpn)
      refine ⟨other, free, ?_, ?_⟩
      · rw [entries vpn (userRange_lt (within member)) (by omega)]
        exact entry
      · have owns : Proper middle (tables middle.cell 2 table +
            mappedPages true memory.cell table (pageRange first count)) := by
          have inner := held.toProper.exchange (fresh.exchange _)
          apply inner.of_le
          rw [tables_congr kept]
          exact Multiset.le_cons_self _ _
        rw [owns.untouched changed.exchange mine, fresh.same other
          (notOwned other (Multiset.mem_add.mpr (.inr mine)))]
        exact held'

end

section Steps

variable {mem : Nat} (filled : Filled table first count flags contents before memory)
  (small : ∀ vpn, flags vpn < 2 ^ 10) (safe : Safe allowed before (tables before.cell 2 table))
  (unmapped : Unmapped before table first)

include filled small safe unmapped

theorem Filled.mappages_spec (bound : (first + count + 1) * pgSize ≤ trapframeVa)
    (leaf : hasFlag (flags (first + count)) (pteR ||| pteW ||| pteX) = true)
    (fresh : Fresh mem memory middle) (content : middle.cell mem = contents (first + count)) :
    wp allowed (mappages table ((first + count) * pgSize) pgSize mem (flags (first + count)))
      middle fun done after =>
        if done = true then Filled table first (count + 1) flags contents before after ∧
          leafAt after.cell ((first + count) * pgSize) 2 table =
            pa2pte mem ||| flags (first + count) ||| pteV
        else Grown 2 table middle after := by
  have shorter : (first + count) * pgSize ≤ trapframeVa :=
    Nat.le_trans (Nat.mul_le_mul_right pgSize (Nat.le_succ _)) bound
  have within := pageRange_subset_userRange shorter
  have held := filled.toRemapped.safe safe (unmapped.pages within)
  have good := held.good mem (Multiset.mem_add.mpr (.inl (Multiset.mem_coe.mpr fresh.free)))
  have kept : ∀ other ∈ tables memory.cell 2 table, middle.cell other = memory.cell other :=
    fun other member => fresh.kept held.toProper (Multiset.mem_add.mpr (.inl member))
  have proper : Proper middle (tables middle.cell 2 table) := by
    have inner := held.toProper.exchange (fresh.exchange _)
    apply inner.of_le
    rw [tables_congr kept]
    exact (Multiset.le_add_right _ _).trans (Multiset.le_cons_self _ _)
  have last : first + count ∈ userRange first := by
    rw [mem_userRange]
    unfold trapframeVa trampolineVa maxVa pgSize at bound ⊢
    omega
  have free : hasFlag (leafAt middle.cell ((first + count) * pgSize) 2 table) pteV = false := by
    rw [leafAt_congr kept, filled.same _ (userRange_lt last) (by rw [mem_pageRange]; omega)]
    exact unmapped _ last
  have below : mem < 2 ^ 56 := by
    have limit := good.2
    unfold physTop kernBase at limit
    omega
  apply wp_mono (mappages_page_spec (Nat.mul_mod_left _ _) (vpn_lt_maxVa bound).1 proper
    (filled.wellFormed.congr kept) leaf (small _) below free)
  intro done after result
  cases done with
  | false => exact result
  | true =>
    exact ⟨filled.extend small safe unmapped bound fresh content result,
      result.here _ fun _ _ => rfl⟩

section

variable (bound : (first + count) * pgSize ≤ trapframeVa)

include bound

theorem Filled.kfree_spec (fresh : Fresh mem memory middle) (grown : Grown 2 table middle after) :
    wp allowed (kfree mem) after fun _ last =>
      Filled table first count flags contents before last := by
  have within := pageRange_subset_userRange bound
  have empty := unmapped.pages within
  have held := filled.toRemapped.safe safe empty
  have kept : ∀ other ∈ tables memory.cell 2 table, middle.cell other = memory.cell other :=
    fun other member => fresh.kept held.toProper (Multiset.mem_add.mpr (.inl member))
  have moved : Exchange memory (tables memory.cell 2 table) after
      (mem ::ₘ tables after.cell 2 table) := by
    have growth := grown.exchange.frame {mem}
    rw [tables_congr kept, add_comm, Multiset.singleton_add, add_comm, Multiset.singleton_add]
      at growth
    exact (fresh.exchange _).trans growth
  have held' := (held.of_le (Multiset.le_add_right _ _)).exchange moved
  apply wp_mono (held'.kfree (Multiset.mem_cons_self mem _))
  intro _ last released
  rcases released with ⟨released, elsewhere⟩
  have kept' : ∀ other ∈ tables after.cell 2 table, last.cell other = after.cell other := by
    intro other member
    apply elsewhere
    rintro rfl
    exact (Multiset.nodup_cons.mp held'.owned_nodup).1 member
  apply filled.grow small safe empty fun vpn member => userRange_lt (within member)
  refine ⟨?_, grown.wellFormed.congr kept', ?_, ?_⟩
  · rw [mappedPages_unmapped (by simp), mappedPages_unmapped (by simp), add_zero, add_zero,
      tables_congr kept']
    exact moved.trans (released _)
  · rw [tables_congr kept', ← tables_congr kept]
    exact grown.more
  · intro vpn _ _
    rw [leafAt_congr kept', grown.leaf, leafAt_congr kept]

omit small in
theorem Filled.undo_spec :
    wp allowed (uvmunmapFrom table true count (first * pgSize)) memory fun _ after =>
      Cleared table (userRange first) before after := by
  have within := pageRange_subset_userRange bound
  have held := filled.toRemapped.safe safe (unmapped.pages within)
  have page : first * pgSize / pgSize = first := Nat.mul_div_cancel _ (by decide)
  have inRange : first * pgSize + count * pgSize ≤ maxVa := by
    rw [← Nat.add_mul]
    unfold trapframeVa trampolineVa at bound
    omega
  have valid : ∀ vpn ∈ pageRange first count,
      hasFlag (leafAt memory.cell (vpn * pgSize) 2 table) pteV = true := by
    intro vpn member
    rcases filled.page vpn member with ⟨other, _, entry, _⟩
    rw [entry]
    exact hasFlag_pteV
  have unmap := @uvmunmapFrom_spec _ allowed table true count (first * pgSize) memory
    (Nat.mul_mod_left _ _) inRange
  rw [page] at unmap
  apply wp_mono (unmap held filled.wellFormed valid)
  intro _ after result
  rcases result with ⟨remapped, zero⟩
  have both := filled.toRemapped.trans remapped
  refine ⟨both.mono within fun vpn member => userRange_lt member, ?_⟩
  intro vpn member
  by_cases inside : vpn ∈ pageRange first count
  · rw [zero vpn inside]
    rfl
  · rw [both.same vpn (userRange_lt member) inside]
    exact unmapped vpn member

omit [KernelImage] small safe in
theorem Filled.length_le : count + memory.free.length ≤ before.free.length := by
  have empty := unmapped.pages (pageRange_subset_userRange bound)
  have conserved := congrArg Multiset.card filled.exchange.conserved
  rw [empty, add_zero, Multiset.card_add, Multiset.card_add, Multiset.card_add, Multiset.coe_card,
    Multiset.coe_card] at conserved
  have pages : (mappedPages true memory.cell table (pageRange first count)).card = count := by
    have valid : ∀ vpn ∈ pageRange first count,
        hasFlag (leafAt memory.cell (vpn * pgSize) 2 table) pteV = true := by
      intro vpn member
      rcases filled.page vpn member with ⟨_, _, entry, _⟩
      rw [entry]
      exact hasFlag_pteV
    rw [card_mappedPages valid, pageRange, Nat.card_Ico, Nat.add_sub_cancel_left]
  have tables := Multiset.card_le_card filled.more
  omega

end

end Steps

end Fill

/-! ## `uvmdealloc` -/

section Dealloc

variable {table oldsz newsz : Nat} {memory : Memory}

theorem uvmdealloc_same (enough : oldsz ≤ newsz) {post : Nat → Memory → Prop}
    (holds : post oldsz memory) : wp allowed (uvmdealloc table oldsz newsz) memory post := by
  rw [uvmdealloc, if_pos enough]
  exact wp_pure.mpr holds

theorem uvmdealloc_clears (smaller : newsz < oldsz) (bound : oldsz ≤ trapframeVa)
    (safe : Safe allowed memory (tables memory.cell 2 table + mappedPages true memory.cell table
      (pageRange (numPages newsz) (numPages oldsz - numPages newsz))))
    (wellFormed : WellFormed memory.cell 2 table)
    (valid : ∀ vpn ∈ pageRange (numPages newsz) (numPages oldsz - numPages newsz),
      hasFlag (leafAt memory.cell (vpn * pgSize) 2 table) pteV = true) :
    wp allowed (uvmdealloc table oldsz newsz) memory fun sz after => sz = newsz ∧
      Cleared table (pageRange (numPages newsz) (numPages oldsz - numPages newsz)) memory
        after := by
  have order := numPages_mono smaller.le bound
  rw [uvmdealloc, if_neg (Nat.not_le.mpr smaller)]
  split
  · have npages : (pgRoundUp oldsz - pgRoundUp newsz) / pgSize =
        numPages oldsz - numPages newsz := by
      rw [← numPages_mul, ← numPages_mul, ← Nat.sub_mul, Nat.mul_div_cancel _ (by decide)]
    have inRange : pgRoundUp newsz + (numPages oldsz - numPages newsz) * pgSize ≤ maxVa := by
      have limit := pgRoundUp_le bound
      rw [← numPages_mul] at limit
      rw [← numPages_mul, ← Nat.add_mul, Nat.add_sub_cancel' order]
      unfold trapframeVa trampolineVa at limit
      omega
    have unmap := @uvmunmapFrom_spec _ allowed table true (numPages oldsz - numPages newsz)
      (pgRoundUp newsz) memory (pgRoundUp_aligned _) inRange safe wellFormed valid
    apply wp_bind.mpr
    rw [npages, uvmunmap, if_neg (not_not.mpr (pgRoundUp_aligned _))]
    apply wp_mono unmap
    intro _ after result
    refine wp_pure.mpr ⟨rfl, result.1, ?_⟩
    intro vpn member
    rw [result.2 vpn member]
    rfl
  · rename_i same
    have none : numPages oldsz - numPages newsz = 0 := by
      have le := Nat.div_le_div_right (c := pgSize) (Nat.le_of_not_lt same)
      rw [← numPages, ← numPages] at le
      omega
    rw [none, pageRange_zero]
    refine wp_pure.mpr ⟨rfl, .refl wellFormed, ?_⟩
    intro vpn member
    exact absurd member (Finset.notMem_empty vpn)

end Dealloc

/-! ## `uvmalloc` -/

section Alloc

variable {table first xperm : Nat} {before memory : Memory}

variable {contents : Nat → Page} {flags : Nat → Nat}

theorem Filled.uvmdealloc_spec (filled : Filled table first count flags contents before memory)
    (safe : Safe allowed before (tables before.cell 2 table))
    (unmapped : Unmapped before table first) (bound : (first + count) * pgSize ≤ trapframeVa) :
    wp allowed (uvmdealloc table ((first + count) * pgSize) (first * pgSize)) memory
      fun _ after => Cleared table (userRange first) before after := by
  have undo := filled.undo_spec safe unmapped bound
  rcases Nat.eq_zero_or_pos count with rfl | positive
  · rw [uvmunmapFrom, wp, wp_pure] at undo
    exact uvmdealloc_same (Nat.le_refl _) undo
  · have round : ∀ pages, pages * pgSize ≤ trapframeVa →
        pgRoundUp (pages * pgSize) = pages * pgSize := by
      intro pages limit
      unfold pgRoundUp trapframeVa trampolineVa maxVa pgSize at *
      omega
    have lower : first * pgSize < (first + count) * pgSize :=
      Nat.mul_lt_mul_of_pos_right (by omega) (by decide)
    rw [uvmdealloc, if_neg (Nat.not_le.mpr lower), round _ bound, round first (by omega),
      if_pos lower]
    apply wp_bind.mpr
    rw [← Nat.sub_mul, Nat.mul_div_cancel _ (by decide), Nat.add_sub_cancel_left, uvmunmap,
      if_neg (not_not.mpr (Nat.mul_mod_left _ _))]
    exact wp_mono undo fun _ after cleared => wp_pure.mpr cleared

theorem uvmallocFrom_fills (count mapped : Nat) (perm : xperm < 2 ^ 10)
    (safe : Safe allowed before (tables before.cell 2 table))
    (unmapped : Unmapped before table first)
    (room : (first + min (mapped + count) before.free.length) * pgSize ≤ trapframeVa)
    (bound : (first + mapped) * pgSize ≤ trapframeVa)
    (filled : Filled table first mapped (fun _ => pteR ||| pteU ||| xperm) (fun _ _ => 0) before
      memory) :
    wp allowed (uvmallocFrom table (first * pgSize) xperm count ((first + mapped) * pgSize)) memory
      fun done after =>
        if done = true then
          Filled table first (mapped + count) (fun _ => pteR ||| pteU ||| xperm) (fun _ _ => 0)
            before after ∧ (first + (mapped + count)) * pgSize ≤ trapframeVa
        else Cleared table (userRange first) before after := by
  have flags := userPerm perm
  induction count generalizing mapped memory with
  | zero => exact wp_pure.mpr ⟨filled, bound⟩
  | succ count induction =>
    rw [uvmallocFrom]
    apply wp_bind.mpr
    apply wp_mono (kalloc_spec memory)
    intro result allocated allocation
    cases result with
    | none =>
      subst allocation
      apply wp_bind.mpr
      apply wp_mono (filled.uvmdealloc_spec safe unmapped bound)
      exact fun _ after cleared => wp_pure.mpr cleared
    | some mem =>
      -- a page could be had, so there is room for it
      have free : 0 < memory.free.length := List.length_pos_of_mem allocation.free
      have length := filled.length_le unmapped bound
      have next : (first + mapped + 1) * pgSize ≤ trapframeVa :=
        Nat.le_trans (Nat.mul_le_mul_right pgSize (by omega)) room
      simp only [wp_bind, wp_fillPage]
      have fresh := allocation.store fun _ => 0
      apply wp_mono (filled.mappages_spec (fun _ => flags.2) safe unmapped next flags.1
        fresh (Function.update_self _ _ _))
      intro done after result
      cases done with
      | true =>
        have total : mapped + 1 + count = mapped + (count + 1) := by omega
        have address : (first + mapped) * pgSize + pgSize = (first + (mapped + 1)) * pgSize :=
          (Nat.succ_mul _ _).symm
        rw [if_pos rfl] at result
        have rest := induction (mapped + 1) (by rw [total]; exact room) next result.1
        rw [total] at rest
        rw [if_pos rfl, address]
        exact rest
      | false =>
        simp only [Bool.false_eq_true, if_false, wp_bind, wp_pure]
        apply wp_mono (filled.kfree_spec (fun _ => flags.2) safe unmapped bound fresh result)
        exact fun _ last refilled => refilled.uvmdealloc_spec safe unmapped bound

variable {oldsz newsz : Nat}

/-- `uvmalloc` with a new size that is not smaller. Either the new size or the number of free
pages leaves the trapframe alone. -/
theorem uvmalloc_fills (order : oldsz ≤ newsz) (bound : oldsz ≤ trapframeVa)
    (perm : xperm < 2 ^ 10) (safe : Safe allowed memory (tables memory.cell 2 table))
    (wellFormed : WellFormed memory.cell 2 table)
    (unmapped : Unmapped memory table (numPages oldsz))
    (room : newsz ≤ trapframeVa ∨ (numPages oldsz + memory.free.length) * pgSize ≤ trapframeVa) :
    wp allowed (uvmalloc table oldsz newsz xperm) memory fun sz after =>
      sz = newsz ∧ newsz ≤ trapframeVa ∧
        Filled table (numPages oldsz) (numPages newsz - numPages oldsz)
          (fun _ => pteR ||| pteU ||| xperm) (fun _ _ => 0) memory after ∨
      sz = 0 ∧ Cleared table (userRange (numPages oldsz)) memory after := by
  have start : (numPages oldsz + 0) * pgSize ≤ trapframeVa := by
    rw [Nat.add_zero, numPages_mul]
    exact pgRoundUp_le bound
  have fits : (numPages oldsz + min (0 + (newsz - pgRoundUp oldsz + pgSize - 1) / pgSize)
      memory.free.length) * pgSize ≤ trapframeVa := by
    rcases room with limit | few
    · have total : (numPages oldsz + (newsz - pgRoundUp oldsz + pgSize - 1) / pgSize) * pgSize ≤
          trapframeVa := by
        rw [Nat.add_mul, numPages_mul]
        unfold trapframeVa trampolineVa maxVa at limit bound ⊢
        unfold pgRoundUp
        unfold pgSize at limit bound ⊢
        omega
      exact Nat.le_trans (Nat.mul_le_mul_right pgSize (by omega)) total
    · exact Nat.le_trans (Nat.mul_le_mul_right pgSize (by omega)) few
  have loop := uvmallocFrom_fills ((newsz - pgRoundUp oldsz + pgSize - 1) / pgSize) 0 perm safe
    unmapped fits start (.start wellFormed)
  rw [Nat.add_zero, numPages_mul] at loop
  rw [uvmalloc, if_neg (Nat.not_lt.mpr order)]
  apply wp_bind.mpr
  apply wp_mono loop
  intro done after result
  cases done with
  | false => exact wp_pure.mpr (.inr ⟨rfl, result⟩)
  | true =>
    rcases result with ⟨filled, limit⟩
    rw [Nat.zero_add] at filled limit
    have small : newsz ≤ trapframeVa ∧ numPages newsz - numPages oldsz =
        (newsz - pgRoundUp oldsz + pgSize - 1) / pgSize := by
      unfold numPages pgRoundUp at limit ⊢
      unfold trapframeVa trampolineVa maxVa at limit bound ⊢
      unfold pgSize at limit bound ⊢
      omega
    rw [← small.2] at filled
    exact wp_pure.mpr (.inl ⟨rfl, small.1, filled⟩)

/-- The pages of a process below the trapframe are those up to its size. -/
def HasSize (cell : Nat → Page) (table sz : Nat) : Prop :=
  ∀ vpn ∈ userRange 0, (userPageAt cell table vpn).isSome = true ↔ vpn < numPages sz

omit [KernelImage] in
theorem HasSize.unmapped (size : HasSize memory.cell table oldsz) :
    Unmapped memory table (numPages oldsz) := by
  intro vpn inside
  rw [mem_userRange] at inside
  have member : vpn ∈ userRange 0 := by
    rw [mem_userRange]
    omega
  apply Bool.eq_false_iff.mpr
  intro valid
  have below := (size vpn member).mp (userPageAt_isSome.mpr valid)
  omega

variable {sz : Nat}

omit [KernelImage] in
theorem numPages_lt (bound : sz ≤ trapframeVa) (inside : vpn < numPages sz) :
    vpn ∈ userRange 0 := by
  have limit := pgRoundUp_le bound
  rw [← numPages_mul] at limit
  rw [mem_userRange]
  unfold trapframeVa trampolineVa maxVa pgSize at *
  omega

variable {after : Memory} {sz' : Nat}

omit [KernelImage] in
theorem Remapped.hasSize (remapped : Remapped true table vpns memory after)
    (size : HasSize memory.cell table sz)
    (inside : ∀ vpn ∈ vpns,
      hasFlag (leafAt after.cell (vpn * pgSize) 2 table) pteV = true ↔ vpn < numPages sz')
    (outside : ∀ vpn ∉ vpns, vpn < numPages sz ↔ vpn < numPages sz') :
    HasSize after.cell table sz' := by
  intro vpn user
  rw [userPageAt_isSome]
  by_cases member : vpn ∈ vpns
  · exact inside vpn member
  · rw [remapped.same vpn (userRange_lt user) member, ← userPageAt_isSome, size vpn user]
    exact outside vpn member

omit [KernelImage] in
theorem Filled.hasSize
    (filled : Filled table (numPages oldsz) (numPages newsz - numPages oldsz) flags contents
      memory after) (size : HasSize memory.cell table oldsz)
    (order : numPages oldsz ≤ numPages newsz) : HasSize after.cell table newsz := by
  apply filled.toRemapped.hasSize size
  · intro vpn member
    rcases filled.page vpn member with ⟨_, _, entry, _⟩
    rw [entry, hasFlag_pteV]
    rw [mem_pageRange] at member
    exact iff_of_true rfl (by omega)
  · intro vpn outside
    rw [mem_pageRange] at outside
    omega

omit [KernelImage] in
theorem Cleared.hasSize (cleared : Cleared table vpns memory after)
    (size : HasSize memory.cell table sz) (inside : ∀ vpn ∈ vpns, numPages sz' ≤ vpn)
    (outside : ∀ vpn ∉ vpns, vpn < numPages sz ↔ vpn < numPages sz') :
    HasSize after.cell table sz' := by
  refine cleared.toRemapped.hasSize size ?_ outside
  intro vpn member
  rw [cleared.unmapped vpn member]
  exact iff_of_false Bool.false_ne_true (Nat.not_lt.mpr (inside vpn member))

/-- `uvmalloc` is all or nothing. It maps fresh, different pages of zeros up to the new size;
or user memory is as before, and what was allocated is free again, up to pages of the page
table. -/
theorem uvmalloc_all_or_nothing
    (safe : Safe NoPanic memory
      (tables memory.cell 2 table + mappedPages true memory.cell table (userRange 0)))
    (wellFormed : WellFormed memory.cell 2 table) (size : HasSize memory.cell table oldsz)
    (order : oldsz ≤ newsz) (bound : newsz ≤ trapframeVa) (perm : xperm < 2 ^ 10) :
    wp NoPanic (uvmalloc table oldsz newsz xperm) memory fun sz after =>
      (∀ va, trapframeVa ≤ va → va < maxVa →
        entryOf after.cell table va = entryOf memory.cell table va) ∧
      (∀ vpn < numPages oldsz, userPageAt after.cell table vpn = userPageAt memory.cell table vpn) ∧
      (sz = newsz ∧ HasSize after.cell table newsz ∧
        (∃ page : Nat → Nat,
          (∀ vpn ∈ pageRange (numPages oldsz) (numPages newsz - numPages oldsz),
            page vpn ∈ memory.free ∧ userPageAt after.cell table vpn =
              some (pa2pte (page vpn) ||| (pteR ||| pteU ||| xperm) ||| pteV, fun _ => 0)) ∧
          ∀ vpn ∈ pageRange (numPages oldsz) (numPages newsz - numPages oldsz),
            ∀ other ∈ pageRange (numPages oldsz) (numPages newsz - numPages oldsz),
              page vpn = page other → vpn = other) ∨
      sz = 0 ∧ HasSize after.cell table oldsz ∧
        (after.free : Multiset Nat) + tables after.cell 2 table =
          memory.free + tables memory.cell 2 table) := by
  have tablesSafe := safe.of_le (Multiset.le_add_right _ _)
  have smaller := Nat.le_trans order bound
  have unmapped := size.unmapped
  have ordered := numPages_mono order bound
  -- all pages that may change lie between the old size and the trapframe
  have rest : userRange (numPages oldsz) ⊆ userRange 0 := by
    intro vpn inside
    rw [mem_userRange] at inside ⊢
    omega
  have keeps : ∀ after, Remapped true table (userRange (numPages oldsz)) memory after →
      (∀ va, trapframeVa ≤ va → va < maxVa →
        entryOf after.cell table va = entryOf memory.cell table va) ∧
      ∀ vpn < numPages oldsz,
        userPageAt after.cell table vpn = userPageAt memory.cell table vpn := by
    intro after remapped
    constructor
    · intro va above inRange
      apply remapped.entryOf_eq
      · unfold maxVa at inRange
        omega
      · rw [mem_userRange]
        unfold trapframeVa trampolineVa maxVa pgSize at *
        omega
    · intro vpn below
      have inside := numPages_lt smaller below
      apply remapped.userPageAt_eq safe.toProper rest inside (userRange_lt inside)
      rw [mem_userRange]
      omega
  apply wp_mono (uvmalloc_fills order smaller perm tablesSafe wellFormed unmapped (.inl bound))
  intro sz after result
  rcases result with grown | failed
  · rcases grown with ⟨rfl, _, filled⟩
    have limit : (numPages oldsz + (numPages sz - numPages oldsz)) * pgSize ≤ trapframeVa := by
      rw [Nat.add_sub_cancel' ordered, numPages_mul]
      exact pgRoundUp_le bound
    have within := pageRange_subset_userRange limit
    have kept := keeps after (filled.toRemapped.mono within fun vpn member => userRange_lt member)
    have aligned : ∀ mem ∈ memory.free, mem % pgSize = 0 := fun mem free =>
      (safe.good mem (Multiset.mem_add.mpr (.inl (Multiset.mem_coe.mpr free)))).1
    have flags : pteR ||| pteU ||| xperm ||| pteV < 2 ^ 10 :=
      Nat.or_lt_two_pow (userPerm perm).2 (by decide)
    have held := filled.toRemapped.safe tablesSafe (unmapped.pages within)
    refine ⟨kept.1, kept.2, .inl ⟨rfl, filled.hasSize size ordered, ?_⟩⟩
    · refine ⟨fun vpn => pte2pa (leafAt after.cell (vpn * pgSize) 2 table), ?_, ?_⟩
      · intro vpn new
        rcases filled.page vpn new with ⟨mem, free, entry, zero⟩
        have page : pte2pa (leafAt after.cell (vpn * pgSize) 2 table) = mem := by
          rw [entry, Nat.or_assoc, pte2pa_entry (aligned mem free) flags]
        beta_reduce
        rw [page]
        refine ⟨free, ?_⟩
        rw [userPageAt, entryOf_of_valid (by rw [entry]; exact hasFlag_pteV), Option.map_some, page,
          zero, entry]
      · intro vpn new other new' same
        have valid : ∀ vpn ∈ pageRange (numPages oldsz) (numPages sz - numPages oldsz),
            hasFlag (leafAt after.cell (vpn * pgSize) 2 table) pteV = true := by
          intro vpn member
          rcases filled.page vpn member with ⟨_, _, entry, _⟩
          rw [entry]
          exact hasFlag_pteV
        exact mappedPages_injective (Multiset.nodup_add.mp held.owned_nodup).2.1 new new'
          (valid vpn new) (valid other new') same
  · rcases failed with ⟨rfl, cleared⟩
    have kept := keeps after cleared.toRemapped
    refine ⟨kept.1, kept.2, .inr ⟨rfl, ?_, ?_⟩⟩
    · exact cleared.hasSize size (fun vpn member => (mem_userRange.mp member).1) fun _ _ => Iff.rfl
    · have conserved := cleared.exchange.conserved
      rw [unmapped.pages (Finset.Subset.refl _), mappedPages_unmapped cleared.unmapped, add_zero,
        add_zero] at conserved
      exact conserved

end Alloc

end Calls

section Small

attribute [local instance] Kernel.smallImage

theorem smallMemory_unmapped (va : Nat) :
    hasFlag (leafAt smallMemory.cell va 2 (physTop - 3 * pgSize)) pteV = false := by
  rw [leafAt_zero rfl]
  rfl

theorem smallMemory_hasSize : HasSize smallMemory.cell (physTop - 3 * pgSize) 0 := by
  intro vpn _
  rw [userPageAt_isSome, smallMemory_unmapped]
  exact iff_of_false Bool.false_ne_true (Nat.not_lt_zero vpn)

theorem smallMemory_safe : Safe NoPanic smallMemory
    (tables smallMemory.cell 2 (physTop - 3 * pgSize) +
      mappedPages true smallMemory.cell (physTop - 3 * pgSize) (userRange 0)) := by
  rw [mappedPages_unmapped fun vpn _ => smallMemory_unmapped (vpn * pgSize), add_zero]
  exact smallMemory_pageTable.safe

theorem uvmalloc_all_or_nothing_small :
    wp NoPanic (uvmalloc (physTop - 3 * pgSize) 0 5000 pteW) smallMemory fun sz after =>
      sz = 5000 ∧ HasSize after.cell (physTop - 3 * pgSize) 5000 ∨
        sz = 0 ∧ HasSize after.cell (physTop - 3 * pgSize) 0 := by
  apply wp_mono (uvmalloc_all_or_nothing smallMemory_safe smallMemory_pageTable.wellFormed
    smallMemory_hasSize (Nat.zero_le 5000) (by decide) (by decide))
  intro sz after result
  exact result.2.2.imp (fun grown => ⟨grown.1, grown.2.1⟩) fun failed => ⟨failed.1, failed.2.1⟩

end Small

end Xv6.Vm
