import Xv6.Vm.Duplicate

/-! # Contracts of the functions of `vm.c`

The same functions as before, seen from an address space: which pages it owns, and
which it maps. -/

namespace Xv6.Vm

open StateProg
open Prog (wp_bind wp_mono wp_pure)

/-- Mappings below the trapframe changed, with the pages they own. -/
structure SpaceChange (table : Nat) (before after : Memory) : Prop where
  exchange : Exchange before (space before.cell table) after (space after.cell table)
  wellFormed : WellFormed after.cell 2 table
  fixed : ∀ va, va = trapframeVa ∨ va = trampolineVa →
    leafAt after.cell va 2 table = leafAt before.cell va 2 table

namespace SpaceChange

variable {table va pte : Nat} {first second third : Memory}

theorem refl (wellFormed : WellFormed first.cell 2 table) : SpaceChange table first first :=
  ⟨.refl _ _, wellFormed, fun _ _ => rfl⟩

theorem trans (left : SpaceChange table first second) (right : SpaceChange table second third) :
    SpaceChange table first third :=
  ⟨left.exchange.trans right.exchange, right.wellFormed,
    fun va which => (right.fixed va which).trans (left.fixed va which)⟩

end SpaceChange

/-- A change by which no mapping appears or goes. -/
structure ContentsChange (table : Nat) (before after : Memory) : Prop
    extends SpaceChange table before after where
  maps : ∀ pages, Maps before.cell table pages → Maps after.cell table pages

variable {va : Nat}

theorem own_of_lt (aligned : va % pgSize = 0) (below : va < trapframeVa) :
    va / pgSize ∈ ownVpns := by
  rw [mem_ownVpns]
  unfold trapframeVa trampolineVa maxVa pgSize at *
  omega

theorem not_sameSlot_fixed (aligned : va % pgSize = 0) (below : va < trapframeVa)
    (which : fixed = trapframeVa ∨ fixed = trampolineVa) : ¬SameSlot 2 va fixed := by
  have page : fixed = fixed / pgSize * pgSize := by
    rcases which with rfl | rfl <;> rfl
  rw [page, sameSlot_page aligned]
  · unfold trapframeVa trampolineVa maxVa pgSize at *
    omega
  · unfold trapframeVa trampolineVa maxVa pgSize at *
    omega
  · unfold trapframeVa trampolineVa maxVa pgSize at *
    omega

variable {cell : Nat → Page} {table : Nat}

theorem mem_userPages (aligned : va % pgSize = 0) (own : va / pgSize ∈ ownVpns)
    (valid : hasFlag (leafAt cell va 2 table) pteV = true) :
    pte2pa (leafAt cell va 2 table) ∈ userPages cell table := by
  have whole : va / pgSize * pgSize = va := Nat.div_mul_cancel (Nat.dvd_of_mod_eq_zero aligned)
  rw [userPages, leafPages, Multiset.mem_sum]
  refine ⟨va / pgSize, own, ?_⟩
  rw [whole, mapped, if_pos valid]
  exact Multiset.mem_singleton_self _

theorem space_congr {after : Nat → Page}
    (same : ∀ page ∈ tables cell 2 table, after page = cell page) :
    space after table = space cell table := by
  have leaves : userPages after table = userPages cell table :=
    leafPages_congr fun _ _ => leafAt_congr same
  rw [space, space, tables_congr same, leaves]

variable {vpn : Nat}

theorem own_of_lt_div (below : vpn < trapframeVa / pgSize) : vpn ∈ ownVpns := by
  rw [mem_ownVpns]
  unfold trapframeVa trampolineVa maxVa pgSize at *
  omega

variable {after before : Memory} {vpns : Finset Nat}

theorem Remapped.spaceChange (remapped : Remapped true table vpns before after)
    (below : vpns ⊆ userRange 0) : SpaceChange table before after := by
  have own : vpns ⊆ ownVpns := by
    intro vpn member
    exact own_of_lt_div (mem_userRange.mp (below member)).2
  have all := remapped.mono own fun vpn member => (mem_ownVpns.mp member).1
  refine ⟨all.exchange, remapped.wellFormed, ?_⟩
  intro va which
  have outside : va / pgSize ∉ vpns := by
    intro member
    have inside := below member
    rw [mem_userRange] at inside
    rcases which with rfl | rfl
    · omega
    · unfold trapframeVa trampolineVa maxVa pgSize at *
      omega
  rcases which with rfl | rfl
  · exact remapped.same (trapframeVa / pgSize) (by decide) outside
  · exact remapped.same (trampolineVa / pgSize) (by decide) outside

variable {pages : Nat → Prop}

theorem Remapped.maps {pages' : Nat → Prop} (remapped : Remapped true table vpns before after)
    (maps : Maps before.cell table pages)
    (inside : ∀ vpn ∈ vpns, hasFlag (leafAt after.cell (vpn * pgSize) 2 table) pteV = true ↔
      pages' vpn) (outside : ∀ vpn ∈ ownVpns, vpn ∉ vpns → (pages vpn ↔ pages' vpn)) :
    Maps after.cell table pages' := by
  intro vpn own
  by_cases member : vpn ∈ vpns
  · exact inside vpn member
  · rw [remapped.same vpn (mem_ownVpns.mp own).1 member, maps vpn own]
    exact outside vpn own member

variable {count first : Nat}

theorem Filled.maps {flags : Nat → Nat} {contents : Nat → Page}
    (filled : Filled table first count flags contents before after)
    (maps : Maps before.cell table (· < first)) : Maps after.cell table (· < first + count) := by
  apply filled.toRemapped.maps maps
  · intro vpn member
    rcases filled.page vpn member with ⟨_, _, entry, _⟩
    rw [entry, hasFlag_pteV]
    rw [mem_pageRange] at member
    exact iff_of_true rfl member.2
  · intro vpn _ outside
    rw [mem_pageRange] at outside
    omega

theorem Cleared.maps (cleared : Cleared table vpns before after)
    (maps : Maps before.cell table pages) (inside : ∀ vpn ∈ vpns, first ≤ vpn)
    (outside : ∀ vpn ∉ vpns, pages vpn ↔ vpn < first) : Maps after.cell table (· < first) := by
  apply cleared.toRemapped.maps maps
  · intro vpn member
    rw [cleared.unmapped vpn member]
    exact iff_of_false Bool.false_ne_true (Nat.not_lt.mpr (inside vpn member))
  · exact fun vpn _ notInside => outside vpn notInside

variable {memory : Memory}

theorem Maps.above (maps : Maps memory.cell table (· < first)) : Unmapped memory table first := by
  intro vpn inside
  rw [mem_userRange] at inside
  exact Bool.eq_false_iff.mpr (mt (maps vpn (own_of_lt_div inside.2)).mp (by omega))

theorem pageRange_below (bound : (first + count) * pgSize ≤ trapframeVa) :
    pageRange first count ⊆ userRange 0 := by
  intro vpn member
  have inside := pageRange_subset_userRange bound member
  rw [mem_userRange] at inside ⊢
  exact ⟨Nat.zero_le vpn, inside.2⟩

variable [KernelImage] {allowed : String → Prop}

theorem Proper.mayPanic (proper : Proper memory owned) : Safe MayPanic memory owned :=
  ⟨proper, .inl (by decide)⟩

section Space

variable {table : Nat} {memory : Memory}

theorem Safe.range (safe : Safe allowed memory (space memory.cell table))
    (bound : (first + count) * pgSize ≤ trapframeVa) :
    Safe allowed memory (tables memory.cell 2 table +
      mappedPages true memory.cell table (pageRange first count)) := by
  have own : pageRange first count ⊆ ownVpns := by
    intro vpn member
    exact own_of_lt_div (mem_userRange.mp (pageRange_below bound member)).2
  have whole : userPages memory.cell table = mappedPages true memory.cell table ownVpns :=
    (if_pos rfl).symm
  apply safe.of_le
  rw [space, whole, mappedPages_subset own]
  exact Multiset.add_le_add_left (Multiset.le_add_right _ _)

omit [KernelImage] in
theorem Maps.valid (maps : Maps memory.cell table pages) (bound : vpn < trapframeVa / pgSize)
    (inside : pages vpn) : hasFlag (leafAt memory.cell (vpn * pgSize) 2 table) pteV = true :=
  (maps vpn (own_of_lt_div bound)).mpr inside

variable {limit : Nat}

theorem uvmunmap_free_spec (aligned : va % pgSize = 0) (bound : va + npages * pgSize ≤ trapframeVa)
    (above : limit ≤ va / pgSize) (safe : Safe allowed memory (space memory.cell table))
    (wellFormed : WellFormed memory.cell 2 table)
    (maps : Maps memory.cell table fun vpn =>
      vpn < limit ∨ va / pgSize ≤ vpn ∧ vpn < va / pgSize + npages) :
    wp allowed (uvmunmap table va npages true) memory fun _ after =>
      SpaceChange table memory after ∧ Maps after.cell table (· < limit) := by
  have whole : va / pgSize * pgSize = va := Nat.div_mul_cancel (Nat.dvd_of_mod_eq_zero aligned)
  have range : (va / pgSize + npages) * pgSize ≤ trapframeVa := by
    rw [Nat.add_mul, whole]
    exact bound
  have below := pageRange_below range
  have inRange : va + npages * pgSize ≤ maxVa := by
    unfold trapframeVa trampolineVa at bound
    omega
  have valid : ∀ vpn ∈ pageRange (va / pgSize) npages,
      hasFlag (leafAt memory.cell (vpn * pgSize) 2 table) pteV = true := by
    intro vpn member
    have user := below member
    rw [mem_userRange] at user
    rw [mem_pageRange] at member
    exact maps.valid user.2 (.inr member)
  rw [uvmunmap, if_neg (not_not.mpr aligned)]
  apply wp_mono (uvmunmapFrom_spec npages va aligned inRange (safe.range range) wellFormed valid)
  intro _ after result
  rcases result with ⟨remapped, zero⟩
  have cleared : Cleared table (pageRange (va / pgSize) npages) memory after := by
    refine ⟨remapped, fun vpn member => ?_⟩
    rw [zero vpn member]
    rfl
  refine ⟨remapped.spaceChange below, cleared.maps maps ?_ ?_⟩
  · intro vpn member
    exact above.trans (mem_pageRange.mp member).1
  · intro vpn outside
    rw [mem_pageRange] at outside
    omega

variable {newsz oldsz : Nat}

theorem uvmdealloc_spec (bound : oldsz ≤ trapframeVa)
    (safe : Safe allowed memory (space memory.cell table))
    (wellFormed : WellFormed memory.cell 2 table)
    (maps : Maps memory.cell table (· < numPages oldsz)) :
    wp allowed (uvmdealloc table oldsz newsz) memory fun sz after =>
      SpaceChange table memory after ∧ sz ≤ trapframeVa ∧
        Maps after.cell table (· < numPages sz) ∧ sz = min oldsz newsz := by
  rcases Nat.lt_or_ge newsz oldsz with smaller | enough
  · have order := numPages_mono smaller.le bound
    have range := pageRange_numPages smaller.le bound
    have below := pageRange_below range
    have valid : ∀ vpn ∈ pageRange (numPages newsz) (numPages oldsz - numPages newsz),
        hasFlag (leafAt memory.cell (vpn * pgSize) 2 table) pteV = true := by
      intro vpn member
      have user := below member
      rw [mem_userRange] at user
      rw [mem_pageRange] at member
      exact maps.valid user.2 (by omega)
    apply wp_mono (uvmdealloc_clears smaller bound (safe.range range) wellFormed valid)
    intro sz after result
    rcases result with ⟨rfl, cleared⟩
    refine ⟨cleared.toRemapped.spaceChange below, by omega, cleared.maps maps ?_ ?_, by omega⟩
    · exact fun vpn member => (mem_pageRange.mp member).1
    · intro vpn outside
      rw [mem_pageRange] at outside
      omega
  · exact uvmdealloc_same enough ⟨.refl wellFormed, bound, maps, (Nat.min_eq_left enough).symm⟩

omit [KernelImage] in
theorem Maps.free_room (maps : Maps memory.cell table (· < limit))
    (proper : Proper memory (space memory.cell table)) :
    (limit + memory.free.length) * pgSize ≤ trapframeVa := by
  have used := maps.limit_le proper
  have free : memory.free.length ≤ physTop / pgSize := by
    have upper := card_le_pages (Multiset.nodup_add.mp proper.nodup).1 fun pa member =>
      proper.good pa (Multiset.mem_add.mpr (.inl member))
    rwa [Multiset.coe_card] at upper
  unfold physTop kernBase trapframeVa trampolineVa maxVa pgSize at *
  omega

theorem uvmalloc_spec (small : xperm < 2 ^ 10) (bound : oldsz ≤ trapframeVa)
    (safe : Safe allowed memory (space memory.cell table))
    (wellFormed : WellFormed memory.cell 2 table)
    (maps : Maps memory.cell table (· < numPages oldsz)) :
    wp allowed (uvmalloc table oldsz newsz xperm) memory fun sz after =>
      SpaceChange table memory after ∧ sz ≤ trapframeVa ∧ (oldsz ≤ newsz → sz = 0 ∨ sz = newsz) ∧
        Maps after.cell table (· < numPages (if sz = 0 then oldsz else sz)) := by
  rcases Nat.lt_or_ge newsz oldsz with smaller | order
  · rw [uvmalloc, if_pos smaller]
    refine wp_pure.mpr ⟨.refl wellFormed, bound, by omega, ?_⟩
    rw [ite_self]
    exact maps
  · have tablesSafe := safe.of_le (Multiset.le_add_right _ _)
    have rest : userRange (numPages oldsz) ⊆ userRange 0 := by
      intro vpn inside
      rw [mem_userRange] at inside ⊢
      omega
    apply wp_mono (uvmalloc_fills order bound small tablesSafe wellFormed maps.above
      (.inr (maps.free_room safe.toProper)))
    intro sz after result
    rcases result with grown | failed
    · rcases grown with ⟨rfl, limit, filled⟩
      have ordered := numPages_mono order limit
      have range := pageRange_numPages order limit
      have same : numPages (if sz = 0 then oldsz else sz) = numPages sz := by
        split
        · rw [show oldsz = sz by omega]
        · rfl
      refine ⟨filled.toRemapped.spaceChange (pageRange_below range), limit, fun _ => .inr rfl, ?_⟩
      have maps' := filled.maps maps
      rw [Nat.add_sub_cancel' ordered] at maps'
      rw [same]
      exact maps'
    · rcases failed with ⟨rfl, cleared⟩
      refine ⟨cleared.toRemapped.spaceChange rest, Nat.zero_le _, fun _ => .inl rfl, ?_⟩
      rw [if_pos rfl]
      exact cleared.maps maps (fun vpn member => (mem_userRange.mp member).1) fun _ _ => Iff.rfl

omit [KernelImage] in
theorem uvmclear_changes (inRange : va < maxVa)
    (proper : Proper memory (tables memory.cell 2 table))
    (wellFormed : WellFormed memory.cell 2 table)
    (valid : hasFlag (leafAt memory.cell va 2 table) pteV = true) :
    wp allowed (uvmclear table va) memory fun _ after =>
      Changed table va (leafAt memory.cell va 2 table &&& (2 ^ 64 - 1 - pteU)) memory after := by
  rcases lowest_of_valid valid with ⟨low, found⟩
  rw [uvmclear, walk, if_neg (Nat.not_le.mpr inRange)]
  apply wp_bind.mpr
  apply walkFrom_noalloc
  simp only [found, Option.map_some, wp_bind, wp_loadPte, wp_storePte, ← leafAt_of_lowest found]
  apply Changed.store (.refl wellFormed) found proper
  · exact Nat.and_lt_two_pow _ (by decide)
  · rw [hasFlag_clearU (by decide), hasFlag_clearU (by decide)]
    exact wellFormed.leaf

omit [KernelImage] in
theorem leafAt_lt (valid : hasFlag (leafAt memory.cell va 2 table) pteV = true) :
    leafAt memory.cell va 2 table < 2 ^ 64 := by
  rcases lowest_of_valid valid with ⟨low, found⟩
  rw [leafAt_of_lowest found]
  exact Bytes.word_lt _ 8 _

omit [KernelImage] in
theorem Changed.clearU
    (changed : Changed table va (leafAt memory.cell va 2 table &&& (2 ^ 64 - 1 - pteU)) memory after)
    (aligned : va % pgSize = 0) (below : va < trapframeVa)
    (valid : hasFlag (leafAt memory.cell va 2 table) pteV = true) :
    ContentsChange table memory after := by
  have inRange : va < maxVa ∧ va < 2 ^ 39 := by
    unfold trapframeVa trampolineVa maxVa at *
    omega
  have page := pte2pa_clearU (leafAt_lt valid)
  have flag : hasFlag (leafAt memory.cell va 2 table &&& (2 ^ 64 - 1 - pteU)) pteV =
      hasFlag (leafAt memory.cell va 2 table) pteV := hasFlag_clearU (by decide)
  have pages := changed.userPages aligned inRange.2 (own_of_lt aligned below)
  rw [mapped, mapped, flag, page] at pages
  refine ⟨⟨?_, changed.wellFormed, ?_⟩, ?_⟩
  · rw [space, space, add_left_cancel pages]
    exact changed.exchange.frame _
  · intro fixed which
    exact changed.elsewhere fixed (not_sameSlot_fixed aligned below which)
  · intro pages maps
    apply (changed.maps aligned inRange.2 maps).iff
    intro vpn own
    split
    · rename_i here
      rw [flag, ← maps vpn own, here, Nat.div_mul_cancel (Nat.dvd_of_mod_eq_zero aligned)]
    · rfl

end Space

end Xv6.Vm
