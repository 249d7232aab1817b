import Xv6.Umalloc.Free

/-! # `malloc` and `free` keep the heap tiled -/

namespace Xv6.Umalloc

open Function (update update_self update_of_ne update_apply)

/-- The free list is a ring, and the free blocks and the live blocks cover what `sbrk`
has returned. -/
structure Ok (base : Nat) (heap : Heap) (blocks live : List Block) : Prop where
  ring : Ring base heap.mem blocks
  freep : heap.freep ∈ base :: addrs blocks
  liveSizes : ∀ block ∈ live, (heap.mem block.addr).size = block.units
  livePositive : ∀ block ∈ live, 0 < block.units
  liveAbove : ∀ block ∈ live, base + headerBytes ≤ block.addr
  cover : ∀ x, cover blocks x + cover live x = cover heap.regions x
  total : totalUnits blocks + totalUnits live = totalUnits heap.regions
  apart : heap.regions.Pairwise Block.Apart

variable {p prevp : Nat}

namespace Ok

variable {base : Nat} {heap : Heap} {blocks live : List Block} {block : Block}

theorem pairwise (ok : Ok base heap blocks live) : (blocks ++ live).Pairwise Block.Apart := by
  apply pairwise_apart
  · intro block member
    rcases List.mem_append.mp member with isFree | isLive
    · exact ok.ring.positive block isFree
    · exact ok.livePositive block isLive
  · intro x
    rw [cover_append, ok.cover x]
    exact cover_le_one ok.apart x

variable {other : Block}

section

variable (ok : Ok base heap blocks live)

include ok

theorem apart_free_live (isFree : other ∈ blocks) (isLive : block ∈ live) : other.Apart block :=
  (List.pairwise_append.mp ok.pairwise).2.2 other isFree block isLive

omit ok in
theorem ne_of_apart (positive : 0 < block.units) (otherPositive : 0 < other.units)
    (apart : block.Apart other) : block.addr ≠ other.addr := by
  simp only [Block.Apart, Block.stop, headerBytes] at apart
  omega

theorem live_not_node (isLive : block ∈ live) : block.addr ∉ base :: addrs blocks := by
  intro member
  rcases List.mem_cons.mp member with equal | inside
  · have above := ok.liveAbove block isLive
    rw [headerBytes] at above
    omega
  · rcases List.mem_map.mp inside with ⟨other, isFree, equal⟩
    exact ne_of_apart (ok.ring.positive other isFree) (ok.livePositive block isLive)
      (ok.apart_free_live isFree isLive) equal

theorem length_le : blocks.length ≤ totalUnits heap.regions := by
  have few := length_le_totalUnits ok.ring.positive
  have total := ok.total
  omega

omit ok in
theorem free (ok : Ok base heap blocks (block :: live))
    (small : totalUnits heap.regions < 2 ^ 32) :
    ∃ after result, Umalloc.free heap block.addr = some after ∧ Ok base after result live ∧
      after.regions = heap.regions ∧ ∃ other ∈ result, block.units ≤ other.units := by
  have isLive : block ∈ block :: live := List.mem_cons_self
  have total := ok.total
  rw [totalUnits_cons] at total
  rcases free_eq ok.ring ok.freep (ok.liveSizes block isLive) (ok.livePositive block isLive)
    (ok.liveAbove block isLive) (fun other member => ok.apart_free_live member isLive) ok.length_le
    (by omega) with ⟨mem, p, result, freed, inserted⟩
  refine ⟨_, result, freed, ⟨inserted.ring, inserted.place, ?_, ?_, ?_, ?_, ?_, ok.apart⟩, rfl,
    inserted.large⟩
  · intro other member
    have otherLive : other ∈ block :: live := List.mem_cons_of_mem _ member
    have different : other.addr ≠ block.addr := by
      have pairwise := (List.pairwise_append.mp ok.pairwise).2.1
      exact (ne_of_apart (ok.livePositive block isLive) (ok.livePositive other otherLive)
        ((List.pairwise_cons.mp pairwise).1 other member)).symm
    show (mem other.addr).size = other.units
    rw [inserted.same other.addr different (ok.live_not_node otherLive),
      ok.liveSizes other otherLive]
  · exact fun other member => ok.livePositive other (List.mem_cons_of_mem _ member)
  · exact fun other member => ok.liveAbove other (List.mem_cons_of_mem _ member)
  · intro x
    have whole := ok.cover x
    rw [cover_cons] at whole
    rw [inserted.cover x]
    show _ = Umalloc.cover heap.regions x
    omega
  · rw [inserted.total]
    show _ = totalUnits heap.regions
    omega

theorem fresh_ne (fresh : Fresh base heap.regions region) (positive : 0 < region.units)
    (member : other ∈ blocks ++ live) (otherPositive : 0 < other.units) :
    region.addr ≠ other.addr := by
  intro equal
  have inside : other.Has region.addr := by
    rw [equal]
    simp only [Block.Has, Block.stop, headerBytes]
    omega
  have covered : 0 < Umalloc.cover heap.regions region.addr := by
    rw [← ok.cover, ← cover_append, cover_pos_iff]
    exact ⟨other, member, inside⟩
  rcases cover_pos_iff.mp covered with ⟨earlier, isRegion, there⟩
  have apart := fresh.2 earlier isRegion
  simp only [Block.Has, Block.stop, headerBytes] at there apart
  omega

theorem grow (fresh : Fresh base heap.regions region) (positive : 0 < region.units) :
    Ok base { heap with
      mem := update heap.mem region.addr { heap.mem region.addr with size := region.units }
      regions := region :: heap.regions } blocks (region :: live) := by
  have notBase : base ≠ region.addr := by
    have above := fresh.1
    rw [headerBytes] at above
    omega
  have notFree : ∀ other ∈ blocks, other.addr ≠ region.addr := fun other member =>
    (ok.fresh_ne fresh positive (List.mem_append_left _ member)
      (ok.ring.positive other member)).symm
  have notLive : ∀ other ∈ live, other.addr ≠ region.addr := fun other member =>
    (ok.fresh_ne fresh positive (List.mem_append_right _ member)
      (ok.livePositive other member)).symm
  refine ⟨⟨?_, ?_, ?_, ok.ring.positive, ok.ring.apart, ok.ring.above⟩, ok.freep, ?_, ?_, ?_, ?_,
    ?_, ?_⟩
  · rw [links_update]
    apply ok.ring.walk.congr
    intro node member
    rw [update_of_ne]
    intro equal
    rcases List.mem_cons.mp member with isBase | inside
    · exact notBase (isBase.symm.trans equal)
    · rcases List.mem_map.mp inside with ⟨other, there, same⟩
      exact notFree other there (same.trans equal)
  · show (update heap.mem region.addr _ base).size = 0
    rw [update_of_ne notBase, ok.ring.baseSize]
  · intro other member
    show (update heap.mem region.addr _ other.addr).size = _
    rw [update_of_ne (notFree other member), ok.ring.sizes other member]
  · intro other member
    show (update heap.mem region.addr _ other.addr).size = _
    rcases List.mem_cons.mp member with equal | later
    · rw [equal, update_self]
    · rw [update_of_ne (notLive other later), ok.liveSizes other later]
  · intro other member
    rcases List.mem_cons.mp member with equal | later
    · rw [equal]
      exact positive
    · exact ok.livePositive other later
  · intro other member
    rcases List.mem_cons.mp member with equal | later
    · rw [equal]
      exact fresh.1
    · exact ok.liveAbove other later
  · intro x
    have whole := ok.cover x
    simp only [cover_cons]
    omega
  · have total := ok.total
    simp only [totalUnits_cons]
    omega
  · exact List.pairwise_cons.mpr ⟨fresh.2, ok.apart⟩

/-- `morecore`: the new region, or the block that it is joined to, is large enough. -/
theorem morecore (nu hp : Nat) (small : totalUnits heap.regions + coreUnits nu < 2 ^ 32) :
    Umalloc.morecore base heap nu hp = .disabled ∨
      ∃ after result, Umalloc.morecore base heap nu hp = .next after ∧ Ok base after result live ∧
        totalUnits after.regions = totalUnits heap.regions + coreUnits nu ∧
        ∃ other ∈ result, nu ≤ other.units := by
  have enough : nu ≤ coreUnits nu ∧ 0 < coreUnits nu := by
    rw [coreUnits]
    split <;> omega
  by_cases fresh : Fresh base heap.regions ⟨hp, coreUnits nu⟩
  · right
    have grown := ok.grow fresh enough.2
    have smallRegions : totalUnits (⟨hp, coreUnits nu⟩ :: heap.regions) < 2 ^ 32 := by
      rw [totalUnits_cons]
      show coreUnits nu + _ < _
      omega
    rcases grown.free smallRegions with ⟨after, result, freed, ok, regions, other, member, large⟩
    refine ⟨after, result, ?_, ok, ?_, other, member, Nat.le_trans enough.1 large⟩
    · simp only [Umalloc.morecore, if_pos fresh]
      rw [freed]
    · rw [regions, totalUnits_cons]
      exact Nat.add_comm _ _
  · left
    simp only [Umalloc.morecore, if_neg fresh]

/-! ## Taking a block -/

theorem block_of_node (member : p ∈ base :: addrs blocks) (positive : 0 < nunits)
    (large : nunits ≤ (heap.mem p).size) :
    ∃ before block after, blocks = before ++ block :: after ∧ block.addr = p ∧
      nunits ≤ block.units := by
  rcases List.mem_cons.mp member with equal | inside
  · rw [equal, ok.ring.baseSize] at large
    omega
  · rcases List.mem_map.mp inside with ⟨block, there, same⟩
    rcases List.append_of_mem there with ⟨before, after, split⟩
    refine ⟨before, block, after, split, same, ?_⟩
    rw [← same, ok.ring.sizes block there] at large
    exact large

end

variable {after before : List Block}

section

variable (ok : Ok base heap (before ++ block :: after) live)
  (member : prevp ∈ base :: addrs (before ++ block :: after))

include ok member

theorem take_whole (leads : (heap.mem prevp).ptr = block.addr) :
    Ok base (take heap block.units prevp block.addr).1 (before ++ after) (block :: live) ∧
      (take heap block.units prevp block.addr).2 = block.addr := by
  have walk : Walk (links heap.mem) base (addrs before ++ block.addr :: addrs after) base := by
    simpa using ok.ring.walk
  have nodup : (base :: (addrs before ++ block.addr :: addrs after)).Nodup := by
    simpa using ok.ring.nodup
  have memberNodes : prevp ∈ base :: (addrs before ++ block.addr :: addrs after) := by
    simpa using member
  have last := walk.eq_lastNode nodup memberNodes leads
  have isFree : block ∈ before ++ block :: after := by simp
  have sublist : (before ++ after).Sublist (before ++ block :: after) :=
    (List.sublist_cons_self block after).append_left before
  have size := ok.ring.sizes block isFree
  have sizes : ∀ q, (update heap.mem prevp
      ⟨(heap.mem block.addr).ptr, (heap.mem prevp).size⟩ q).size = (heap.mem q).size := by
    intro q
    rw [update_apply]
    split
    · rename_i equal
      rw [equal]
    · rfl
  simp only [take, if_pos size, and_true]
  refine ⟨⟨?_, ?_, ?_, ?_, ok.ring.apart.sublist sublist, ?_⟩, ?_, ?_, ?_, ?_, ?_, ?_, ok.apart⟩
  · rw [links_update, last]
    have skipped := walk.skip nodup
    show Walk _ base ((before ++ after).map Block.addr) base
    rw [List.map_append]
    exact skipped
  · exact (sizes base).trans ok.ring.baseSize
  · intro other there
    exact (sizes other.addr).trans (ok.ring.sizes other (sublist.subset there))
  · exact fun other there => ok.ring.positive other (sublist.subset there)
  · exact fun other there => ok.ring.above other (sublist.subset there)
  · show prevp ∈ _
    rw [last]
    have inFront := Walk.lastNode_mem base (addrs before)
    rw [addrs, List.map_append]
    exact List.mem_append_left (addrs after) inFront
  · intro other there
    apply (sizes other.addr).trans
    rcases List.mem_cons.mp there with equal | later
    · rw [equal, size]
    · exact ok.liveSizes other later
  · intro other there
    rcases List.mem_cons.mp there with equal | later
    · rw [equal]
      exact ok.ring.positive block isFree
    · exact ok.livePositive other later
  · intro other there
    rcases List.mem_cons.mp there with equal | later
    · rw [equal]
      exact ok.ring.above block isFree
    · exact ok.liveAbove other later
  · intro x
    have whole := ok.cover x
    simp only [cover_append, cover_cons] at whole ⊢
    omega
  · have total := ok.total
    simp only [totalUnits_append, totalUnits_cons] at total ⊢
    omega

/-- A block of which the tail is made a block of its own: the links stay as they are. -/
theorem split_block (positive : 0 < nunits) (less : nunits < block.units)
    (tailEq : block.addr + headerBytes * (block.units - nunits) = tail)
    (sameLinks : links mem = links heap.mem) (tailSize : (mem tail).size = nunits)
    (headSize : (mem block.addr).size = block.units - nunits)
    (baseSize : base ≠ tail → base ≠ block.addr → (mem base).size = (heap.mem base).size)
    (away : ∀ other : Block, 0 < other.units → other.Apart block →
      (mem other.addr).size = (heap.mem other.addr).size) :
    Ok base { heap with mem, freep := prevp }
      (before ++ ⟨block.addr, block.units - nunits⟩ :: after) (⟨tail, nunits⟩ :: live) := by
  have isFree : block ∈ before ++ block :: after := by simp
  have above := ok.ring.above block isFree
  have pairwise := List.pairwise_append.mp ok.ring.apart
  have pairwiseAfter := List.pairwise_cons.mp pairwise.2.1
  have sameAddrs : addrs (before ++ ⟨block.addr, block.units - nunits⟩ :: after) =
      addrs (before ++ block :: after) := by simp
  have head : ∀ other ∈ before ++ (⟨block.addr, block.units - nunits⟩ : Block) :: after,
      other = ⟨block.addr, block.units - nunits⟩ ∨
        (other ∈ before ++ block :: after ∧ other.Apart block) := by
    intro other there
    rcases List.mem_append.mp there with early | late
    · have apart := pairwise.2.2 other early block List.mem_cons_self
      exact .inr ⟨List.mem_append_left _ early, .inl (Nat.le_of_lt apart)⟩
    · rcases List.mem_cons.mp late with equal | later
      · exact .inl equal
      · have apart := pairwiseAfter.1 other later
        exact .inr ⟨by simp [later], .inr (Nat.le_of_lt apart)⟩
  refine ⟨⟨?_, ?_, ?_, ?_, ?_, ?_⟩, ?_, ?_, ?_, ?_, ?_, ?_, ok.apart⟩
  · rw [sameAddrs]
    show Walk (links mem) base _ base
    rw [sameLinks]
    exact ok.ring.walk
  · rw [headerBytes] at above tailEq
    exact (baseSize (by omega) (by omega)).trans ok.ring.baseSize
  · intro other there
    rcases head other there with equal | ⟨old, apart⟩
    · rw [equal]
      exact headSize
    · exact (away other (ok.ring.positive other old) apart).trans (ok.ring.sizes other old)
  · intro other there
    rcases head other there with equal | ⟨old, _⟩
    · rw [equal]
      exact Nat.sub_pos_of_lt less
    · exact ok.ring.positive other old
  · rw [List.pairwise_append, List.pairwise_cons]
    refine ⟨pairwise.1, ⟨?_, pairwiseAfter.2⟩, ?_⟩
    · intro other later
      have apart := pairwiseAfter.1 other later
      simp only [Block.stop, headerBytes] at apart ⊢
      omega
    · intro other early later there
      rcases List.mem_cons.mp there with equal | inAfter
      · rw [equal]
        exact pairwise.2.2 other early block List.mem_cons_self
      · exact pairwise.2.2 other early later (List.mem_cons_of_mem _ inAfter)
  · intro other there
    rcases head other there with equal | ⟨old, _⟩
    · rw [equal]
      exact above
    · exact ok.ring.above other old
  · rw [sameAddrs]
    exact member
  · intro other there
    rcases List.mem_cons.mp there with equal | later
    · rw [equal]
      exact tailSize
    · exact (away other (ok.livePositive other later) (ok.apart_free_live isFree later).symm).trans
        (ok.liveSizes other later)
  · intro other there
    rcases List.mem_cons.mp there with equal | later
    · rw [equal]
      exact positive
    · exact ok.livePositive other later
  · intro other there
    rcases List.mem_cons.mp there with equal | later
    · rw [equal]
      show _ ≤ tail
      omega
    · exact ok.liveAbove other later
  · intro x
    have whole := ok.cover x
    have parts := @covers_split x block.addr (block.units - nunits) nunits
    rw [Nat.sub_add_cancel (Nat.le_of_lt less), tailEq] at parts
    simp only [cover_append, cover_cons] at whole ⊢
    show _ = Umalloc.cover heap.regions x
    have same : (Block.mk block.addr block.units).covers x = block.covers x := rfl
    omega
  · have total := ok.total
    simp only [totalUnits_append, totalUnits_cons] at total ⊢
    omega

omit ok member in
theorem take_tail_mem (different : (heap.mem p).size ≠ nunits)
    (rest : uint ((heap.mem p).size - nunits) = left) :
    take heap nunits prevp p = ({ heap with
      mem := update (update heap.mem p ⟨(heap.mem p).ptr, left⟩) (p + headerBytes * left)
        ⟨(update heap.mem p ⟨(heap.mem p).ptr, left⟩ (p + headerBytes * left)).ptr, nunits⟩
      freep := prevp }, p + headerBytes * left) := by
  simp only [take, if_neg different, rest]

theorem take_tail (positive : 0 < nunits) (less : nunits < block.units)
    (small : block.units < 2 ^ 32) :
    Ok base (take heap nunits prevp block.addr).1
      (before ++ ⟨block.addr, block.units - nunits⟩ :: after)
      (⟨(take heap nunits prevp block.addr).2, nunits⟩ :: live) := by
  have isFree : block ∈ before ++ block :: after := by simp
  have size := ok.ring.sizes block isFree
  have left : uint ((heap.mem block.addr).size - nunits) = block.units - nunits := by
    rw [size, uint_eq (by omega)]
  rw [take_tail_mem (by omega) left]
  generalize memEq : update (update heap.mem block.addr
    ⟨(heap.mem block.addr).ptr, block.units - nunits⟩) _ _ = mem
  generalize tailEq : block.addr + headerBytes * (block.units - nunits) = tail at memEq
  have tailInside : block.addr < tail ∧ tail < block.stop := by
    simp only [Block.stop, headerBytes] at tailEq ⊢
    omega
  have sameLinks : links mem = links heap.mem := by
    rw [← memEq, links_update, links_update]
    funext q
    simp only [links, update_apply]
    split
    · rename_i equal
      rw [equal]
      split <;> simp_all
    · split
      · rename_i equal
        rw [equal]
      · rfl
  have tailSize : (mem tail).size = nunits := by rw [← memEq, update_self]
  have headSize : (mem block.addr).size = block.units - nunits := by
    rw [← memEq, update_of_ne (by omega), update_self]
  have otherSize : ∀ q, q ≠ tail → q ≠ block.addr → (mem q).size = (heap.mem q).size := by
    intro q notTail notHead
    rw [← memEq, update_of_ne notTail, update_of_ne notHead]
  -- No other block starts at the tail or at the block.
  have away : ∀ other : Block, 0 < other.units → other.Apart block →
      (mem other.addr).size = (heap.mem other.addr).size := by
    intro other someUnits apart
    simp only [Block.Apart, Block.stop, headerBytes] at apart tailInside
    exact otherSize _ (by omega) (by omega)
  exact ok.split_block member positive less tailEq sameLinks tailSize headSize
    (otherSize base · ·) away

end

theorem take (ok : Ok base heap blocks live) (small : totalUnits heap.regions < 2 ^ 32)
    {prevp nunits : Nat} (member : prevp ∈ base :: addrs blocks) (positive : 0 < nunits)
    (large : nunits ≤ (heap.mem (heap.mem prevp).ptr).size) :
    ∃ result, Ok base (Umalloc.take heap nunits prevp (heap.mem prevp).ptr).1 result
      (⟨(Umalloc.take heap nunits prevp (heap.mem prevp).ptr).2, nunits⟩ :: live) := by
  rcases ok.block_of_node (ok.ring.walk.next_mem member) positive large with
    ⟨before, block, after, split, addr, enough⟩
  rw [split] at ok member
  have leads : (heap.mem prevp).ptr = block.addr := addr.symm
  rw [leads]
  have isFree : block ∈ before ++ block :: after := by simp
  have some := units_le_totalUnits isFree
  have total := ok.total
  by_cases whole : block.units = nunits
  · rcases ok.take_whole member leads with ⟨taken, result⟩
    rw [← whole, result]
    exact ⟨before ++ after, taken⟩
  · exact ⟨_, ok.take_tail member positive (by omega) (by omega)⟩

end Ok

/-! ## The loop of `malloc` -/

/-- What `malloc` returns: the heap, and the header of the new block if there is one. -/
inductive Returned (base nunits : Nat) (live : List Block) : Outcome (Heap × Option Nat) → Prop
  | block {heap blocks addr} : Ok base heap blocks (⟨addr, nunits⟩ :: live) →
      Returned base nunits live (.next (heap, some addr))
  | null {heap blocks} : Ok base heap blocks live → Returned base nunits live (.next (heap, none))
  /-- `sbrk` has returned a region that is not fresh. -/
  | outside : Returned base nunits live .disabled

section Loop

variable {base nunits : Nat} {heap : Heap} {blocks live : List Block}

variable {fuel : Nat} {grants : List (Option Nat)}

section

variable (ok : Ok base heap blocks live) (small : totalUnits heap.regions < 2 ^ 32)
  (positive : 0 < nunits)

include ok small positive

theorem mallocLoop_take (inside : prevp ∈ base :: addrs blocks)
    (large : nunits ≤ (heap.mem (heap.mem prevp).ptr).size) :
    Returned base nunits live
      (mallocLoop base nunits (fuel + 1) heap grants prevp (heap.mem prevp).ptr) := by
  rcases ok.take small inside positive large with ⟨result, taken⟩
  rw [mallocLoop, if_pos large]
  exact .block taken

/-- A pass around the list finds a block, or ends at `freep` with all blocks too small. -/
theorem mallocLoop_pass (walk : Walk (links heap.mem) prevp left heap.freep)
    (inside : ∀ node ∈ prevp :: left, node ∈ base :: addrs blocks)
    (notFreep : ∀ node ∈ left, node ≠ heap.freep)
    (passed : ∀ node ∈ others, (heap.mem node).size < nunits) (fuel : Nat)
    (grants : List (Option Nat)) :
    Returned base nunits live (mallocLoop base nunits (fuel + left.length + 1) heap grants prevp
      (heap.mem prevp).ptr) ∨
    (∀ node ∈ others ++ left ++ [heap.freep], (heap.mem node).size < nunits) ∧
      ∃ last, mallocLoop base nunits (fuel + left.length + 1) heap grants prevp
        (heap.mem prevp).ptr = mallocLoop base nunits (fuel + 1) heap grants last heap.freep := by
  induction left generalizing prevp others with
  | nil =>
    have toFreep : (heap.mem prevp).ptr = heap.freep := walk
    by_cases large : nunits ≤ (heap.mem (heap.mem prevp).ptr).size
    · exact .inl (mallocLoop_take ok small positive (inside prevp List.mem_cons_self) large)
    · right
      refine ⟨?_, prevp, by rw [toFreep]; rfl⟩
      intro node member
      simp only [List.append_nil, List.mem_append, List.mem_singleton] at member
      rcases member with early | equal
      · exact passed node early
      · rw [equal, ← toFreep]
        omega
  | cons first left induction =>
    have toFirst : (heap.mem prevp).ptr = first := walk.1
    by_cases large : nunits ≤ (heap.mem (heap.mem prevp).ptr).size
    · exact .inl (mallocLoop_take ok small positive (inside prevp List.mem_cons_self) large)
    · rw [toFirst] at large ⊢
      have step : mallocLoop base nunits (fuel + (first :: left).length + 1) heap grants prevp
          first = mallocLoop base nunits (fuel + left.length + 1) heap grants first
            (heap.mem first).ptr := by
        rw [List.length_cons, ← Nat.add_assoc, mallocLoop, if_neg large,
          if_neg (notFreep first List.mem_cons_self)]
      rw [step]
      have passedFirst : ∀ node ∈ others ++ [first], (heap.mem node).size < nunits := by
        intro node member
        rcases List.mem_append.mp member with early | equal
        · exact passed node early
        · rw [List.mem_singleton.mp equal]
          omega
      rcases induction walk.2 (fun node member => inside node (List.mem_cons_of_mem _ member))
        (fun node member => notFreep node (List.mem_cons_of_mem _ member)) passedFirst with
        returned | ⟨all, ends⟩
      · exact .inl returned
      · refine .inr ⟨?_, ends⟩
        simpa using all

theorem mallocLoop_around (enough : blocks.length + 1 ≤ fuel) (grants : List (Option Nat)) :
    Returned base nunits live (mallocLoop base nunits fuel heap grants heap.freep
      (heap.mem heap.freep).ptr) ∨
    (∀ block ∈ blocks, block.units < nunits) ∧
      ∃ last, mallocLoop base nunits fuel heap grants heap.freep (heap.mem heap.freep).ptr =
        mallocLoop base nunits (fuel - blocks.length) heap grants last heap.freep ∧
        (heap.mem heap.freep).size < nunits := by
  rcases ok.ring.walk.exists_rotate ok.freep with ⟨others, walk, perm⟩
  have nodup : (heap.freep :: others).Nodup := perm.nodup_iff.mpr ok.ring.nodup
  have length : others.length = blocks.length := by
    have same := perm.length_eq
    simpa using same
  have notFreep : ∀ node ∈ others, node ≠ heap.freep := by
    intro node member equal
    exact (List.nodup_cons.mp nodup).1 (equal ▸ member)
  obtain ⟨rest, equal⟩ : ∃ rest, fuel = rest + others.length + 1 :=
    ⟨fuel - others.length - 1, by omega⟩
  have none : ∀ node ∈ ([] : List Nat), (heap.mem node).size < nunits := by simp
  rw [equal]
  rcases mallocLoop_pass ok small positive walk (fun node member => perm.mem_iff.mp member)
    notFreep none rest grants with returned | ⟨all, last, ends⟩
  · exact .inl returned
  · right
    refine ⟨?_, last, ?_, all heap.freep (by simp)⟩
    · intro block member
      rw [← ok.ring.sizes block member]
      have node : block.addr ∈ heap.freep :: others :=
        perm.mem_iff.mpr (List.mem_cons_of_mem _ (List.mem_map_of_mem member))
      apply all
      rcases List.mem_cons.mp node with isFreep | inside
      · simp [isFreep]
      · simp [inside]
    · rw [ends]
      congr 1
      omega

end

theorem free_regions {after : Heap} (freed : free heap bp = some after) :
    after.regions = heap.regions := by
  rw [free] at freed
  rcases Option.bind_eq_some_iff.mp freed with ⟨p, _, equal⟩
  cases equal
  rfl

theorem morecore_regions {after : Heap} (next : morecore base heap nu hp = .next after) :
    after.regions = ⟨hp, coreUnits nu⟩ :: heap.regions := by
  simp only [morecore] at next
  split at next
  · split at next
    · rename_i freed
      cases next
      exact free_regions freed
    · cases next
  · cases next

/-- The regions that `malloc` adds are those that `sbrk` has granted. -/
theorem mallocLoop_regions (next : mallocLoop base nunits fuel heap grants prevp p = .next result) :
    ∃ new, result.1.regions = new ++ heap.regions ∧
      ∀ region ∈ new, ∃ hp, some hp ∈ grants ∧ region = ⟨hp, coreUnits nunits⟩ := by
  have same : ∃ new, heap.regions = new ++ heap.regions ∧
      ∀ region ∈ new, ∃ hp, some hp ∈ grants ∧ region = ⟨hp, coreUnits nunits⟩ :=
    ⟨[], rfl, fun _ member => by cases member⟩
  induction fuel generalizing heap grants prevp p with
  | zero => cases next
  | succ fuel induction =>
    rw [mallocLoop] at next
    split at next
    · cases next
      simp only [take]
      split <;> exact same
    · split at next
      · split at next
        · cases next
          exact same
        · rename_i hp granted
          have first : some hp ∈ grants := by
            cases grants <;> simp_all
          split at next
          · rename_i grown
            rcases induction next ⟨[], rfl, fun _ member => by cases member⟩ with
              ⟨new, regions, from_⟩
            refine ⟨new ++ [⟨hp, coreUnits nunits⟩], ?_, ?_⟩
            · rw [regions, morecore_regions grown, List.append_assoc]
              rfl
            · intro region member
              rcases List.mem_append.mp member with later | now
              · rcases from_ region later with ⟨other, there, equal⟩
                exact ⟨other, List.mem_of_mem_tail there, equal⟩
              · exact ⟨hp, first, List.mem_singleton.mp now⟩
          · cases next
          · cases next
      · exact induction next same

theorem mallocLoop_returned (ok : Ok base heap blocks live) (positive : 0 < nunits)
    (small : totalUnits heap.regions < 2 ^ 32)
    (enough : 2 * (totalUnits heap.regions + coreUnits nunits) + 8 ≤ fuel)
    (grants : List (Option Nat))
    (room : totalUnits heap.regions + coreUnits nunits < 2 ^ 32 ∨
      ∃ result, mallocLoop base nunits fuel heap grants heap.freep (heap.mem heap.freep).ptr =
        .next result ∧ totalUnits result.1.regions < 2 ^ 32) :
    Returned base nunits live (mallocLoop base nunits fuel heap grants heap.freep
      (heap.mem heap.freep).ptr) := by
  have few := ok.length_le
  rcases mallocLoop_around ok small positive (show _ ≤ fuel by omega) grants with
    returned | ⟨_, last, ends, tooSmall⟩
  · exact returned
  · rw [ends] at room ⊢
    obtain ⟨rest, equal⟩ : ∃ rest, fuel - blocks.length = rest + 1 :=
      ⟨fuel - blocks.length - 1, by omega⟩
    rw [equal, mallocLoop, if_neg (by omega), if_pos rfl] at room ⊢
    cases granted : grants.head?.join with
    | none => exact .null ok
    | some hp =>
      rw [granted] at room
      dsimp only at room ⊢
      -- A region that leaves no room is not in a heap of fewer than 2^32 units.
      have roomNow : totalUnits heap.regions + coreUnits nunits < 2 ^ 32 := by
        rcases room with now | ⟨result, next, fits⟩
        · exact now
        · split at next
          · rename_i grown
            rcases mallocLoop_regions next with ⟨new, regions, _⟩
            rw [regions, totalUnits_append, morecore_regions grown, totalUnits_cons] at fits
            dsimp only at fits
            omega
          · cases next
          · cases next
      rcases ok.morecore nunits hp roomNow with
        outside | ⟨grown, result, next, okGrown, total, other, member, large⟩
      · rw [outside]
        exact .outside
      · rw [next]
        have few := okGrown.length_le
        rcases mallocLoop_around okGrown (by omega) positive (show _ ≤ rest by omega)
          grants.tail with returned | ⟨allSmall, _⟩
        · exact returned
        · have contradiction := allSmall other member
          omega

end Loop

end Xv6.Umalloc
