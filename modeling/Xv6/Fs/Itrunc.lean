import Xv6.Fs.Inode

/-! # What `itrunc` does

All blocks of the inode are freed. The blocks that the indirect block lists are
freed first, one by one, and only then the cells that held them go. -/

namespace Xv6.Fs

open Prog

/-- Blocks of the inode in slot `ip` have been freed. No block but those of the bitmap
has changed. -/
structure Freed (sb : Superblock) (lost : Set Nat) (ip : Nat) (state after : State) : Prop where
  same : OnlyNode ip state after
  addrs : (after.inode ip).node =
    { (state.inode ip).node with addrs := (after.inode ip).node.addrs }
  opened : Opened sb lost after ip
  blocks : ∀ b, (∀ c < sb.size, sb.bblock c ≠ b) → after.block b = state.block b

section Freeing

variable {sb : Superblock} {lost : Set Nat} {ip : Nat} {state middle after : State}

theorem Freed.refl (opened : Opened sb lost state ip) : Freed sb lost ip state state where
  same := .refl ip state
  addrs := rfl
  opened := opened
  blocks := fun _ _ => rfl

theorem Freed.trans (first : Freed sb lost ip state middle) (second : Freed sb lost ip middle after) :
    Freed sb lost ip state after where
  same := first.same.trans second.same
  addrs := by
    rw [second.addrs, first.addrs]
  opened := second.opened
  blocks := fun b noBitmap => (second.blocks b noBitmap).trans (first.blocks b noBitmap)

theorem Freed.clear (opened : Opened sb lost state ip) (same : OnlyNode ip state after)
    (addrs : (after.inode ip).node =
      { (state.inode ip).node with addrs := (after.inode ip).node.addrs })
    (fits : (after.inode ip).node.Fits) (cells : Set Nat)
    (usedEq : ∀ c < sb.size, used sb after.block c = true ↔ used sb state.block c = true ∧
      ∀ k ∈ cells, state.entry ip k ≠ 0 → state.entry ip k ≠ c)
    (blocks : ∀ b, (∀ c < sb.size, sb.bblock c ≠ b) → after.block b = state.block b)
    (here : ∀ k ∈ cells, after.entry ip k = 0)
    (elsewhere : ∀ k, k ∉ cells → after.entry ip k = state.entry ip k) :
    Freed sb lost ip state after := by
  have inum : (after.inode ip).inum = (state.inode ip).inum := same.inum
  refine ⟨same, addrs, ⟨opened.geometry, ?_, ?_, fits, ?_⟩, blocks⟩
  · rw [inum]
    exact opened.valid
  · rw [addrs]
    exact opened.live
  · apply opened.accounted.clear opened.valid opened.live_nodes cells
    · intro c small
      simp only [entry_nodes]
      exact usedEq c small
    · intro j different valid
      rw [nodes_of_ne different, nodes_of_ne (by rw [inum]; exact different), diskNode, diskNode,
        blocks _ fun c _ => (iblock_ne_bblock opened.geometry valid).symm]
    · intro j _ valid inUse some
      have entry : (state.nodes sb ip j).entry state.block ndirect =
          (state.nodes sb ip j).addr ndirect := entry_of_le (Nat.le_refl _)
      apply blocks
      intro c small
      rw [← entry] at some ⊢
      exact bblock_ne opened.geometry small (opened.accounted.taken valid inUse some).1
    · rw [← inum, nodes_self, inum, nodes_self, addrs]
    · intro k member
      rw [← inum, entry_nodes]
      exact here k member
    · intro k outside
      rw [← inum, entry_nodes, inum, entry_nodes]
      exact elsewhere k outside

theorem Freed.clearAddr (opened : Opened sb lost state ip) (direct : k < ndirect)
    (some : (state.inode ip).node.addr k ≠ 0) :
    Freed sb lost ip state ((state.unmark sb ((state.inode ip).node.addr k)).setNode ip
      ((state.inode ip).node.setAddr k 0)) := by
  have entry : state.entry ip k = (state.inode ip).node.addr k := entry_of_le (Nat.le_of_lt direct)
  have slot : ((state.unmark sb ((state.inode ip).node.addr k)).setNode ip
      ((state.inode ip).node.setAddr k 0)).inode ip =
        { state.inode ip with node := (state.inode ip).node.setAddr k 0 } := State.setInode_self ..
  rw [← entry] at some slot ⊢
  have inside := (opened.taken some).2.1
  have blocks : ∀ b, (∀ c < sb.size, sb.bblock c ≠ b) →
      unmark sb state.block (state.entry ip k) b = state.block b :=
    fun b noBitmap => unmark_of_ne (noBitmap _ inside).symm
  have cellEq : ∀ i, ((state.unmark sb (state.entry ip k)).setNode ip
      ((state.inode ip).node.setAddr k 0)).entry ip i =
        ((state.inode ip).node.setAddr k 0).entry (unmark sb state.block (state.entry ip k)) i := by
    intro i
    rw [State.entry, slot]
    rfl
  apply Freed.clear opened _ _ _ {k}
  · intro c _
    have bits : used sb (unmark sb state.block (state.entry ip k)) c =
        (!decide (c = state.entry ip k) && used sb state.block c) := used_unmark
    refine (iff_of_eq (congrArg (· = true) bits)).trans ?_
    simp only [Bool.and_eq_true, Bool.not_eq_true', decide_eq_false_iff_not,
      Set.mem_singleton_iff, forall_eq]
    constructor
    · exact fun holds => ⟨holds.2, fun _ equal => holds.1 equal.symm⟩
    · exact fun holds => ⟨fun equal => holds.2 some equal.symm, holds.1⟩
  · exact blocks
  · intro i member
    rw [Set.mem_singleton_iff] at member
    rw [cellEq, member, entry_of_le (Nat.le_of_lt direct),
      Dinode.addr_setAddr_self _ (Nat.lt_succ_of_lt direct)]
  · intro i outside
    have different : i ≠ k := outside
    rw [cellEq]
    have address : ((state.inode ip).node.setAddr k 0).addr ndirect =
        (state.inode ip).node.addr ndirect :=
      Dinode.addr_setAddr_of_ne _ (Nat.ne_of_gt direct) 0
    by_cases low : i ≤ ndirect
    · rw [entry_of_le low, Dinode.addr_setAddr_of_ne _ different, State.entry, entry_of_le low]
    · apply entry_congr_high (Nat.not_le.mp low) address
      intro present
      have owned : state.entry ip ndirect = (state.inode ip).node.addr ndirect :=
        entry_of_le (Nat.le_refl _)
      rw [← owned] at present ⊢
      exact blocks _ fun c small => opened.bblock_ne_entry small present
  · exact (OnlyNode.blocks ip state _ _).trans (.setNode ip _ _)
  · rw [slot]
    rfl
  · rw [slot]
    exact opened.fits_setAddr k (Nat.two_pow_pos 32)

end Freeing

variable {post : Unit → State → Prop}

section Direct

variable {sb : Superblock} {lost : Set Nat} {p ip : Nat} {allows : Allows State} {state : State}

theorem itruncDirect_ensures (opened : Opened sb lost state ip) (quiet : ∀ b, state.held b = none)
    (inside : 1 ≤ state.outstanding)
    (holds : ∀ after, Freed sb lost ip state after →
      (∀ k < ndirect, (after.inode ip).node.addr k = 0) → post () after) :
    ensures (answer p) allows (itruncDirect sb ip) state post := by
  -- The addresses up to `i` are zero.
  apply ensures_forEach fun i after => Freed sb lost ip state after ∧
    ∀ k < i, (after.inode ip).node.addr k = 0
  · exact ⟨.refl opened, fun k below => absurd below (Nat.not_lt_zero k)⟩
  · intro i after _ direct reached
    rw [Nat.zero_add] at direct
    rcases reached with ⟨freed, zeros⟩
    apply inode_then
    split
    · rename_i zero
      apply ensures_pure.mpr
      refine ⟨freed, fun k below => ?_⟩
      by_cases last : k = i
      · rw [last]
        exact zero
      · exact zeros k (by omega)
    · rename_i some
      have entry : after.entry ip i = (after.inode ip).node.addr i :=
        entry_of_le (Nat.le_of_lt direct)
      have taken := freed.opened.taken (entry.symm ▸ some)
      rw [entry] at taken
      refine ensures_bind.mpr (bfree_ensures ?_ ?_ taken.2.2 ?_)
      · rw [freed.same.held]
        exact quiet _
      · rw [freed.same.outstanding]
        exact inside
      · apply update_ensures
        refine ⟨freed.trans (.clearAddr freed.opened direct some), fun k below => ?_⟩
        have slot := setNode_inode (after.unmark sb ((after.inode ip).node.addr i)) ip
          ((after.inode ip).node.setAddr i 0)
        have addr : ((after.inode ip).node.setAddr i 0).addr k = 0 := by
          by_cases last : k = i
          · rw [last, Dinode.addr_setAddr_self _ (Nat.lt_succ_of_lt direct)]
          · rw [Dinode.addr_setAddr_of_ne _ last]
            exact zeros k (by omega)
        exact (congrArg (fun inode : Inode => inode.node.addr k) slot).trans addr
  · intro after reached
    exact holds after reached.1 fun k below => reached.2 k (by omega)

end Direct

/-! ## The indirect block -/

section Indirect

variable {sb : Superblock} {lost : Set Nat} {p ip : Nat} {allows : Allows State} {state : State}

/-- The blocks that `a` lists are free. -/
def Unlisted (sb : Superblock) (state : State) (a : Block) (count : Nat) (block : Nat → Block) :
    Prop :=
  (∀ b, (∀ c < sb.size, sb.bblock c ≠ b) → block b = state.block b) ∧
  ∀ c, used sb block c = true ↔ used sb state.block c = true ∧
    ∀ j < count, a.word 4 j ≠ 0 → a.word 4 j ≠ c

theorem itruncEntries_ensures {a : Block} (free : ∀ c < sb.size, state.held (sb.bblock c) = none)
    (inside : 1 ≤ state.outstanding)
    (small : ∀ j < nindirect, a.word 4 j ≠ 0 → a.word 4 j < sb.size)
    (marked : ∀ j < nindirect, a.word 4 j ≠ 0 → used sb state.block (a.word 4 j) = true)
    (distinct : ∀ i < nindirect, ∀ j < nindirect, a.word 4 i ≠ 0 → a.word 4 i = a.word 4 j → i = j)
    (holds : ∀ block logged, Unlisted sb state a nindirect block →
      post () { state with block, logged }) :
    ensures (answer p) allows (itruncEntries sb a) state post := by
  apply ensures_forEach fun j after => ∃ block logged, after = { state with block, logged } ∧
    Unlisted sb state a j block
  · refine ⟨state.block, state.logged, rfl, fun _ _ => rfl, fun c => ?_⟩
    exact ⟨fun set => ⟨set, fun j below => absurd below (Nat.not_lt_zero j)⟩, fun both => both.1⟩
  · intro j after _ below reached
    rw [Nat.zero_add] at below
    rcases reached with ⟨block, logged, rfl, kept, bits⟩
    split
    · rename_i zero
      refine ensures_ret.mpr ⟨block, logged, rfl, kept, fun c => ?_⟩
      rw [bits]
      refine and_congr_right fun _ => ⟨fun before i low some => ?_, fun all i low => all i (by omega)⟩
      by_cases last : i = j
      · rw [last] at some
        exact absurd zero some
      · exact before i (by omega) some
    · rename_i some
      have bound := small j below some
      refine bfree_ensures (free _ bound) inside ?_ ?_
      · rw [bits]
        refine ⟨marked j below some, fun i low present same => ?_⟩
        have := distinct i (by omega) j below present same
        omega
      · refine ⟨unmark sb block (a.word 4 j), _, rfl, fun b noBitmap => ?_, fun c => ?_⟩
        · rw [unmark_of_ne (noBitmap _ bound).symm]
          exact kept b noBitmap
        · rw [used_unmark, Bool.and_eq_true, Bool.not_eq_true', decide_eq_false_iff_not, bits]
          constructor
          · intro both
            refine ⟨both.2.1, fun i low present => ?_⟩
            by_cases last : i = j
            · rw [last]
              exact fun same => both.1 same.symm
            · exact both.2.2 i (by omega) present
          · intro both
            exact ⟨fun same => both.2 j (Nat.lt_succ_self j) some same.symm, both.1,
              fun i low => both.2 i (by omega)⟩
  · intro after reached
    rcases reached with ⟨block, logged, rfl, unlisted⟩
    rw [Nat.zero_add] at unlisted
    exact holds block logged unlisted

/-- The cells of the indirect block, when the blocks it lists and the block itself
are free. -/
theorem Freed.clearIndirect (opened : Opened sb lost state ip)
    (present : state.entry ip ndirect ≠ 0) {block : Nat → Block}
    (unlisted : Unlisted sb state (state.block (state.entry ip ndirect)) nindirect block) :
    Freed sb lost ip state ((({ state with block, logged } : State).unmark sb
      (state.entry ip ndirect)).setNode ip ((state.inode ip).node.setAddr ndirect 0)) := by
  rcases unlisted with ⟨kept, bits⟩
  have entry : state.entry ip ndirect = (state.inode ip).node.addr ndirect :=
    entry_of_le (Nat.le_refl _)
  have words : ∀ j, state.entry ip (ndirect + 1 + j) =
      (state.block (state.entry ip ndirect)).word 4 j := by
    intro j
    rw [entry] at present ⊢
    exact entry_indirect j present
  have slot := setNode_inode (({ state with block, logged } : State).unmark sb
    (state.entry ip ndirect)) ip ((state.inode ip).node.setAddr ndirect 0)
  have cellEq : ∀ i, ((({ state with block, logged } : State).unmark sb
      (state.entry ip ndirect)).setNode ip ((state.inode ip).node.setAddr ndirect 0)).entry ip i =
        ((state.inode ip).node.setAddr ndirect 0).entry
          (unmark sb block (state.entry ip ndirect)) i := by
    intro i
    rw [State.entry, slot]
    rfl
  have zero : ((state.inode ip).node.setAddr ndirect 0).addr ndirect = 0 :=
    Dinode.addr_setAddr_self _ (Nat.lt_succ_self _) 0
  apply Freed.clear opened _ _ _ { k | ndirect ≤ k }
  · intro c _
    have unset : used sb (unmark sb block (state.entry ip ndirect)) c =
        (!decide (c = state.entry ip ndirect) && used sb block c) := used_unmark
    refine (iff_of_eq (congrArg (· = true) unset)).trans ?_
    rw [Bool.and_eq_true, Bool.not_eq_true', decide_eq_false_iff_not, bits]
    constructor
    · intro both
      refine ⟨both.2.1, fun k (high : ndirect ≤ k) some => ?_⟩
      by_cases first : k = ndirect
      · rw [first]
        exact fun same => both.1 same.symm
      · have position : ndirect + 1 + (k - (ndirect + 1)) = k := by omega
        rw [← position, words] at some ⊢
        apply both.2.2 _ _ some
        by_contra outside
        rw [← words, position] at some
        refine some (entry_outside ?_)
        have : maxFile = ndirect + nindirect := rfl
        omega
    · intro both
      refine ⟨fun same => both.2 ndirect (Nat.le_refl _) present same.symm, both.1, ?_⟩
      intro j _ some
      rw [← words] at some ⊢
      exact both.2 _ (show ndirect ≤ ndirect + 1 + j by omega) some
  · intro b noBitmap
    refine (unmark_of_ne ?_).trans (kept b noBitmap)
    exact (noBitmap _ (opened.taken present).2.1).symm
  · intro k high
    rw [cellEq]
    by_cases first : k = ndirect
    · rw [first, entry_of_le (Nat.le_refl _), zero]
    · exact entry_eq_zero zero (Nat.lt_of_le_of_ne high (Ne.symm first))
  · intro k low
    have below : k < ndirect := Nat.not_le.mp low
    rw [cellEq, entry_of_le (Nat.le_of_lt below), Dinode.addr_setAddr_of_ne _ (Nat.ne_of_lt below),
      State.entry, entry_of_le (Nat.le_of_lt below)]
  · exact (OnlyNode.blocks ip state _ _).trans (.setNode ip _ _)
  · rw [slot]
    rfl
  · rw [slot]
    exact opened.fits_setAddr ndirect (Nat.two_pow_pos 32)

theorem itruncIndirect_ensures (opened : Opened sb lost state ip) (quiet : ∀ b, state.held b = none)
    (inside : 1 ≤ state.outstanding)
    (holds : ∀ after, Freed sb lost ip state after → (after.inode ip).node.addr ndirect = 0 →
      (∀ k, k ≠ ndirect → (after.inode ip).node.addr k = (state.inode ip).node.addr k) →
      post () after) : ensures (answer p) allows (itruncIndirect sb ip) state post := by
  have entry : state.entry ip ndirect = (state.inode ip).node.addr ndirect :=
    entry_of_le (Nat.le_refl _)
  apply inode_then
  dsimp only
  split
  · rename_i zero
    exact ensures_pure.mpr (holds state (.refl opened) zero fun _ _ => rfl)
  · rename_i present
    have words : ∀ j, (state.block (state.entry ip ndirect)).word 4 j =
        state.entry ip (ndirect + 1 + j) := by
      intro j
      rw [entry]
      exact (entry_indirect j present).symm
    rw [← entry] at present ⊢
    apply bread_then (quiet _)
    refine ensures_bind.mpr (itruncEntries_ensures ?_ inside ?_ ?_ ?_ ?_)
    · intro c small
      exact (Function.update_of_ne (opened.bblock_ne_entry small present) ..).trans (quiet _)
    · intro j _ some
      rw [words] at some ⊢
      exact (opened.taken some).2.1
    · intro j _ some
      rw [words] at some ⊢
      exact (opened.taken some).2.2
    · intro i _ j _ some same
      rw [words] at some
      rw [words, words] at same
      exact Nat.add_left_cancel (opened.entry_inj some same)
    · intro block logged unlisted
      have taken := opened.taken present
      have hold : ({ state.setHeld (state.entry ip ndirect) (some p) with block, logged } : State) =
          ({ state with block, logged } : State).setHeld (state.entry ip ndirect) (some p) := rfl
      rw [hold]
      refine brelse_then (quiet _) ?_
      refine ensures_bind.mpr (bfree_ensures (quiet _) inside ?_ ?_)
      · refine (unlisted.2 _).mpr ⟨taken.2.2, fun j _ some same => ?_⟩
        rw [words] at some same
        have := opened.entry_inj some same
        omega
      · apply update_ensures
        have slot := setNode_inode (({ state with block, logged } : State).unmark sb
          (state.entry ip ndirect)) ip ((state.inode ip).node.setAddr ndirect 0)
        apply holds _ (Freed.clearIndirect opened present unlisted)
        · refine (congrArg (fun inode : Inode => inode.node.addr ndirect) slot).trans ?_
          exact Dinode.addr_setAddr_self _ (Nat.lt_succ_self _) 0
        · intro k different
          refine (congrArg (fun inode : Inode => inode.node.addr k) slot).trans ?_
          exact Dinode.addr_setAddr_of_ne _ different 0

end Indirect

/-! ## The whole -/

/-- `itrunc` has returned: the inode has no blocks, and the size zero. -/
structure Truncated (sb : Superblock) (lost : Set Nat) (ip : Nat) (state after : State) :
    Prop where
  same : OnlyNode ip state after
  opened : Opened sb lost after ip
  node : (after.inode ip).node = { (state.inode ip).node with size := 0, addrs := fun _ => 0 }
  stored : diskNode sb after.block (state.inode ip).inum = (after.inode ip).node
  inodes : ∀ j < sb.ninodes, j ≠ (state.inode ip).inum →
    diskNode sb after.block j = diskNode sb state.block j
  blocks : ∀ b, (∀ c < sb.size, sb.bblock c ≠ b) → sb.iblock (state.inode ip).inum ≠ b →
    after.block b = state.block b

section Itrunc

variable {sb : Superblock} {lost : Set Nat} {p ip : Nat} {allows : Allows State}
  {state middle : State}

theorem Freed.finish (freed : Freed sb lost ip state middle)
    (zeros : ∀ k, (middle.inode ip).node.addr k = 0) :
    Truncated sb lost ip state
      ((middle.setNode ip { (middle.inode ip).node with size := 0 }).flush sb ip) := by
  have sized := freed.opened.setSize (Nat.two_pow_pos 32)
  have slot := setNode_inode middle ip { (middle.inode ip).node with size := 0 }
  have inum : ((middle.setNode ip { (middle.inode ip).node with size := 0 }).inode ip).inum =
      (state.inode ip).inum := by
    rw [slot]
    exact freed.same.inum
  refine
    { same := (freed.same.trans (.setNode ip middle _)).trans (.blocks ip _ _ _)
      opened := sized.flush, node := ?_, stored := ?_, inodes := ?_, blocks := ?_ }
  · refine (congrArg Inode.node slot).trans ?_
    rw [freed.addrs]
    refine Dinode.ext_addr rfl rfl rfl rfl rfl fun k => ?_
    exact (zeros k).trans (Dinode.addr_zero k).symm
  · rw [← inum]
    exact diskNode_flush sized.fits
  · intro j valid different
    refine (diskNode_putNode_of_ne (by rw [inum]; exact different)).trans ?_
    refine congrArg (Dinode.read · _) (freed.blocks _ fun c _ => ?_)
    exact (iblock_ne_bblock freed.opened.geometry valid).symm
  · intro b noBitmap noInode
    refine (putNode_block_of_ne (by rw [inum]; exact noInode.symm)).trans ?_
    exact freed.blocks b noBitmap

theorem itrunc_ensures (opened : Opened sb lost state ip) (quiet : ∀ b, state.held b = none)
    (inside : 1 ≤ state.outstanding)
    (holds : ∀ after, Truncated sb lost ip state after → post () after) :
    ensures (answer p) allows (itrunc sb ip) state post := by
  refine ensures_bind.mpr (itruncDirect_ensures opened quiet inside ?_)
  intro first freed direct
  refine ensures_bind.mpr (itruncIndirect_ensures freed.opened ?_ ?_ ?_)
  · rw [freed.same.held]
    exact quiet
  · rw [freed.same.outstanding]
    exact inside
  · intro second freed' indirect others
    have both := freed.trans freed'
    apply update_then
    refine iupdate_ensures ?_ ?_ (holds _ (both.finish fun k => ?_))
    · exact (congrFun both.same.held _).trans (quiet _)
    · exact Nat.le_trans inside (Nat.le_of_eq both.same.outstanding.symm)
    · by_cases high : ndirect + 1 ≤ k
      · exact Dinode.addr_eq_zero_of_le _ high
      · by_cases last : k = ndirect
        · rw [last]
          exact indirect
        · rw [others k last]
          exact direct k (by omega)

end Itrunc

end Xv6.Fs
