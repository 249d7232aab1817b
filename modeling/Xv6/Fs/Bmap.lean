import Xv6.Fs.Blocks
import Xv6.Fs.Content

/-! # What `bmap` does

A process works on the inode in slot `ip` of the table: that inode is what the
table says, and the others are what the disk says. `bmap` may add blocks to it that
were free, filled with zeros, and changes nothing else of the file. -/

namespace Xv6.Fs

open Prog

/-- The inode with number `inum` on disk. -/
def diskNode (sb : Superblock) (block : Nat → Block) (inum : Nat) : Dinode :=
  Dinode.read (block (sb.iblock inum)) (inum % ipb)

namespace State

/-- The inodes, while a process works on the one in slot `ip`. -/
def nodes (sb : Superblock) (state : State) (ip : Nat) : Nat → Dinode :=
  Function.update (diskNode sb state.block) (state.inode ip).inum (state.inode ip).node

/-- Cell `k` of the inode in slot `ip`. -/
def entry (state : State) (ip k : Nat) : Nat := (state.inode ip).node.entry state.block k

end State

/-- The slot `ip` holds an inode that is in use, and the bitmap is right. -/
structure Opened (sb : Superblock) (lost : Set Nat) (state : State) (ip : Nat) : Prop where
  geometry : sb.Ok
  valid : (state.inode ip).inum < sb.ninodes
  live : (state.inode ip).node.type ≠ 0
  fits : (state.inode ip).node.Fits
  accounted : Accounted sb lost state.block (state.nodes sb ip)

/-- The inode in slot `ip` has block `b`. -/
def Owns (state : State) (ip b : Nat) : Prop := b ≠ 0 ∧ ∃ k, state.entry ip k = b

/-- Nothing has changed but blocks, the log, and the inode in slot `ip`. -/
structure OnlyNode (ip : Nat) (state after : State) : Prop where
  held : after.held = state.held
  committed : after.committed = state.committed
  outstanding : after.outstanding = state.outstanding
  itableLock : after.itableLock = state.itableLock
  slot : after.inode ip = { state.inode ip with node := (after.inode ip).node }
  slots : ∀ other, other ≠ ip → after.inode other = state.inode other

/-- The inode in slot `ip` may have got more blocks, and the blocks it has may have
changed. -/
structure Extends (sb : Superblock) (lost : Set Nat) (ip : Nat) (state after : State) :
    Prop where
  same : OnlyNode ip state after
  addrs : (after.inode ip).node =
    { (state.inode ip).node with addrs := (after.inode ip).node.addrs }
  opened : Opened sb lost after ip
  kept : ∀ k, state.entry ip k ≠ 0 → after.entry ip k = state.entry ip k
  inodes : ∀ inum < sb.ninodes, after.block (sb.iblock inum) = state.block (sb.iblock inum)
  others : ∀ b, (∀ c < sb.size, sb.bblock c ≠ b) → ¬ Owns after ip b → after.block b = state.block b

/-- The blocks that the inode in slot `ip` has got are filled with zeros, and the
others hold the same bytes. -/
structure Grows (sb : Superblock) (lost : Set Nat) (ip : Nat) (state after : State) : Prop
    extends Extends sb lost ip state after where
  data : ∀ k, k ≠ ndirect → state.entry ip k ≠ 0 →
    after.block (state.entry ip k) = state.block (state.entry ip k)
  fresh : ∀ k, k ≠ ndirect → state.entry ip k = 0 → after.entry ip k ≠ 0 →
    after.block (after.entry ip k) = fun _ => 0

variable {j : Nat}

section Lemmas

variable {sb : Superblock} {lost : Set Nat} {ip : Nat} {state middle after : State}

theorem nodes_self : state.nodes sb ip (state.inode ip).inum = (state.inode ip).node :=
  Function.update_self ..

theorem nodes_of_ne (different : inum ≠ (state.inode ip).inum) :
    state.nodes sb ip inum = diskNode sb state.block inum :=
  Function.update_of_ne different ..

theorem entry_nodes (sb : Superblock) (state : State) (ip k : Nat) :
    (state.nodes sb ip (state.inode ip).inum).entry state.block k = state.entry ip k := by
  rw [nodes_self, State.entry]

namespace Opened

variable (opened : Opened sb lost state ip)

include opened

theorem live_nodes : (state.nodes sb ip (state.inode ip).inum).type ≠ 0 := by
  rw [nodes_self]
  exact opened.live

variable {k : Nat}

theorem taken (nonzero : state.entry ip k ≠ 0) : Taken sb state.block (state.entry ip k) := by
  rw [← entry_nodes sb] at nonzero ⊢
  exact opened.accounted.taken opened.valid opened.live_nodes nonzero

theorem entry_inj (nonzero : state.entry ip k ≠ 0) (same : state.entry ip k = state.entry ip k') :
    k = k' := by
  rw [← entry_nodes sb] at nonzero
  rw [← entry_nodes sb, ← entry_nodes sb state ip k'] at same
  exact (opened.accounted.entry_inj opened.valid opened.live_nodes opened.valid
    opened.live_nodes nonzero same).2

variable {b : Nat}

theorem free_ne_entry (free : used sb state.block b = false) (nonzero : state.entry ip k ≠ 0) :
    state.entry ip k ≠ b := by
  intro same
  have taken := (opened.taken nonzero).2.2
  rw [same, free] at taken
  cases taken

theorem bblock_ne_entry (inside : c < sb.size) (nonzero : state.entry ip k ≠ 0) :
    sb.bblock c ≠ state.entry ip k :=
  bblock_ne opened.geometry inside (opened.taken nonzero).1

theorem iblock_ne_entry (valid : inum < sb.ninodes) (nonzero : state.entry ip k ≠ 0) :
    sb.iblock inum ≠ state.entry ip k :=
  iblock_ne opened.geometry valid (opened.taken nonzero).2.1 (opened.taken nonzero).1

theorem fits_setAddr (k : Nat) (bound : b < 2 ^ 32) : ((state.inode ip).node.setAddr k b).Fits := by
  refine { opened.fits with addr := ?_ }
  intro i
  by_cases same : i = k
  · subst same
    by_cases low : i < ndirect + 1
    · rw [Dinode.addr_setAddr_self _ low]
      exact bound
    · rw [Dinode.addr_eq_zero_of_le _ (Nat.not_lt.mp low)]
      exact Nat.two_pow_pos 32
  · rw [Dinode.addr_setAddr_of_ne _ same]
    exact opened.fits.addr i

theorem indirect_ne (different : j ≠ (state.inode ip).inum) (valid : j < sb.ninodes)
    (inUse : (state.nodes sb ip j).type ≠ 0) (some : (state.nodes sb ip j).addr ndirect ≠ 0) :
    (state.nodes sb ip j).addr ndirect ≠ state.entry ip k := by
  intro same
  have entry : (state.nodes sb ip j).entry state.block ndirect =
      (state.nodes sb ip j).addr ndirect := entry_of_le (Nat.le_refl _)
  rw [← entry] at some same
  rw [← entry_nodes sb] at same
  exact different (opened.accounted.entry_inj valid inUse opened.valid opened.live_nodes some
    same).1

end Opened

namespace OnlyNode

theorem refl (ip : Nat) (state : State) : OnlyNode ip state state where
  held := rfl
  committed := rfl
  outstanding := rfl
  itableLock := rfl
  slot := rfl
  slots := fun _ _ => rfl

theorem trans (first : OnlyNode ip state middle) (second : OnlyNode ip middle after) :
    OnlyNode ip state after where
  held := second.held.trans first.held
  committed := second.committed.trans first.committed
  outstanding := second.outstanding.trans first.outstanding
  itableLock := second.itableLock.trans first.itableLock
  slot := by
    rw [second.slot, first.slot]
  slots := fun other different => (second.slots other different).trans (first.slots other different)

theorem blocks (ip : Nat) (state : State) (block : Nat → Block) (logged : List Nat) :
    OnlyNode ip state { state with block, logged } where
  held := rfl
  committed := rfl
  outstanding := rfl
  itableLock := rfl
  slot := rfl
  slots := fun _ _ => rfl

theorem setNode (ip : Nat) (state : State) (node : Dinode) :
    OnlyNode ip state (state.setNode ip node) where
  held := rfl
  committed := rfl
  outstanding := rfl
  itableLock := rfl
  slot := by
    rw [State.setNode, State.setInode_self]
  slots := fun _ different => Function.update_of_ne different ..

theorem inum (same : OnlyNode ip state after) : (after.inode ip).inum = (state.inode ip).inum := by
  rw [same.slot]

end OnlyNode

namespace Extends

theorem refl (opened : Opened sb lost state ip) : Extends sb lost ip state state where
  same := .refl ip state
  addrs := rfl
  opened := opened
  kept := fun _ _ => rfl
  inodes := fun _ _ => rfl
  others := fun _ _ _ => rfl

theorem size (extended : Extends sb lost ip state after) :
    (after.inode ip).node.size = (state.inode ip).node.size := by
  rw [extended.addrs]

theorem trans (first : Extends sb lost ip state middle)
    (second : Extends sb lost ip middle after) : Extends sb lost ip state after where
  same := first.same.trans second.same
  addrs := by
    rw [second.addrs, first.addrs]
  opened := second.opened
  kept := by
    intro k nonzero
    have kept := first.kept k nonzero
    rw [second.kept k (by rw [kept]; exact nonzero), kept]
  inodes := fun inum valid => (second.inodes inum valid).trans (first.inodes inum valid)
  others := by
    intro b noBitmap notOwned
    rw [second.others b noBitmap notOwned]
    apply first.others b noBitmap
    intro owns
    rcases owns with ⟨nonzero, k, same⟩
    refine notOwned ⟨nonzero, k, (second.kept k ?_).trans same⟩
    rw [same]
    exact nonzero

end Extends

namespace Grows

theorem refl (opened : Opened sb lost state ip) : Grows sb lost ip state state where
  toExtends := .refl opened
  data := fun _ _ _ => rfl
  fresh := fun _ _ none some => absurd none some

theorem trans (first : Grows sb lost ip state middle) (second : Grows sb lost ip middle after) :
    Grows sb lost ip state after where
  toExtends := first.toExtends.trans second.toExtends
  data := by
    intro k notIndirect nonzero
    have kept := first.kept k nonzero
    rw [← kept, second.data k notIndirect (by rw [kept]; exact nonzero), kept]
    exact first.data k notIndirect nonzero
  fresh := by
    intro k notIndirect empty found
    by_cases now : middle.entry ip k = 0
    · exact second.fresh k notIndirect now found
    · rw [second.kept k now, second.data k notIndirect now]
      exact first.fresh k notIndirect empty now

end Grows

/-! ## A new block in a cell -/

section Assign

variable {b k : Nat} (opened : Opened sb lost state ip) (free : used sb state.block b = false)
  (inside : b < sb.size)

include opened free inside

theorem Opened.free_ne_zero : b ≠ 0 := by
  intro zero
  have low := opened.accounted.free_data free
  have := opened.geometry.bitmap b inside
  omega

theorem Grows.assign (same : OnlyNode ip state after)
    (addrs : (after.inode ip).node =
      { (state.inode ip).node with addrs := (after.inode ip).node.addrs })
    (fits : (after.inode ip).node.Fits) (empty : state.entry ip k = 0)
    (indirect : k ≤ ndirect ∨ state.entry ip ndirect ≠ 0) (here : after.entry ip k = b)
    (elsewhere : ∀ i, i ≠ k → after.entry ip i = state.entry ip i)
    (usedEq : ∀ c < sb.size, used sb after.block c = used sb (allocate sb state.block b) c)
    (zeros : k ≠ ndirect → after.block b = fun _ => 0)
    (blocks : ∀ c, c ≠ b → (∀ x < sb.size, sb.bblock x ≠ c) →
      k ≤ ndirect ∨ c ≠ state.entry ip ndirect → after.block c = state.block c) :
    Grows sb lost ip state after := by
  have inum : (after.inode ip).inum = (state.inode ip).inum := same.inum
  have nonzero := opened.free_ne_zero free inside
  have inodes : ∀ inum < sb.ninodes,
      after.block (sb.iblock inum) = state.block (sb.iblock inum) := by
    intro inum valid
    apply blocks
    · exact iblock_ne opened.geometry valid inside (opened.accounted.free_data free)
    · exact fun x _ => (iblock_ne_bblock opened.geometry valid).symm
    · exact indirect.imp id fun some => opened.iblock_ne_entry valid some
  have otherNodes : ∀ j, j ≠ (state.inode ip).inum → j < sb.ninodes →
      after.nodes sb ip j = state.nodes sb ip j := by
    intro j different valid
    rw [nodes_of_ne different, nodes_of_ne (by rw [inum]; exact different), diskNode, diskNode,
      inodes j valid]
  refine ⟨⟨same, addrs, ⟨opened.geometry, ?_, ?_, fits, ?_⟩, ?_, inodes, ?_⟩, ?_, ?_⟩
  · rw [inum]
    exact opened.valid
  · rw [addrs]
    exact opened.live
  · apply opened.accounted.assign opened.geometry free inside opened.valid opened.live_nodes
      (k := k) ((entry_nodes ..).trans empty) usedEq otherNodes
    · intro j different valid inUse some
      have entry : (state.nodes sb ip j).entry state.block ndirect =
          (state.nodes sb ip j).addr ndirect := entry_of_le (Nat.le_refl _)
      apply blocks
      · rw [← entry] at some ⊢
        exact opened.accounted.free_ne_entry free valid inUse some
      · intro x small
        rw [← entry] at some ⊢
        exact bblock_ne opened.geometry small (opened.accounted.taken valid inUse some).1
      · exact .inr (opened.indirect_ne different valid inUse some)
    · rw [← inum, nodes_self, inum, nodes_self, addrs]
    · rw [← inum, entry_nodes]
      exact here
    · intro i different
      rw [← inum, entry_nodes, inum, entry_nodes]
      exact elsewhere i different
  · intro i some
    apply elsewhere
    intro equal
    rw [equal] at some
    exact some empty
  · intro c noBitmap notOwned
    apply blocks c _ noBitmap
    · apply indirect.imp id
      intro some equal
      refine notOwned ⟨equal ▸ some, ndirect, ?_⟩
      rw [elsewhere, equal]
      intro isK
      rw [← isK] at empty
      exact some empty
    · intro equal
      exact notOwned ⟨equal ▸ nonzero, k, here.trans equal.symm⟩
  · intro i notIndirect some
    apply blocks
    · exact opened.free_ne_entry free some
    · exact fun x small => opened.bblock_ne_entry small some
    · exact .inr fun equal => notIndirect (opened.entry_inj some equal)
  · intro i notIndirect none some
    have isK : i = k := by
      by_contra different
      rw [elsewhere i different] at some
      exact some none
    rw [isK, here]
    exact zeros (isK ▸ notIndirect)

theorem Grows.assignAddr (low : k ≤ ndirect) (empty : (state.inode ip).node.addr k = 0) :
    Grows sb lost ip state ((state.allocate sb b).setNode ip ((state.inode ip).node.setAddr k b)) ∧
      ((state.allocate sb b).setNode ip ((state.inode ip).node.setAddr k b)).entry ip k = b := by
  have slot : ((state.allocate sb b).setNode ip ((state.inode ip).node.setAddr k b)).inode ip =
      { state.inode ip with node := (state.inode ip).node.setAddr k b } := State.setInode_self ..
  have entry : ∀ i, ((state.allocate sb b).setNode ip
      ((state.inode ip).node.setAddr k b)).entry ip i =
        ((state.inode ip).node.setAddr k b).entry (allocate sb state.block b) i := by
    intro i
    rw [State.entry, slot]
    rfl
  have noEntry : state.entry ip k = 0 := (entry_of_le low).trans empty
  have here : ((state.allocate sb b).setNode ip
      ((state.inode ip).node.setAddr k b)).entry ip k = b := by
    rw [entry, entry_of_le low, Dinode.addr_setAddr_self _ (Nat.lt_succ_of_le low)]
  refine ⟨?_, here⟩
  apply Grows.assign opened free inside _ _ _ noEntry (.inl low) here
  · -- The other cells: the indirect block is the same, or there was none.
    intro i different
    rw [entry, State.entry]
    by_cases high : i ≤ ndirect
    · rw [entry_of_le high, entry_of_le high, Dinode.addr_setAddr_of_ne _ different]
    · have isHigh : ndirect < i := Nat.not_le.mp high
      by_cases isIndirect : k = ndirect
      · subst isIndirect
        rw [entry_eq_zero empty isHigh]
        have position : ndirect + 1 + (i - (ndirect + 1)) = i := by omega
        have here : ((state.inode ip).node.setAddr ndirect b).addr ndirect = b :=
          Dinode.addr_setAddr_self _ (Nat.lt_succ_self _) b
        rw [← position, entry_indirect _ (by rw [here]; exact opened.free_ne_zero free inside),
          here, allocate_self, Bytes.word_zero]
      · have notSame : ndirect ≠ k := fun equal => isIndirect equal.symm
        have address : ((state.inode ip).node.setAddr k b).addr ndirect =
            (state.inode ip).node.addr ndirect := Dinode.addr_setAddr_of_ne _ notSame b
        apply entry_congr_high isHigh address
        intro some
        have owned : state.entry ip ndirect = (state.inode ip).node.addr ndirect :=
          entry_of_le (Nat.le_refl _)
        rw [← owned] at some ⊢
        exact allocate_of_ne (opened.free_ne_entry free some)
          (opened.bblock_ne_entry inside some).symm
  · exact fun c _ => rfl
  · exact fun _ => allocate_self
  · intro c different noBitmap _
    exact allocate_of_ne different (noBitmap b inside).symm
  · exact (OnlyNode.blocks ip state _ _).trans (.setNode ip _ _)
  · rw [slot]
    rfl
  · rw [slot]
    exact opened.fits_setAddr k (Nat.lt_of_lt_of_le inside opened.geometry.size)

theorem Grows.assignEntry (small : j < nindirect) (some : state.entry ip ndirect ≠ 0)
    (empty : (state.block (state.entry ip ndirect)).word 4 j = 0) :
    Grows sb lost ip state
      (((state.allocate sb b).setBlock (state.entry ip ndirect)
        ((state.block (state.entry ip ndirect)).setWord 4 j b)).record (state.entry ip ndirect)) ∧
      (((state.allocate sb b).setBlock (state.entry ip ndirect)
        ((state.block (state.entry ip ndirect)).setWord 4 j b)).record
          (state.entry ip ndirect)).entry ip (ndirect + 1 + j) = b := by
  have owned : state.entry ip ndirect = (state.inode ip).node.addr ndirect :=
    entry_of_le (Nat.le_refl _)
  have entry : ∀ i, (((state.allocate sb b).setBlock (state.entry ip ndirect)
      ((state.block (state.entry ip ndirect)).setWord 4 j b)).record
        (state.entry ip ndirect)).entry ip (ndirect + 1 + i) =
          ((state.block (state.entry ip ndirect)).setWord 4 j b).word 4 i := by
    intro i
    rw [State.entry, State.record_block]
    have present : (state.inode ip).node.addr ndirect ≠ 0 := owned ▸ some
    refine (entry_indirect i present).trans ?_
    rw [← owned, State.setBlock_self]
  have before : ∀ i, state.entry ip (ndirect + 1 + i) =
      (state.block (state.entry ip ndirect)).word 4 i := by
    intro i
    rw [owned]
    exact entry_indirect i (owned ▸ some)
  have bound := opened.geometry.size
  have room : 4 * j + 4 ≤ bsize := by
    have : j < 256 := small
    have : bsize = 1024 := rfl
    omega
  have here := (entry j).trans (Bytes.word_setWord_same _ room (by omega))
  refine ⟨Grows.assign opened free inside (.blocks ip state _ _) rfl opened.fits
    ((before j).trans empty) (.inr some) here ?_ ?_ ?_ ?_, here⟩
  · intro i different
    by_cases low : i ≤ ndirect
    · exact (entry_of_le low).trans (entry_of_le low).symm
    · have position : ndirect + 1 + (i - (ndirect + 1)) = i := by omega
      rw [← position] at different ⊢
      rw [entry, before, Bytes.word_setWord_ne]
      omega
  · intro c small
    exact used_setBlock (opened.bblock_ne_entry small some)
  · intro _
    refine (Function.update_of_ne ?_ ..).trans allocate_self
    exact (opened.free_ne_entry free some).symm
  · intro c different noBitmap notIndirect
    have notHere : c ≠ state.entry ip ndirect := by
      apply notIndirect.resolve_left
      omega
    exact (Function.update_of_ne notHere ..).trans
      (allocate_of_ne different (noBitmap b inside).symm)

end Assign

end Lemmas

/-! ## The programs -/

/-- No block is free. -/
def Full (sb : Superblock) (block : Nat → Block) : Prop :=
  ∀ b < sb.size, used sb block b = true

section Programs

variable {sb : Superblock} {lost : Set Nat} {p ip k bn : Nat} {allows : Allows State} {state : State}
  {post : Nat → State → Prop}

theorem bmapAddr_kept (low : k ≤ ndirect) (some : state.entry ip k ≠ 0)
    (holds : post (state.entry ip k) state) :
    ensures (answer p) allows (bmapAddr sb ip k) state post := by
  have entry : state.entry ip k = (state.inode ip).node.addr k := entry_of_le low
  rw [entry] at some holds
  apply inode_then
  rw [if_neg some]
  exact ensures_pure.mpr holds

section

variable (opened : Opened sb lost state ip) (quiet : ∀ b, state.held b = none)
  (inside : 1 ≤ state.outstanding)

include opened quiet inside

theorem bmapAddr_ensures (low : k ≤ ndirect)
    (full : Full sb state.block → state.entry ip k = 0 → post 0 state)
    (found : ∀ after, Grows sb lost ip state after → after.entry ip k ≠ 0 →
      post (after.entry ip k) after) : ensures (answer p) allows (bmapAddr sb ip k) state post := by
  have entry : state.entry ip k = (state.inode ip).node.addr k := entry_of_le low
  by_cases empty : state.entry ip k = 0
  · have noAddr : (state.inode ip).node.addr k = 0 := entry.symm.trans empty
    apply inode_then
    rw [if_pos noAddr]
    refine ensures_bind.mpr (balloc_ensures (fun b _ => quiet _) (fun b _ _ => quiet b) inside ?_ ?_)
    · intro isFull
      exact ensures_pure.mpr (full isFull empty)
    · intro b small free _
      have nonzero := opened.free_ne_zero free small
      rw [if_neg nonzero]
      apply update_then
      apply ensures_pure.mpr
      rcases Grows.assignAddr opened free small low noAddr with ⟨grows, here⟩
      have ends := found _ grows (by rw [here]; exact nonzero)
      rw [here] at ends
      exact ends
  · exact bmapAddr_kept low empty (found state (.refl opened) empty)

omit opened quiet inside in
theorem bmapIndirect_kept (free : state.held (state.entry ip ndirect) = none)
    (present : state.entry ip ndirect ≠ 0) (some : state.entry ip (ndirect + 1 + j) ≠ 0)
    (holds : post (state.entry ip (ndirect + 1 + j)) state) :
    ensures (answer p) allows (bmapIndirect sb (state.entry ip ndirect) j) state post := by
  have owned : state.entry ip ndirect = (state.inode ip).node.addr ndirect :=
    entry_of_le (Nat.le_refl _)
  have entry : state.entry ip (ndirect + 1 + j) =
      (state.block (state.entry ip ndirect)).word 4 j := by
    rw [owned] at present ⊢
    exact entry_indirect j present
  rw [entry] at some holds
  apply bread_then free
  rw [if_neg some]
  apply brelse_then free
  exact ensures_pure.mpr holds

theorem bmapIndirect_ensures (small : j < nindirect) (present : state.entry ip ndirect ≠ 0)
    (full : Full sb state.block → state.entry ip (ndirect + 1 + j) = 0 → post 0 state)
    (found : ∀ after, Grows sb lost ip state after → after.entry ip (ndirect + 1 + j) ≠ 0 →
      post (after.entry ip (ndirect + 1 + j)) after) :
    ensures (answer p) allows (bmapIndirect sb (state.entry ip ndirect) j) state post := by
  have owned : state.entry ip ndirect = (state.inode ip).node.addr ndirect :=
    entry_of_le (Nat.le_refl _)
  have entry : state.entry ip (ndirect + 1 + j) =
      (state.block (state.entry ip ndirect)).word 4 j := by
    have nonzero := present
    rw [owned] at nonzero ⊢
    exact entry_indirect j nonzero
  by_cases empty : state.entry ip (ndirect + 1 + j) = 0
  · have noWord := entry.symm.trans empty
    apply bread_then (quiet _)
    rw [if_pos noWord]
    -- The indirect block is in use, so that `balloc` does not wait for its buffer.
    refine ensures_bind.mpr (balloc_ensures ?_ ?_ inside ?_ ?_)
    · intro b bound
      exact (Function.update_of_ne (opened.bblock_ne_entry bound present) ..).trans (quiet _)
    · intro b _ free
      exact (Function.update_of_ne (opened.free_ne_entry free present).symm ..).trans (quiet b)
    · intro isFull
      rw [if_pos rfl]
      apply brelse_then (quiet _)
      exact ensures_pure.mpr (full isFull empty)
    · intro b bound free _
      have nonzero := opened.free_ne_zero free bound
      have kept : (state.allocate sb b).block (state.entry ip ndirect) =
          state.block (state.entry ip ndirect) :=
        allocate_of_ne (opened.free_ne_entry free present) (opened.bblock_ne_entry bound present).symm
      have hold : (state.setHeld (state.entry ip ndirect) (some p)).allocate sb b =
          (state.allocate sb b).setHeld (state.entry ip ndirect) (some p) := rfl
      rw [if_neg nonzero, hold]
      apply store_then
      refine logWrite_then inside ?_
      rw [State.setHeld_setBlock, State.setHeld_record]
      refine brelse_then (quiet _) ?_
      apply ensures_pure.mpr
      rw [State.setHeld_block, kept]
      rcases Grows.assignEntry opened free bound small present noWord with ⟨grows, here⟩
      have ends := found _ grows (by rw [here]; exact nonzero)
      rw [here] at ends
      exact ends
  · exact bmapIndirect_kept (quiet _) present empty (found state (.refl opened) empty)

omit opened quiet inside in
theorem bmap_kept (small : bn < maxFile)
    (free : state.held (state.entry ip ndirect) = none)
    (some : state.entry ip (cellOf bn) ≠ 0) (holds : post (state.entry ip (cellOf bn)) state) :
    ensures (answer p) allows (bmap sb ip bn) state post := by
  unfold bmap
  by_cases direct : bn < ndirect
  · rw [cellOf, if_pos direct] at some holds
    rw [if_pos direct]
    exact bmapAddr_kept (Nat.le_of_lt direct) some holds
  · have entry : state.entry ip (cellOf bn) = state.entry ip (ndirect + 1 + (bn - ndirect)) := by
      rw [cellOf, if_neg direct]
      congr 1
      omega
    have bound : bn - ndirect < nindirect := by
      have : maxFile = ndirect + nindirect := rfl
      omega
    have present : state.entry ip ndirect ≠ 0 := by
      intro zero
      have none : (state.inode ip).node.addr ndirect = 0 :=
        (entry_of_le (Nat.le_refl _)).symm.trans zero
      apply some
      rw [entry]
      exact entry_eq_zero none (by omega)
    rw [entry] at some holds
    rw [if_neg direct, if_pos bound]
    refine ensures_bind.mpr (bmapAddr_kept (Nat.le_refl _) present ?_)
    rw [if_neg present]
    exact bmapIndirect_kept free present some holds

theorem bmap_ensures (small : bn < maxFile)
    (full : ∀ after, Grows sb lost ip state after → Full sb after.block →
      state.entry ip (cellOf bn) = 0 → post 0 after)
    (found : ∀ after, Grows sb lost ip state after → after.entry ip (cellOf bn) ≠ 0 →
      post (after.entry ip (cellOf bn)) after) :
    ensures (answer p) allows (bmap sb ip bn) state post := by
  unfold bmap
  by_cases direct : bn < ndirect
  · rw [cellOf, if_pos direct] at full found
    rw [if_pos direct]
    exact bmapAddr_ensures opened quiet inside (Nat.le_of_lt direct)
      (full state (.refl opened)) found
  · have cell : cellOf bn = ndirect + 1 + (bn - ndirect) := by
      rw [cellOf, if_neg direct]
      omega
    have bound : bn - ndirect < nindirect := by
      have : maxFile = ndirect + nindirect := rfl
      omega
    rw [cell] at full found
    rw [if_neg direct, if_pos bound]
    refine ensures_bind.mpr (bmapAddr_ensures opened quiet inside (Nat.le_refl _) ?_ ?_)
    · intro isFull empty
      rw [if_pos rfl]
      apply ensures_pure.mpr
      apply full state (.refl opened) isFull
      have none : (state.inode ip).node.addr ndirect = 0 :=
        (entry_of_le (Nat.le_refl _)).symm.trans empty
      exact entry_eq_zero none (by omega)
    · intro middle first present
      rw [if_neg present]
      apply bmapIndirect_ensures first.opened _ _ bound present
      · intro isFull empty
        apply full middle first isFull
        by_contra some
        rw [first.kept _ some] at empty
        exact some empty
      · intro after second
        exact found after (first.trans second)
      · intro b
        rw [first.same.held]
        exact quiet b
      · rw [first.same.outstanding]
        exact inside

end

end Programs

end Xv6.Fs
