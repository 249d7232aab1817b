import Xv6.Fs.Bmap

/-! # The inode in a slot and the inode on disk

`iupdate` copies the inode in a slot of the table to its place on disk. -/

namespace Xv6.Fs

open Prog

/-- An inode is stored at its place on disk. -/
def State.putNode (sb : Superblock) (state : State) (inum : Nat) (node : Dinode) : State :=
  (state.setBlock (sb.iblock inum)
    (Dinode.write (state.block (sb.iblock inum)) (inum % ipb) node)).record (sb.iblock inum)

/-- The state after `iupdate`. -/
def State.flush (sb : Superblock) (state : State) (ip : Nat) : State :=
  state.putNode sb (state.inode ip).inum (state.inode ip).node

variable {b : Nat}

section PutNode

variable {sb : Superblock} {state : State} {inum : Nat} {node : Dinode}

theorem putNode_block_of_ne (different : b ≠ sb.iblock inum) :
    (state.putNode sb inum node).block b = state.block b :=
  Function.update_of_ne different ..

theorem diskNode_putNode (fits : node.Fits) :
    diskNode sb (state.putNode sb inum node).block inum = node := by
  have small : inum % ipb < ipb := Nat.mod_lt _ (by decide)
  rw [diskNode, State.putNode, State.record_block, State.setBlock_self,
    Dinode.read_write_same _ small fits]

theorem diskNode_putNode_of_ne (different : other ≠ inum) :
    diskNode sb (state.putNode sb inum node).block other = diskNode sb state.block other := by
  rw [diskNode, diskNode]
  by_cases same : sb.iblock other = sb.iblock inum
  · rw [same, State.putNode, State.record_block, State.setBlock_self]
    apply Dinode.read_write_ne
    intro position
    apply different
    have blocks : other / ipb = inum / ipb := Nat.add_right_cancel same
    rw [← Nat.div_add_mod other ipb, blocks, position, Nat.div_add_mod]
  · rw [putNode_block_of_ne same]

theorem used_putNode (ok : sb.Ok) (valid : inum < sb.ninodes) (b : Nat) :
    used sb (state.putNode sb inum node).block b = used sb state.block b := by
  rw [used, used, putNode_block_of_ne (iblock_ne_bblock ok valid).symm]

theorem Accounted.putNode {nodes : Nat → Dinode} (acc : Accounted sb lost state.block nodes)
    (ok : sb.Ok) (valid : inum < sb.ninodes)
    (others : ∀ j, j ≠ inum → nodes j = diskNode sb state.block j)
    (before : ∀ k, cell sb state.block nodes (inum, k) = none) (fits : node.Fits)
    (empty : node.type = 0 ∨ ∀ k, node.addr k = 0) :
    Accounted sb lost (state.putNode sb inum node).block
      (diskNode sb (state.putNode sb inum node).block) := by
  apply acc.replace
  · exact fun c _ => used_putNode ok valid c
  · intro j different _
    rw [diskNode_putNode_of_ne different, others j different]
  · intro j _ small inUse some
    have entry : (nodes j).entry state.block ndirect = (nodes j).addr ndirect :=
      entry_of_le (Nat.le_refl _)
    rw [← entry] at some ⊢
    have taken := acc.taken small inUse some
    exact putNode_block_of_ne (iblock_ne ok valid taken.2.1 taken.1).symm
  · exact before
  · intro k
    have stored : diskNode sb (state.putNode sb inum node).block inum = node :=
      diskNode_putNode fits
    rcases empty with dead | zeros
    · apply cell_eq_none_of_dead
      rw [stored]
      exact dead
    · apply cell_eq_none
      rw [stored, entry_of_noAddr zeros]

end PutNode

section Flush

variable {sb : Superblock} {lost : Set Nat} {ip : Nat} {state after : State}

theorem setNode_inode (state : State) (ip : Nat) (node : Dinode) :
    (state.setNode ip node).inode ip = { state.inode ip with node } := State.setInode_self ..

theorem setNode_self : state.setNode ip (state.inode ip).node = state := by
  have same : Function.update state.inode ip (state.inode ip) = state.inode :=
    Function.update_eq_self ..
  rw [State.setNode, State.setInode, same]

theorem diskNode_flush (fits : (state.inode ip).node.Fits) :
    diskNode sb (state.flush sb ip).block (state.inode ip).inum = (state.inode ip).node :=
  diskNode_putNode fits

section

variable (opened : Opened sb lost state ip)

include opened

/-- A slot stays opened if its cells, and what the other inodes depend on, stay. -/
theorem Opened.congr (inum : (after.inode ip).inum = (state.inode ip).inum)
    (type : (after.inode ip).node.type = (state.inode ip).node.type)
    (fits : (after.inode ip).node.Fits)
    (usedEq : ∀ c < sb.size, used sb after.block c = used sb state.block c)
    (nodes : ∀ j < sb.ninodes, j ≠ (state.inode ip).inum →
      diskNode sb after.block j = diskNode sb state.block j)
    (entry : ∀ k, after.entry ip k = state.entry ip k)
    (indirect : ∀ j < sb.ninodes, j ≠ (state.inode ip).inum →
      (state.nodes sb ip j).type ≠ 0 → (state.nodes sb ip j).addr ndirect ≠ 0 →
      after.block ((state.nodes sb ip j).addr ndirect) =
        state.block ((state.nodes sb ip j).addr ndirect)) : Opened sb lost after ip where
  geometry := opened.geometry
  valid := by
    rw [inum]
    exact opened.valid
  live := by
    rw [type]
    exact opened.live
  fits := fits
  accounted := by
    apply opened.accounted.congr usedEq
    intro place
    rcases place with ⟨j, k⟩
    by_cases same : j = (state.inode ip).inum
    · rw [same]
      apply cell_congr
      · rw [← inum, nodes_self, inum, nodes_self]
        exact type
      · rw [← inum, entry_nodes, inum, entry_nodes]
        exact entry k
    · apply cell_eq_of_node
      · intro valid
        rw [nodes_of_ne (by rw [inum]; exact same), nodes_of_ne same]
        exact nodes j valid same
      · intro valid
        exact indirect j valid same

omit opened in
/-- A process has worked on the inode in slot `ip`. The blocks of another inode are
not among those it has then, and stay. -/
theorem Opened.other_same (before : Opened sb lost state ip) (opened : Opened sb lost after ip)
    (inum : (after.inode ip).inum = (state.inode ip).inum)
    (others : ∀ b, (∀ c < sb.size, sb.bblock c ≠ b) → sb.iblock (state.inode ip).inum ≠ b →
      ¬ Owns after ip b → after.block b = state.block b) (valid : j < sb.ninodes)
    (different : j ≠ (state.inode ip).inum)
    (node : diskNode sb after.block j = diskNode sb state.block j)
    (inUse : (diskNode sb state.block j).type ≠ 0) (k : Nat)
    (some : (diskNode sb state.block j).entry state.block k ≠ 0) :
    after.block ((diskNode sb state.block j).entry state.block k) =
      state.block ((diskNode sb state.block j).entry state.block k) := by
  have nodeBefore : state.nodes sb ip j = diskNode sb state.block j := nodes_of_ne different
  have nodeAfter : after.nodes sb ip j = diskNode sb state.block j :=
    (nodes_of_ne (by rw [inum]; exact different)).trans node
  have live := nodeBefore ▸ inUse
  have kept : ∀ i, (diskNode sb state.block j).entry state.block i ≠ 0 →
      (diskNode sb state.block j).entry after.block i =
        (diskNode sb state.block j).entry state.block i →
      after.block ((diskNode sb state.block j).entry state.block i) =
        state.block ((diskNode sb state.block j).entry state.block i) := by
    intro i some same
    have taken := before.accounted.taken (k := i) valid live (nodeBefore.symm ▸ some)
    rw [nodeBefore] at taken
    apply others
    · exact fun c small => bblock_ne before.geometry small taken.1
    · exact iblock_ne before.geometry before.valid taken.2.1 taken.1
    · intro owns
      rcases owns with ⟨_, i', found⟩
      rw [← same, ← nodeAfter] at some
      rw [← same, ← nodeAfter, ← entry_nodes sb] at found
      have equal := (opened.accounted.entry_inj valid (nodeAfter.symm ▸ inUse) opened.valid
        opened.live_nodes some found.symm).1
      exact different (equal.trans inum)
  -- The indirect block first: it holds the other cells.
  have indirect : ∀ i, (diskNode sb state.block j).entry after.block i =
      (diskNode sb state.block j).entry state.block i := by
    apply entry_congr fun _ => rfl
    intro present
    have entry : (diskNode sb state.block j).entry state.block ndirect =
        (diskNode sb state.block j).addr ndirect := entry_of_le (Nat.le_refl _)
    rw [← entry] at present ⊢
    exact kept ndirect present ((entry_of_le (Nat.le_refl _)).trans entry.symm)
  exact kept k some (indirect k)

theorem Opened.flush_data (data : sb.nmeta ≤ b) (inside : b < sb.size) :
    (state.flush sb ip).block b = state.block b :=
  putNode_block_of_ne (iblock_ne opened.geometry opened.valid inside data).symm

theorem Opened.entry_flush (k : Nat) : (state.flush sb ip).entry ip k = state.entry ip k := by
  apply entry_congr
  · exact fun _ => rfl
  · intro some
    have entry : state.entry ip ndirect = (state.inode ip).node.addr ndirect :=
      entry_of_le (Nat.le_refl _)
    rw [← entry] at some ⊢
    exact opened.flush_data (opened.taken some).1 (opened.taken some).2.1

theorem Opened.flush : Opened sb lost (state.flush sb ip) ip := by
  apply opened.congr
  · rfl
  · rfl
  · exact opened.fits
  · exact fun c _ => used_putNode opened.geometry opened.valid c
  · intro j _ different
    exact diskNode_putNode_of_ne different
  · exact opened.entry_flush
  · intro j valid _ inUse some
    have entry : (state.nodes sb ip j).entry state.block ndirect =
        (state.nodes sb ip j).addr ndirect := entry_of_le (Nat.le_refl _)
    rw [← entry] at some ⊢
    have taken := opened.accounted.taken valid inUse some
    exact opened.flush_data taken.1 taken.2.1

theorem Opened.setSize (bound : size < 2 ^ 32) :
    Opened sb lost (state.setNode ip { (state.inode ip).node with size }) ip := by
  have slot := setNode_inode state ip { (state.inode ip).node with size }
  apply opened.congr
  · rw [slot]
  · rw [slot]
  · rw [slot]
    exact { opened.fits with size := bound }
  · exact fun _ _ => rfl
  · exact fun _ _ _ => rfl
  · intro k
    rw [State.entry, slot]
    rfl
  · exact fun _ _ _ _ _ => rfl

end

end Flush

variable {sb : Superblock} {p ip : Nat} {allows : Allows State} {state : State}

theorem iupdate_ensures {post : Unit → State → Prop}
    (free : state.held (sb.iblock (state.inode ip).inum) = none) (inside : 1 ≤ state.outstanding)
    (holds : post () (state.flush sb ip)) :
    ensures (answer p) allows (iupdate sb ip) state post := by
  apply inode_then
  apply bread_then free
  apply store_then
  refine logWrite_then inside ?_
  rw [State.setHeld_setBlock, State.setHeld_record]
  exact brelse_ensures free holds

/-! ## The small file system -/

theorem small_ok : Superblock.small.Ok where
  inodes := by decide
  bitmap := by decide
  size := by decide

theorem root_fits : Dinode.root.Fits where
  type := by decide
  major := by decide
  minor := by decide
  nlink := by decide
  size := by decide
  addr := by
    intro k
    have zero : Dinode.root.addr k = 0 := Dinode.addr_zero k
    rw [zero]
    exact Nat.two_pow_pos 32

theorem small_free : (diskNode .small smallDisk 0).type = 0 := by
  have free : diskNode .small smallDisk 0 = Dinode.read (fun _ => 0) 0 :=
    Dinode.read_write_ne (fun _ => 0) (show 0 ≠ rootIno by decide) .root
  rw [free]
  exact Bytes.word_zero ..

theorem small_root : diskNode .small smallDisk rootIno = .root :=
  Dinode.read_write_same (fun _ => 0) (show rootIno < ipb by decide) root_fits

theorem small_opened : Opened .small ∅ .small 0 where
  geometry := small_ok
  valid := by decide
  live := by decide
  fits := root_fits
  accounted := by
    apply Accounted.of_noBlocks
    · decide +kernel
    · intro inum valid inUse k
      have bound : inum < 2 := valid
      have cases : inum = 0 ∨ inum = 1 := by omega
      rcases cases with rfl | rfl
      · refine absurd ?_ inUse
        rw [nodes_of_ne (by decide)]
        exact small_free
      · exact (congrArg (Dinode.entry · smallDisk k) nodes_self).trans (entry_of_noAddr Dinode.addr_zero k)

end Xv6.Fs
