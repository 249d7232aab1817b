import Xv6.Fs.Itrunc
import Xv6.Fs.Writei

/-! # The table of inodes

Between two calls of functions of `fs.c`, with nobody else at work, the slots of the
table agree with the disk: two slots in use hold different inodes, and a slot whose
inode has been read holds what is on disk. -/

namespace Xv6.Fs

open Prog

structure Sound (sb : Superblock) (lost : Set Nat) (state : State) : Prop where
  geometry : sb.Ok
  quiet : ∀ b, state.held b = none
  itable : state.itableLock = none
  slot : ∀ ip, (state.inode ip).ref ≠ 0 → ip < ninode ∧ (state.inode ip).dev = rootDev ∧
    (state.inode ip).inum < sb.ninodes
  unique : ∀ ip other, (state.inode ip).ref ≠ 0 → (state.inode other).ref ≠ 0 →
    (state.inode ip).inum = (state.inode other).inum → ip = other
  loaded : ∀ ip, (state.inode ip).ref ≠ 0 → (state.inode ip).valid = true →
    (state.inode ip).node = diskNode sb state.block (state.inode ip).inum ∧
    (state.inode ip).node.type ≠ 0
  accounted : Accounted sb lost state.block (diskNode sb state.block)
  whole : ∀ inum < sb.ninodes, (diskNode sb state.block inum).type ≠ 0 →
    (diskNode sb state.block inum).Whole state.block

variable {inode : Inode}

namespace Sound

variable {sb : Superblock} {lost : Set Nat} {ip : Nat} {state after : State}

section Slot

variable (sound : Sound sb lost state) (inUse : (state.inode ip).ref ≠ 0)
  (valid : (state.inode ip).valid = true)

include sound inUse valid

theorem nodes_eq : state.nodes sb ip = diskNode sb state.block := by
  rw [State.nodes, (sound.loaded ip inUse valid).1, Function.update_eq_self]

theorem opened : Opened sb lost state ip where
  geometry := sound.geometry
  valid := (sound.slot ip inUse).2.2
  live := (sound.loaded ip inUse valid).2
  fits := by
    rw [(sound.loaded ip inUse valid).1]
    exact Dinode.read_fits ..
  accounted := by
    rw [sound.nodes_eq inUse valid]
    exact sound.accounted

theorem whole_slot : Whole state ip := by
  have loaded := sound.loaded ip inUse valid
  rw [Whole, loaded.1]
  apply sound.whole _ (sound.slot ip inUse).2.2
  rw [← loaded.1]
  exact loaded.2

theorem worked (same : OnlyNode ip state after) (opened : Opened sb lost after ip)
    (whole : Whole after ip)
    (stored : diskNode sb after.block (state.inode ip).inum = (after.inode ip).node)
    (inodes : ∀ j < sb.ninodes, j ≠ (state.inode ip).inum →
      diskNode sb after.block j = diskNode sb state.block j)
    (others : ∀ b, (∀ c < sb.size, sb.bblock c ≠ b) → sb.iblock (state.inode ip).inum ≠ b →
      ¬ Owns after ip b → after.block b = state.block b) : Sound sb lost after := by
  have inum := same.inum
  have ref : ∀ other, (after.inode other).ref = (state.inode other).ref ∧
      (after.inode other).inum = (state.inode other).inum ∧
      (after.inode other).dev = (state.inode other).dev := by
    intro other
    by_cases this : other = ip
    · rw [this, same.slot]
      exact ⟨rfl, rfl, rfl⟩
    · rw [same.slots other this]
      exact ⟨rfl, rfl, rfl⟩
  refine
    { geometry := sound.geometry, quiet := ?_, itable := ?_, slot := ?_, unique := ?_, loaded := ?_
      accounted := ?_, whole := ?_ }
  · rw [same.held]
    exact sound.quiet
  · rw [same.itableLock]
    exact sound.itable
  · intro other
    rw [(ref other).1, (ref other).2.1, (ref other).2.2]
    exact sound.slot other
  · intro first second
    rw [(ref first).1, (ref second).1, (ref first).2.1, (ref second).2.1]
    exact sound.unique first second
  · intro other used isValid
    by_cases this : other = ip
    · rw [this]
      rw [inum]
      exact ⟨stored.symm, opened.live⟩
    · rw [same.slots other this] at used isValid ⊢
      have loaded := sound.loaded other used isValid
      refine ⟨?_, loaded.2⟩
      rw [inodes _ (sound.slot other used).2.2]
      · exact loaded.1
      · intro equal
        exact this (sound.unique other ip used inUse equal)
  · have nodes : after.nodes sb ip = diskNode sb after.block := by
      rw [State.nodes, ← stored, inum, Function.update_eq_self]
    rw [← nodes]
    exact opened.accounted
  · intro j small live
    by_cases this : j = (state.inode ip).inum
    · rw [this, stored]
      exact whole
    · have node := inodes j small this
      rw [node] at live ⊢
      exact whole_of_same (sound.whole j small live)
        ((sound.opened inUse valid).other_same opened inum others small this node live)

theorem wrote (wrote : Wrote sb lost ip src off n tot state after) : Sound sb lost after :=
  sound.worked inUse valid wrote.same wrote.opened wrote.whole wrote.stored wrote.inodes
    wrote.others

theorem truncated (truncated : Truncated sb lost ip state after) : Sound sb lost after := by
  apply sound.worked inUse valid truncated.same truncated.opened _ truncated.stored truncated.inodes
  · exact fun b noBitmap noInode _ => truncated.blocks b noBitmap noInode
  · rw [Whole, truncated.node]
    exact ⟨Nat.zero_le _, fun bn inside => absurd inside (Nat.not_lt_zero _)⟩

end Slot

theorem setInode (sound : Sound sb lost state)
    (slot : inode.ref ≠ 0 → ip < ninode ∧ inode.dev = rootDev ∧ inode.inum < sb.ninodes)
    (unique : inode.ref ≠ 0 → ∀ other, other ≠ ip → (state.inode other).ref ≠ 0 →
      (state.inode other).inum ≠ inode.inum)
    (loaded : inode.ref ≠ 0 → inode.valid = true →
      inode.node = diskNode sb state.block inode.inum ∧ inode.node.type ≠ 0) :
    Sound sb lost (state.setInode ip inode) := by
  have here : (state.setInode ip inode).inode ip = inode := State.setInode_self ..
  have there : ∀ other, other ≠ ip → (state.setInode ip inode).inode other = state.inode other :=
    fun other different => Function.update_of_ne different ..
  refine { sound with slot := ?_, unique := ?_, loaded := ?_ }
  · intro other
    by_cases this : other = ip
    · rw [this, here]
      exact slot
    · rw [there other this]
      exact sound.slot other
  · intro first second firstUsed secondUsed equal
    by_cases isFirst : first = ip <;> by_cases isSecond : second = ip
    · rw [isFirst, isSecond]
    · rw [isFirst, here] at firstUsed equal
      rw [there second isSecond] at secondUsed equal
      exact absurd equal.symm (unique firstUsed second isSecond secondUsed)
    · rw [isSecond, here] at secondUsed equal
      rw [there first isFirst] at firstUsed equal
      exact absurd equal (unique secondUsed first isFirst firstUsed)
    · rw [there first isFirst] at firstUsed equal
      rw [there second isSecond] at secondUsed equal
      exact sound.unique first second firstUsed secondUsed equal
  · intro other
    by_cases this : other = ip
    · rw [this, here]
      exact loaded
    · rw [there other this]
      exact sound.loaded other

theorem setRefLock (sound : Sound sb lost state) (inUse : inode.ref ≠ 0 → (state.inode ip).ref ≠ 0)
    (same : inode = { state.inode ip with ref := inode.ref, lock := inode.lock }) :
    Sound sb lost (state.setInode ip inode) := by
  apply sound.setInode
  · intro used
    rw [same]
    exact sound.slot ip (inUse used)
  · intro used other different otherUsed equal
    rw [same] at equal
    exact different (sound.unique other ip otherUsed (inUse used) equal)
  · intro used
    rw [same]
    exact sound.loaded ip (inUse used)

end Sound

/-! ## `iget`, `idup`, `ilock` and `iunlock` -/

variable {dev inum : Nat} {post : Unit → State → Prop}

section Slots

variable {sb : Superblock} {lost : Set Nat} {p ip : Nat} {allows : Allows State} {state : State}

theorem iget_ensures {post : Nat → State → Prop} (free : state.itableLock = none)
    (found : ∀ ip < ninode, (state.inode ip).ref ≠ 0 → (state.inode ip).dev = dev →
      (state.inode ip).inum = inum → post ip (state.setRef ip ((state.inode ip).ref + 1)))
    (fresh : ∀ ip < ninode, (state.inode ip).ref = 0 →
      (∀ other < ninode, (state.inode other).ref ≠ 0 → (state.inode other).dev = dev →
        (state.inode other).inum ≠ inum) →
      post ip (state.setInode ip { state.inode ip with dev, inum, ref := 1, valid := false }))
    (full : (∀ other < ninode, (state.inode other).ref ≠ 0) →
      allows.panic "iget: no inodes" (state.setItable (some p))) :
    ensures (answer p) allows (iget dev inum) state post := by
  apply acquire_then free
  apply itable_then
  rw [State.setItable_inode]
  cases search : (List.range ninode).find? fun ip =>
      0 < (state.inode ip).ref && (state.inode ip).dev == dev && (state.inode ip).inum == inum with
  | some ip =>
    have member := List.mem_of_find?_eq_some search
    have here := List.find?_some search
    simp only [Bool.and_eq_true, decide_eq_true_eq, beq_iff_eq] at here
    dsimp only
    apply incRef_then
    rw [State.setRef, State.setItable_setInode]
    refine release_then free ?_
    exact ensures_pure.mpr
      (found ip (List.mem_range.mp member) (Nat.ne_of_gt here.1.1) here.1.2 here.2)
  | none =>
    have nowhere := List.find?_eq_none.mp search
    simp only [List.mem_range, Bool.and_eq_true, decide_eq_true_eq, beq_iff_eq] at nowhere
    dsimp only
    cases empty : (List.range ninode).find? fun ip => (state.inode ip).ref == 0 with
    | some ip =>
      have member := List.mem_of_find?_eq_some empty
      have here := List.find?_some empty
      simp only [beq_iff_eq] at here
      dsimp only
      apply refill_then
      rw [State.setItable_setInode]
      refine release_then free ?_
      apply ensures_pure.mpr
      apply fresh ip (List.mem_range.mp member) here
      intro other small used sameDev equal
      exact nowhere other small ⟨⟨Nat.pos_of_ne_zero used, sameDev⟩, equal⟩
    | none =>
      have allUsed := List.find?_eq_none.mp empty
      simp only [List.mem_range, beq_iff_eq] at allUsed
      exact ensures_panic.mpr (full allUsed)

theorem idup_ensures {post : Nat → State → Prop} (free : state.itableLock = none)
    (holds : post ip (state.setRef ip ((state.inode ip).ref + 1))) :
    ensures (answer p) allows (idup ip) state post := by
  apply acquire_then free
  apply incRef_then
  rw [State.setRef, State.setItable_setInode]
  refine release_then free ?_
  exact ensures_pure.mpr holds

/-- The state after `ilock`: the inode is what is on disk. -/
def State.lockInode (sb : Superblock) (state : State) (p ip : Nat) : State :=
  state.setInode ip
    { state.inode ip with
      lock := some p, valid := true, node := diskNode sb state.block (state.inode ip).inum }

theorem setInode_setInode (first second : Inode) :
    (state.setInode ip first).setInode ip second = state.setInode ip second := by
  simp only [State.setInode, Function.update_idem]

theorem ilock_ensures (inUse : (state.inode ip).ref ≠ 0) (unlocked : (state.inode ip).lock = none)
    (free : state.held (sb.iblock (state.inode ip).inum) = none)
    (coherent : (state.inode ip).valid = true →
      (state.inode ip).node = diskNode sb state.block (state.inode ip).inum)
    (dead : (diskNode sb state.block (state.inode ip).inum).type = 0 →
      allows.panic "ilock: no type" (state.lockInode sb p ip))
    (holds : (state.inode ip).valid = true ∨
      (diskNode sb state.block (state.inode ip).inum).type ≠ 0 →
      post () (state.lockInode sb p ip)) : ensures (answer p) allows (ilock sb ip) state post := by
  apply inode_then
  rw [if_neg (by omega)]
  apply acquiresleep_then unlocked
  apply inode_then
  rw [State.setLock, State.setInode_self]
  dsimp only
  split
  · rename_i valid
    apply ensures_pure.mpr
    have ended := holds (.inl valid)
    rw [State.lockInode, ← coherent valid] at ended
    have same : ({ state.inode ip with lock := some p } : Inode) =
        { state.inode ip with lock := some p, valid := true } := by
      rw [← valid]
    rw [same]
    exact ended
  · refine bread_then free ?_
    apply update_then
    rw [State.setHeld_setNode]
    refine brelse_then free ?_
    apply setValid_then
    have loaded : Dinode.read (state.block (sb.iblock (state.inode ip).inum))
        ((state.inode ip).inum % ipb) = diskNode sb state.block (state.inode ip).inum := rfl
    rw [State.setInode_block, loaded, State.setNode, setInode_setInode, State.setInode_self,
      setInode_setInode, State.setInode_self]
    split
    · rename_i free
      exact ensures_panic.mpr (dead free)
    · rename_i live
      exact ensures_pure.mpr (holds (.inr live))

theorem Sound.lockInode (sound : Sound sb lost state) (inUse : (state.inode ip).ref ≠ 0)
    (live : (diskNode sb state.block (state.inode ip).inum).type ≠ 0) :
    Sound sb lost (state.lockInode sb p ip) := by
  apply sound.setInode
  · exact fun _ => sound.slot ip inUse
  · intro _ other different otherUsed equal
    exact different (sound.unique other ip otherUsed inUse equal)
  · exact fun _ _ => ⟨rfl, live⟩

theorem iunlock_ensures (inUse : (state.inode ip).ref ≠ 0) (mine : (state.inode ip).lock = some p)
    (holds : post () (state.setLock ip none)) :
    ensures (answer p) allows (iunlock ip) state post := by
  apply holdingsleep_then
  apply inode_then
  rw [mine, decide_eq_true rfl]
  rw [if_neg (by simp; omega)]
  exact releasesleep_ensures holds

end Slots

/-! ## `iput` -/

/-- `iput` has freed the inode that was in slot `ip`. -/
structure Removed (sb : Superblock) (lost : Set Nat) (ip : Nat) (state after : State) :
    Prop where
  held : after.held = state.held
  committed : after.committed = state.committed
  outstanding : after.outstanding = state.outstanding
  itableLock : after.itableLock = state.itableLock
  slots : ∀ other, other ≠ ip → after.inode other = state.inode other
  unused : (after.inode ip).ref = 0
  unlocked : (after.inode ip).lock = none
  dead : (diskNode sb after.block (state.inode ip).inum).type = 0
  inodes : ∀ j < sb.ninodes, j ≠ (state.inode ip).inum →
    diskNode sb after.block j = diskNode sb state.block j
  blocks : ∀ b, (∀ c < sb.size, sb.bblock c ≠ b) → sb.iblock (state.inode ip).inum ≠ b →
    after.block b = state.block b
  accounted : Accounted sb lost after.block (diskNode sb after.block)

section Iput

variable {sb : Superblock} {lost : Set Nat} {p ip : Nat} {allows : Allows State}
  {state middle : State}

theorem Truncated.accounted (truncated : Truncated sb lost ip state middle) :
    Accounted sb lost
      (middle.putNode sb (state.inode ip).inum { (middle.inode ip).node with type := 0 }).block
      (diskNode sb (middle.putNode sb (state.inode ip).inum
        { (middle.inode ip).node with type := 0 }).block) := by
  have opened := truncated.opened
  have inum := truncated.same.inum
  apply opened.accounted.putNode opened.geometry
  · rw [← inum]
    exact opened.valid
  · intro j different
    exact nodes_of_ne (by rw [inum]; exact different)
  · intro k
    apply cell_eq_none
    rw [← inum, entry_nodes, State.entry, truncated.node]
    exact entry_of_noAddr Dinode.addr_zero k
  · exact { opened.fits with type := Nat.two_pow_pos 16 }
  · exact .inl rfl

theorem Opened.setLock (opened : Opened sb lost state ip) (lock : Option Nat) :
    Opened sb lost (state.setLock ip lock) ip := by
  have slot : (state.setLock ip lock).inode ip = { state.inode ip with lock } :=
    State.setInode_self ..
  apply opened.congr
  · rw [slot]
  · rw [slot]
  · rw [slot]
    exact opened.fits
  · exact fun _ _ => rfl
  · exact fun _ _ _ => rfl
  · intro k
    rw [State.entry, slot]
    rfl
  · exact fun _ _ _ _ _ => rfl

theorem putNode_setInode (inode : Inode) (inum : Nat) (node : Dinode) :
    (state.setInode ip inode).putNode sb inum node = (state.putNode sb inum node).setInode ip inode :=
  rfl

theorem Truncated.removed (truncated : Truncated sb lost ip (state.setLock ip lock) middle)
    (unused : inode.ref = 0) (unlocked : inode.lock = none) :
    Removed sb lost ip state ((middle.putNode sb (middle.inode ip).inum
      { (middle.inode ip).node with type := 0 }).setInode ip inode) := by
  have slot : (state.setLock ip lock).inode ip = { state.inode ip with lock } :=
    State.setInode_self ..
  have inum : (middle.inode ip).inum = (state.inode ip).inum := by
    rw [truncated.same.inum, slot]
  have fits : ({ (middle.inode ip).node with type := 0 } : Dinode).Fits :=
    { truncated.opened.fits with type := Nat.two_pow_pos 16 }
  have accounted := truncated.accounted
  rw [slot, ← inum] at accounted
  have inodes := truncated.inodes
  have blocks := truncated.blocks
  rw [slot] at inodes blocks
  refine
    { held := truncated.same.held, committed := truncated.same.committed
      outstanding := truncated.same.outstanding, itableLock := truncated.same.itableLock
      slots := ?_, unused := ?_, unlocked := ?_, dead := ?_, inodes := ?_, blocks := ?_
      accounted := accounted }
  · intro other different
    refine (Function.update_of_ne different ..).trans ((truncated.same.slots other different).trans ?_)
    exact Function.update_of_ne different ..
  · rw [State.setInode_self]
    exact unused
  · rw [State.setInode_self]
    exact unlocked
  · rw [State.setInode_block, ← inum, diskNode_putNode fits]
  · intro j small different
    rw [State.setInode_block, diskNode_putNode_of_ne (by rw [inum]; exact different)]
    exact inodes j small different
  · intro b noBitmap noInode
    rw [State.setInode_block, putNode_block_of_ne (by rw [inum]; exact noInode.symm)]
    exact blocks b noBitmap noInode

/-- `iput` of a reference that is not the last one, or to an inode that has links. -/
theorem iput_kept (free : state.itableLock = none)
    (stays : ¬ ((state.inode ip).ref = 1 ∧ (state.inode ip).valid = true ∧
      (state.inode ip).node.nlink = 0))
    (holds : post () (state.setRef ip ((state.inode ip).ref - 1))) :
    ensures (answer p) allows (iput sb ip) state post := by
  apply acquire_then free
  refine ensures_bind.mpr ?_
  apply inode_then
  rw [State.setItable_inode, if_neg (by simpa [and_assoc] using stays)]
  apply ensures_pure.mpr
  apply decRef_then
  rw [State.setRef, State.setItable_setInode]
  exact release_ensures free holds

/-- `iput` of the last reference to an inode without links frees it. Otherwise only
the number of references changes. -/
theorem iput_ensures (free : state.itableLock = none) (quiet : ∀ b, state.held b = none)
    (inside : 1 ≤ state.outstanding)
    (kept : ¬ ((state.inode ip).ref = 1 ∧ (state.inode ip).valid = true ∧
      (state.inode ip).node.nlink = 0) → post () (state.setRef ip ((state.inode ip).ref - 1)))
    (removed : (state.inode ip).ref = 1 → (state.inode ip).valid = true →
      (state.inode ip).node.nlink = 0 → Opened sb lost state ip ∧
      ((state.inode ip).lock ≠ none → allows.panic "sched locks" (state.setItable (some p))) ∧
      ∀ after, Removed sb lost ip state after → post () after) :
    ensures (answer p) allows (iput sb ip) state post := by
  by_cases last : (state.inode ip).ref = 1 ∧ (state.inode ip).valid = true ∧
      (state.inode ip).node.nlink = 0
  · apply acquire_then free
    refine ensures_bind.mpr ?_
    apply inode_then
    rw [State.setItable_inode]
    rcases removed last.1 last.2.1 last.2.2 with ⟨opened, blocked, holds⟩
    rw [if_pos (by simpa [and_assoc] using last)]
    by_cases unlocked : (state.inode ip).lock ≠ none
    · exact acquiresleep_blocked unlocked (fun notMine => absurd rfl notMine)
        fun _ => blocked unlocked
    refine acquiresleep_then (not_not.mp unlocked) ?_
    rw [State.setLock, State.setItable_setInode]
    refine release_then free ?_
    refine ensures_bind.mpr (itrunc_ensures (opened.setLock (some p)) quiet inside ?_)
    intro middle truncated
    apply update_then
    refine ensures_bind.mpr (iupdate_ensures ?_ ?_ ?_)
    · exact (congrFun truncated.same.held _).trans (quiet _)
    · exact Nat.le_trans inside (Nat.le_of_eq truncated.same.outstanding.symm)
    · apply setValid_then
      apply releasesleep_then
      refine acquire_ensures (truncated.same.itableLock.trans free) ?_
      apply decRef_then
      rw [State.setRef, State.setItable_setInode]
      refine release_ensures (truncated.same.itableLock.trans free) ?_
      rw [State.setLock, setInode_setInode, setInode_setInode, State.flush, setNode_inode,
        State.setNode, putNode_setInode, setInode_setInode]
      apply holds
      apply truncated.removed
      · have ref : (middle.inode ip).ref = 1 := by
          rw [truncated.same.slot, State.setInode_self]
          exact last.1
        simp only [State.setItable_inode, State.setInode_self, ref, Nat.sub_self]
      · simp only [State.setItable_inode, State.setInode_self]
  · exact iput_kept free last (kept last)

end Iput

section Back

variable {sb : Superblock} {p ip : Nat} {allows : Allows State} {state : State}

theorem setRef_back : (state.setRef ip ((state.inode ip).ref + 1)).setRef ip
    (((state.setRef ip ((state.inode ip).ref + 1)).inode ip).ref - 1) = state := by
  have same : Function.update state.inode ip (state.inode ip) = state.inode :=
    Function.update_eq_self ..
  rw [State.setRef, State.setRef, setInode_setInode, State.setInode_self, Nat.add_sub_cancel,
    State.setInode, same]

/-- An inode is looked up, and the reference dropped at once. It is not freed: it is in
use already, or has not been read. -/
theorem iget_iput_ensures {post : State → Prop} (free : state.itableLock = none) (same : post state)
    (fresh : ∀ ip < ninode, (state.inode ip).ref = 0 →
      post (state.setInode ip { state.inode ip with dev, inum, ref := 0, valid := false }))
    (full : (∀ other < ninode, (state.inode other).ref ≠ 0) →
      allows.panic "iget: no inodes" (state.setItable (some p))) :
    ensures (answer p) allows (iget dev inum) state fun ip middle =>
      ensures (answer p) allows (iput sb ip) middle fun _ => post := by
  apply iget_ensures free _ _ full
  · intro ip _ inUse _ _
    have ref : ((state.setRef ip ((state.inode ip).ref + 1)).inode ip).ref =
        (state.inode ip).ref + 1 := by
      rw [State.setRef, State.setInode_self]
    refine iput_kept free ?_ ?_
    · rw [ref]
      omega
    · rw [setRef_back]
      exact same
  · intro ip small unused _
    have slot : (state.setInode ip
        { state.inode ip with dev, inum, ref := 1, valid := false }).inode ip =
          { state.inode ip with dev, inum, ref := 1, valid := false } := State.setInode_self ..
    refine iput_kept free ?_ ?_
    · rw [slot]
      exact fun last => Bool.noConfusion last.2.1
    · rw [State.setRef, setInode_setInode, slot]
      exact fresh ip small unused

end Back

variable {after state : State} {lost : Set Nat} {sb : Superblock}

theorem Sound.data_same (sound : Sound sb lost state) (valid : inum < sb.ninodes)
    (blocks : ∀ b, (∀ c < sb.size, sb.bblock c ≠ b) → sb.iblock inum ≠ b →
      after.block b = state.block b) (small : j < sb.ninodes)
    (inUse : (diskNode sb state.block j).type ≠ 0) (k : Nat)
    (some : (diskNode sb state.block j).entry state.block k ≠ 0) :
    after.block ((diskNode sb state.block j).entry state.block k) =
      state.block ((diskNode sb state.block j).entry state.block k) := by
  have taken := sound.accounted.taken small inUse some
  apply blocks
  · exact fun c inside => bblock_ne sound.geometry inside taken.1
  · exact iblock_ne sound.geometry valid taken.2.1 taken.1

theorem Sound.removed (sound : Sound sb lost state) (inUse : (state.inode ip).ref ≠ 0)
    (removed : Removed sb lost ip state after) : Sound sb lost after := by
  have inum := (sound.slot ip inUse).2.2
  refine
    { geometry := sound.geometry, quiet := ?_, itable := removed.itableLock.trans sound.itable
      slot := ?_, unique := ?_, loaded := ?_, accounted := removed.accounted, whole := ?_ }
  · rw [removed.held]
    exact sound.quiet
  · intro other used
    by_cases this : other = ip
    · rw [this] at used
      exact absurd removed.unused used
    · rw [removed.slots other this] at used ⊢
      exact sound.slot other used
  · intro first second firstUsed secondUsed
    have notFirst : first ≠ ip := fun this => firstUsed (this ▸ removed.unused)
    have notSecond : second ≠ ip := fun this => secondUsed (this ▸ removed.unused)
    rw [removed.slots first notFirst] at firstUsed ⊢
    rw [removed.slots second notSecond] at secondUsed ⊢
    exact sound.unique first second firstUsed secondUsed
  · intro other used valid
    have different : other ≠ ip := fun this => used (this ▸ removed.unused)
    rw [removed.slots other different] at used valid ⊢
    have loaded := sound.loaded other used valid
    refine ⟨?_, loaded.2⟩
    rw [removed.inodes _ (sound.slot other used).2.2]
    · exact loaded.1
    · exact fun equal => different (sound.unique other ip used inUse equal)
  · intro j small live
    have different : j ≠ (state.inode ip).inum := by
      intro this
      rw [this] at live
      exact live removed.dead
    rw [removed.inodes j small different] at live ⊢
    exact whole_of_same (sound.whole j small live) (sound.data_same inum removed.blocks small live)

/-! ## `ialloc` -/

section Ialloc

variable {sb : Superblock} {lost : Set Nat} {p ip : Nat} {allows : Allows State} {state : State}

variable {type : Nat}

theorem ialloc_ensures {post : Option Nat → State → Prop} (quiet : ∀ b, state.held b = none)
    (inside : 1 ≤ state.outstanding)
    (none : (∀ inum < sb.ninodes, 1 ≤ inum → (diskNode sb state.block inum).type ≠ 0) →
      post none state)
    (found : ∀ inum < sb.ninodes, 1 ≤ inum → (diskNode sb state.block inum).type = 0 →
      ensures (answer p) allows (iget dev inum)
        (state.putNode sb inum { Dinode.zero with type }) fun ip => post (some ip)) :
    ensures (answer p) allows (ialloc sb dev type) state post := by
  have ended : ensures (answer p) allows
      (loop (fun inum _ => iallocAt sb dev type inum) (sb.ninodes - 1) 1 ()) state
      (Prog.Flow.Ends (fun _ => post .none) fun ip => post (some ip)) := by
    -- The inodes so far are in use.
    apply ensures_loop fun inum _ after => after = state ∧
      ∀ i < inum, 1 ≤ i → (diskNode sb state.block i).type ≠ 0
    · refine ⟨rfl, fun i below low => ?_⟩
      omega
    · intro inum _ after low high scanned
      rcases scanned with ⟨rfl, before⟩
      apply bread_then (quiet _)
      split
      · rename_i free
        apply store_then
        refine logWrite_then inside ?_
        rw [State.setHeld_setBlock, State.setHeld_record]
        refine brelse_then (quiet _) ?_
        apply ensures_then (found inum (by omega) low free)
        intro ip last holds
        exact ensures_pure.mpr holds
      · rename_i inUse
        apply brelse_then (quiet _)
        refine ensures_pure.mpr ⟨rfl, fun i below positive => ?_⟩
        by_cases this : i = inum
        · rw [this]
          exact inUse
        · exact before i (by omega) positive
    · intro _ after scanned
      rcases scanned with ⟨rfl, before⟩
      exact none fun inum small positive => before inum (by omega) positive
  apply ensures_then ended
  intro flow after holds
  cases flow with
  | next | done => exact ensures_pure.mpr holds

theorem Sound.putNode (sound : Sound sb lost state) (valid : inum < sb.ninodes)
    (free : (diskNode sb state.block inum).type = 0) (small : type < 2 ^ 16) :
    Sound sb lost (state.putNode sb inum { Dinode.zero with type }) := by
  have blocks : ∀ b, (∀ c < sb.size, sb.bblock c ≠ b) → sb.iblock inum ≠ b →
      (state.putNode sb inum { Dinode.zero with type }).block b = state.block b :=
    fun b _ noInode => putNode_block_of_ne noInode.symm
  have fits : ({ Dinode.zero with type } : Dinode).Fits :=
    { type := small, major := Nat.two_pow_pos 16, minor := Nat.two_pow_pos 16
      nlink := Nat.two_pow_pos 16, size := Nat.two_pow_pos 32
      addr := fun k => Nat.lt_of_le_of_lt (Nat.le_of_eq (Dinode.addr_zero k)) (Nat.two_pow_pos 32) }
  refine { sound with loaded := ?_, accounted := ?_, whole := ?_ }
  · intro ip used isValid
    have loaded := sound.loaded ip used isValid
    refine ⟨?_, loaded.2⟩
    refine loaded.1.trans (diskNode_putNode_of_ne ?_).symm
    intro equal
    have live := loaded.2
    rw [loaded.1, equal] at live
    exact live free
  · apply sound.accounted.putNode sound.geometry valid (fun _ _ => rfl)
    · exact fun k => cell_eq_none_of_dead free
    · exact fits
    · exact .inr Dinode.addr_zero
  · intro j below live
    by_cases this : j = inum
    · rw [this, diskNode_putNode fits]
      exact ⟨Nat.zero_le _, fun bn inside => absurd inside (Nat.not_lt_zero _)⟩
    · rw [diskNode_putNode_of_ne this] at live ⊢
      exact whole_of_same (sound.whole j below live) (sound.data_same valid blocks below live)

end Ialloc

theorem small_sound : Sound .small ∅ .small := by
  have only : ∀ ip, (State.small.inode ip).ref ≠ 0 → ip = 0 := by
    intro ip
    by_cases zero : ip = 0
    · exact fun _ => zero
    · intro used
      exact absurd (if_neg zero) used
  have nodes : State.small.nodes .small 0 = diskNode .small smallDisk := by
    have root : (State.small.inode 0).node = diskNode .small smallDisk rootIno := small_root.symm
    exact (congrArg _ root).trans (Function.update_eq_self ..)
  refine
    { geometry := small_ok, quiet := fun _ => rfl, itable := rfl, slot := ?_, unique := ?_
      loaded := ?_, accounted := nodes ▸ small_opened.accounted, whole := ?_ }
  · intro ip used
    rw [only ip used]
    decide
  · intro ip other used otherUsed _
    rw [only ip used, only other otherUsed]
  · intro ip used _
    rw [only ip used]
    exact ⟨small_root.symm, by decide⟩
  · intro inum valid live
    have bound : inum < 2 := valid
    have cases : inum = 0 ∨ inum = 1 := by omega
    rcases cases with rfl | rfl
    · exact absurd small_free live
    · have root : diskNode .small State.small.block 1 = .root := small_root
      rw [root]
      exact ⟨Nat.zero_le _, fun bn inside => absurd inside (Nat.not_lt_zero _)⟩

end Xv6.Fs
