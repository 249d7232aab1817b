import Xv6.Fs.Readi
import Xv6.Fs.Inode

/-! # What `writei` does

`writei` replaces the bytes of the file from `off` on, and makes the file longer if
they do not fit. It may stop early: when no block is free, or when the source
cannot be read. -/

namespace Xv6.Fs

open Prog

/-! ## Storing into a block of the file -/

section Store

variable {sb : Superblock} {lost : Set Nat} {ip k bn : Nat} {state : State} {data : Block}
  {logged : List Nat} (opened : Opened sb lost state ip)

include opened

theorem Opened.entry_store (data : Block) (logged : List Nat) (notIndirect : k ≠ ndirect)
    (i : Nat) :
    ({ state with block := Function.update state.block (state.entry ip k) data, logged } :
      State).entry ip i = state.entry ip i := by
  apply entry_congr
  · exact fun _ => rfl
  · intro present
    have entry : state.entry ip ndirect = (state.inode ip).node.addr ndirect :=
      entry_of_le (Nat.le_refl _)
    rw [← entry] at present ⊢
    apply Function.update_of_ne
    intro same
    exact notIndirect (opened.entry_inj present same).symm

theorem Extends.store (notIndirect : k ≠ ndirect) (some : state.entry ip k ≠ 0) :
    Extends sb lost ip state
      { state with block := Function.update state.block (state.entry ip k) data, logged } := by
  have inodes : ∀ inum < sb.ninodes,
      Function.update state.block (state.entry ip k) data (sb.iblock inum) =
        state.block (sb.iblock inum) :=
    fun inum valid => Function.update_of_ne (opened.iblock_ne_entry valid some) ..
  refine ⟨.blocks ip state _ _, rfl, ?_, fun i _ => opened.entry_store data logged notIndirect i, inodes,
    ?_⟩
  · apply opened.congr
    · rfl
    · rfl
    · exact opened.fits
    · intro c small
      exact used_setBlock (opened.bblock_ne_entry small some)
    · intro j valid _
      exact congrArg (Dinode.read · _) (inodes j valid)
    · exact opened.entry_store data logged notIndirect
    · intro j valid different inUse present
      exact Function.update_of_ne (opened.indirect_ne different valid inUse present) ..
  · intro b _ notOwned
    apply Function.update_of_ne
    intro same
    exact notOwned ⟨same ▸ some, k, (opened.entry_store data logged notIndirect k).trans same.symm⟩

theorem Opened.byte_store (mapped : state.entry ip (cellOf (i / bsize)) ≠ 0) :
    ({ state with block := Function.update state.block (state.entry ip (cellOf bn)) data, logged } :
      State).byte ip i =
        if i / bsize = bn then data.byteAt (i % bsize) else state.byte ip i := by
  have entry := opened.entry_store data logged (cellOf_ne bn) (cellOf (i / bsize))
  rw [byte_eq (by rw [entry]; exact mapped), entry]
  split
  · rename_i same
    rw [same]
    exact congrArg (Bytes.byteAt · _) (Function.update_self ..)
  · rename_i different
    rw [byte_eq mapped]
    apply congrArg (Bytes.byteAt · _)
    apply Function.update_of_ne
    intro same
    exact different (cellOf_inj (opened.entry_inj mapped same))

end Store

theorem Grows.byte (grows : Grows sb lost ip state after) (i : Nat) :
    after.byte ip i = state.byte ip i := by
  by_cases empty : state.entry ip (cellOf (i / bsize)) = 0
  · rw [byte_eq_zero empty]
    by_cases still : after.entry ip (cellOf (i / bsize)) = 0
    · exact byte_eq_zero still
    · rw [byte_eq still, grows.fresh _ (cellOf_ne _) empty still]
      exact dif_pos (Nat.mod_lt i (by decide))
  · have kept := grows.kept _ empty
    rw [byte_eq empty, byte_eq (by rw [kept]; exact empty), kept, grows.data _ (cellOf_ne _) empty]

/-! ## The loop -/

/-- `writei` has stored `tot` bytes, up to the end of a block or all of them, and not
yet changed the size. The bytes are known if all of the source can be read. -/
structure Written (sb : Superblock) (lost : Set Nat) (ip : Nat) (src : List UInt8)
    (off n tot : Nat) (state after : State) : Prop extends Extends sb lost ip state after where
  short : tot ≤ n
  stops : tot = 0 ∨ tot = n ∨ (off + tot) % bsize = 0
  mapped : ∀ i, i < (state.inode ip).node.size ∨ i < off + tot →
    after.entry ip (cellOf (i / bsize)) ≠ 0
  bytes : n ≤ src.length → ∀ i, i < (state.inode ip).node.size ∨ i < off + tot →
    after.byte ip i =
      if off ≤ i ∧ i < off + tot then src.getD (i - off) 0 else state.byte ip i

section Loop

variable {sb : Superblock} {lost : Set Nat} {ip : Nat} {src : List UInt8} {off n tot : Nat}
  {state middle after : State}

theorem Written.zero (opened : Opened sb lost state ip) (whole : Whole state ip)
    (start : off ≤ (state.inode ip).node.size) : Written sb lost ip src off n 0 state state where
  toExtends := .refl opened
  short := Nat.zero_le _
  stops := .inl rfl
  mapped := fun i inside => whole.mapped.of_lt (by omega)
  bytes := by
    intro _ i _
    rw [if_neg (by omega)]

section

variable (written : Written sb lost ip src off n tot state middle)

include written

theorem Written.grow (grows : Grows sb lost ip middle after) :
    Written sb lost ip src off n tot state after where
  toExtends := written.toExtends.trans grows.toExtends
  short := written.short
  stops := written.stops
  mapped := by
    intro i inside
    have some := written.mapped i inside
    rw [grows.kept _ some]
    exact some
  bytes := by
    intro readable i inside
    rw [grows.byte]
    exact written.bytes readable i inside

theorem Written.store (some : middle.entry ip (cellOf ((off + tot) / bsize)) ≠ 0)
    (fits : tot + m ≤ n) (short : m ≤ bsize - (off + tot) % bsize) (readable : tot + m ≤ src.length)
    (stops : tot + m = n ∨ (off + (tot + m)) % bsize = 0) (logged : List Nat) :
    Written sb lost ip src off n (tot + m) state
      { middle with
        block := Function.update middle.block (middle.entry ip (cellOf ((off + tot) / bsize)))
          ((middle.block (middle.entry ip (cellOf ((off + tot) / bsize)))).write
            ((off + tot) % bsize) ((src.drop tot).take m))
        logged } := by
  have opened := written.opened
  have length : ((src.drop tot).take m).length = m := by
    simp
    omega
  -- The new bytes are in the block that is written.
  have same : ∀ i, off + tot ≤ i → i < off + tot + m → i / bsize = (off + tot) / bsize ∧
      i % bsize = (off + tot) % bsize + (i - (off + tot)) := by
    intro i low high
    have small : (off + tot) % bsize + (i - (off + tot)) < bsize := by omega
    have position := block_of_add small
    rw [Nat.add_sub_of_le low] at position
    exact position
  have mapped : ∀ i, i < (state.inode ip).node.size ∨ i < off + (tot + m) →
      middle.entry ip (cellOf (i / bsize)) ≠ 0 := by
    intro i inside
    by_cases before : i < (state.inode ip).node.size ∨ i < off + tot
    · exact written.mapped i before
    · rw [(same i (by omega) (by omega)).1]
      exact some
  refine ⟨written.toExtends.trans (.store opened (cellOf_ne _) some), fits, .inr stops, ?_, ?_⟩
  · intro i inside
    rw [opened.entry_store _ _ (cellOf_ne _)]
    exact mapped i inside
  · intro all i inside
    rw [opened.byte_store (mapped i inside)]
    by_cases new : off + tot ≤ i ∧ i < off + tot + m
    · rcases same i new.1 new.2 with ⟨sameBlock, position⟩
      rw [if_pos sameBlock, if_pos (by omega), position,
        Bytes.byteAt_write_inside _ _ (by omega) (by omega) (by omega)]
      have index : tot + (i - (off + tot)) = i - off := by omega
      rw [Nat.add_sub_cancel_left, List.getD_eq_getElem?_getD, List.getElem?_take_of_lt (by omega),
        List.getElem?_drop, index, List.getD_eq_getElem?_getD]
    · have old : i < (state.inode ip).node.size ∨ i < off + tot := by omega
      have bytes := written.bytes all i old
      have range : (off ≤ i ∧ i < off + (tot + m)) ↔ (off ≤ i ∧ i < off + tot) := by omega
      rw [if_congr range rfl rfl, ← bytes]
      split
      · rename_i sameBlock
        rw [Bytes.byteAt_write_outside, byte_eq (written.mapped i old), sameBlock]
        have start := Nat.div_add_mod (off + tot) bsize
        have position := Nat.div_add_mod i bsize
        rw [sameBlock] at position
        rw [length]
        omega
      · rfl

theorem Written.fault (some : middle.entry ip (cellOf ((off + tot) / bsize)) ≠ 0)
    (stops : src.length < n) (data : Block) :
    Written sb lost ip src off n tot state
      (middle.setBlock (middle.entry ip (cellOf ((off + tot) / bsize))) data) where
  toExtends := written.toExtends.trans (.store written.opened (cellOf_ne _) some)
  short := written.short
  stops := written.stops
  mapped := by
    intro i inside
    have entry := written.opened.entry_store data middle.logged
      (cellOf_ne ((off + tot) / bsize)) (cellOf (i / bsize))
    exact fun zero => written.mapped i inside (entry.symm.trans zero)
  bytes := by
    intro readable
    omega

end

variable {p : Nat} {allows : Allows State}

theorem writeiIn_ensures {post : Prog.Flow Nat Nat → State → Prop}
    (written : Written sb lost ip src off n tot state middle) (quiet : ∀ b, middle.held b = none)
    (inside : 1 ≤ middle.outstanding) (bound : off + n ≤ maxFile * bsize) (more : tot < n)
    (full : ∀ after, Written sb lost ip src off n tot state after → Full sb after.block →
      (state.inode ip).node.size ≤ off + tot → post (.done tot) after)
    (fault : ∀ after, Written sb lost ip src off n tot state after → src.length < n →
      post (.done tot) after)
    (next : ∀ m after, 0 < m → Written sb lost ip src off n (tot + m) state after →
      post (.next (tot + m)) after) :
    ensures (answer p) allows (writeiIn sb ip src off n tot) middle post := by
  have small : (off + tot) / bsize < maxFile := by
    apply Nat.div_lt_of_lt_mul
    rw [Nat.mul_comm]
    omega
  have modLt : (off + tot) % bsize < bsize := Nat.mod_lt _ (by decide)
  rw [writeiIn, if_pos more]
  refine ensures_bind.mpr (bmap_ensures written.opened quiet inside small ?_ ?_)
  · intro after grows isFull empty
    rw [if_pos rfl]
    apply ensures_pure.mpr
    apply full after (written.grow grows) isFull
    by_contra before
    exact written.mapped (off + tot) (by omega) empty
  · intro after grows some
    have grown := written.grow grows
    have free : ∀ b, after.held b = none := by
      rw [grows.same.held]
      exact quiet
    rw [if_neg some]
    apply bread_then (free _)
    dsimp only
    apply store_then
    rw [State.setHeld_setBlock, State.setHeld_block]
    split
    · rename_i unreadable
      refine brelse_then (free _) ?_
      apply ensures_pure.mpr
      exact fault _ (grown.fault some (by omega) _) (by omega)
    · rename_i readable
      refine logWrite_then ?_ ?_
      · rw [State.setHeld_outstanding, State.setBlock_outstanding, grows.same.outstanding]
        exact inside
      · rw [State.setHeld_record]
        refine brelse_then (free _) ?_
        apply ensures_pure.mpr
        have stops : tot + min (n - tot) (bsize - (off + tot) % bsize) = n ∨
            (off + (tot + min (n - tot) (bsize - (off + tot) % bsize))) % bsize = 0 := by
          by_cases last : n - tot ≤ bsize - (off + tot) % bsize
          · left
            omega
          · right
            have split := Nat.div_add_mod (off + tot) bsize
            have full : off + (tot + min (n - tot) (bsize - (off + tot) % bsize)) =
                bsize * ((off + tot) / bsize + 1) := by
              rw [Nat.mul_succ]
              omega
            rw [full, Nat.mul_mod_right]
        exact next _ _ (by omega)
          (grown.store some (by omega) (by omega) (Nat.not_lt.mp readable) stops _)

/-- The loop of `writei` stops where it has written all, or where no block is free,
or where the source cannot be read. -/
theorem writeiLoop_ensures (opened : Opened sb lost state ip) (whole : Whole state ip)
    (quiet : ∀ b, state.held b = none) (inside : 1 ≤ state.outstanding)
    (start : off ≤ (state.inode ip).node.size) (bound : off + n ≤ maxFile * bsize)
    {post : Nat → State → Prop}
    (holds : ∀ tot after, Written sb lost ip src off n tot state after →
      (tot < n → n ≤ src.length → Full sb after.block ∧
        (state.inode ip).node.size ≤ off + tot) → post tot after) :
    ensures (answer p) allows (loop (fun _ tot => writeiIn sb ip src off n tot) n 0 0) state
      (Prog.Flow.Ends post post) := by
  -- A round writes at least one byte, so that `n` rounds are enough.
  apply ensures_loop fun i tot after => i ≤ tot ∧ Written sb lost ip src off n tot state after
  · exact ⟨Nat.le_refl _, .zero opened whole start⟩
  · intro i tot middle _ _ reached
    rcases reached with ⟨rounds, written⟩
    by_cases more : tot < n
    · apply writeiIn_ensures written _ _ bound more
      · intro after ended isFull atEnd
        exact holds tot after ended fun _ _ => ⟨isFull, atEnd⟩
      · intro after ended stops
        exact holds tot after ended fun _ readable => absurd readable (Nat.not_le.mpr stops)
      · intro m after positive ended
        exact ⟨by omega, ended⟩
      · rw [written.same.held]
        exact quiet
      · rw [written.same.outstanding]
        exact inside
    · rw [writeiIn, if_neg more]
      exact ensures_pure.mpr (holds tot middle written fun less => absurd less more)
  · intro tot after reached
    rcases reached with ⟨rounds, written⟩
    exact holds tot after written fun less => absurd less (by omega)

end Loop

/-! ## The size -/

/-- `writei` has returned `tot`. -/
structure Wrote (sb : Superblock) (lost : Set Nat) (ip : Nat) (src : List UInt8)
    (off n tot : Nat) (state after : State) : Prop where
  same : OnlyNode ip state after
  opened : Opened sb lost after ip
  whole : Whole after ip
  node : (after.inode ip).node =
    { (state.inode ip).node with
      size := max (state.inode ip).node.size (off + tot)
      addrs := (after.inode ip).node.addrs }
  stored : diskNode sb after.block (state.inode ip).inum = (after.inode ip).node
  inodes : ∀ j < sb.ninodes, j ≠ (state.inode ip).inum →
    diskNode sb after.block j = diskNode sb state.block j
  kept : ∀ k, state.entry ip k ≠ 0 → after.entry ip k = state.entry ip k
  others : ∀ b, (∀ c < sb.size, sb.bblock c ≠ b) → sb.iblock (state.inode ip).inum ≠ b →
    ¬ Owns after ip b → after.block b = state.block b
  short : tot ≤ n
  stops : tot = 0 ∨ tot = n ∨ (off + tot) % bsize = 0
  contents : n ≤ src.length → after.contents ip = splice (state.contents ip) off (src.take tot)

section Size

variable {sb : Superblock} {lost : Set Nat} {ip : Nat} {src : List UInt8} {off n tot : Nat}
  {state middle after : State} {p : Nat} {allows : Allows State}

theorem entry_setSize (size k : Nat) :
    (state.setNode ip { (state.inode ip).node with size }).entry ip k = state.entry ip k := by
  rw [State.entry, setNode_inode]
  rfl

theorem byte_setSize (size i : Nat) :
    (state.setNode ip { (state.inode ip).node with size }).byte ip i = state.byte ip i := by
  rw [State.byte, setNode_inode]
  rfl

theorem growTo_ensures {post : Unit → State → Prop}
    (holds : post () (state.setNode ip
      { (state.inode ip).node with size := max (state.inode ip).node.size off })) :
    ensures (answer p) allows (growTo ip off) state post := by
  apply inode_then
  split
  · rename_i longer
    rw [Nat.max_eq_right (Nat.le_of_lt longer)] at holds
    exact update_ensures holds
  · rename_i inside
    rw [Nat.max_eq_left (Nat.not_lt.mp inside)] at holds
    have same : { (state.inode ip).node with size := (state.inode ip).node.size } =
        (state.inode ip).node := rfl
    rw [same, setNode_self] at holds
    exact ensures_pure.mpr holds

theorem Opened.byte_flush (opened : Opened sb lost state ip) (i : Nat) :
    (state.flush sb ip).byte ip i = state.byte ip i := by
  have entry := opened.entry_flush (cellOf (i / bsize))
  by_cases empty : state.entry ip (cellOf (i / bsize)) = 0
  · rw [byte_eq_zero empty, byte_eq_zero (entry.trans empty)]
  · have taken := opened.taken empty
    rw [byte_eq empty, byte_eq (by rw [entry]; exact empty), entry,
      opened.flush_data taken.1 taken.2.1]

theorem Written.finish (written : Written sb lost ip src off n tot state middle)
    (whole : Whole state ip) (start : off ≤ (state.inode ip).node.size)
    (bound : off + n ≤ maxFile * bsize) :
    Wrote sb lost ip src off n tot state
      ((middle.setNode ip { (middle.inode ip).node with
        size := max (middle.inode ip).node.size (off + tot) }).flush sb ip) := by
  have short := written.short
  have bounded := whole.bounded
  have limit : max (state.inode ip).node.size (off + tot) ≤ maxFile * bsize := by omega
  have small : max (state.inode ip).node.size (off + tot) < 2 ^ 32 := by
    have : maxFile * bsize = 274432 := rfl
    omega
  rw [written.size]
  generalize sizeEq : max (state.inode ip).node.size (off + tot) = size at limit small
  have sized := written.opened.setSize small
  have slot := setNode_inode middle ip { (middle.inode ip).node with size }
  have inum : ((middle.setNode ip { (middle.inode ip).node with size }).inode ip).inum =
      (state.inode ip).inum := by
    rw [slot]
    exact written.same.inum
  have entry : ∀ k, ((middle.setNode ip { (middle.inode ip).node with size }).flush sb ip).entry
      ip k = middle.entry ip k :=
    fun k => (sized.entry_flush k).trans (entry_setSize size k)
  have byte : ∀ i, ((middle.setNode ip { (middle.inode ip).node with size }).flush sb ip).byte
      ip i = middle.byte ip i :=
    fun i => (sized.byte_flush i).trans (byte_setSize size i)
  have sizes : (((middle.setNode ip { (middle.inode ip).node with size }).flush sb ip).inode
      ip).node.size = size := congrArg (fun inode : Inode => inode.node.size) slot
  refine
    { same := (written.same.trans (.setNode ip middle _)).trans (.blocks ip _ _ _)
      opened := sized.flush, whole := ⟨Nat.le_trans (Nat.le_of_eq sizes) limit, ?_⟩, node := ?_
      stored := ?_, inodes := ?_, kept := fun k some => (entry k).trans (written.kept k some)
      others := ?_, short := short, stops := written.stops, contents := ?_ }
  · intro bn inside
    rw [sizes] at inside
    have block : bn * bsize / bsize = bn := Nat.mul_div_cancel _ (by decide)
    have mapped := written.mapped (bn * bsize) (by omega)
    rw [block] at mapped
    exact fun zero => mapped ((entry _).symm.trans zero)
  · have whatever : (((middle.setNode ip { (middle.inode ip).node with size }).flush sb ip).inode
        ip).node = { (middle.inode ip).node with size } := congrArg Inode.node slot
    rw [whatever, written.addrs, sizeEq]
  · rw [← inum]
    exact diskNode_flush sized.fits
  · intro j valid different
    refine (diskNode_putNode_of_ne (by rw [inum]; exact different)).trans ?_
    exact congrArg (Dinode.read · _) (written.inodes j valid)
  · intro b noBitmap noInode notOwned
    refine (putNode_block_of_ne (by rw [inum]; exact noInode.symm)).trans ?_
    apply written.others b noBitmap
    intro owns
    rcases owns with ⟨nonzero, k, same⟩
    exact notOwned ⟨nonzero, k, (entry k).trans same⟩
  · intro readable
    have length : (src.take tot).length = tot := by
      simp
      omega
    apply contents_eq_splice start
    · rw [length, sizeEq]
      exact sizes
    · intro i inside
      rw [length] at inside
      refine (byte _).trans ?_
      rw [written.bytes readable _ (by omega), if_pos (by omega), Nat.add_sub_cancel_left,
        List.getD_eq_getElem?_getD, List.getElem?_eq_getElem (by omega), List.getElem_take]
      rfl
    · intro i old outside
      rw [length] at outside
      refine (byte i).trans ?_
      rw [written.bytes readable i (.inl old), if_neg (by omega)]
      rfl

theorem writei_ensures (opened : Opened sb lost state ip) (whole : Whole state ip)
    (quiet : ∀ b, state.held b = none) (inside : 1 ≤ state.outstanding) (small : n < 2 ^ 32)
    {post : Int → State → Prop}
    (refused : (state.inode ip).node.size < off ∨ uint (off + n) < off ∨
      maxFile * bsize < uint (off + n) → post (-1) state)
    (holds : ∀ tot after, off ≤ (state.inode ip).node.size → off + n ≤ maxFile * bsize →
      Wrote sb lost ip src off n tot state after →
      (tot < n → n ≤ src.length → Full sb after.block ∧
        (state.inode ip).node.size ≤ off + tot) → post tot after) :
    ensures (answer p) allows (writei sb ip src off n) state post := by
  apply inode_then
  by_cases outside : off > (state.inode ip).node.size ∨ uint (off + n) < off
  · rw [if_pos outside]
    exact ensures_pure.mpr (refused (by omega))
  · rw [if_neg outside]
    by_cases tooLong : uint (off + n) > maxFile * bsize
    · rw [if_pos tooLong]
      exact ensures_pure.mpr (refused (.inr (.inr tooLong)))
    · have start : off ≤ (state.inode ip).node.size := by omega
      have bound : off + n ≤ maxFile * bsize := by
        have := whole.bounded
        have : maxFile * bsize = 274432 := rfl
        have noWrap : uint (off + n) = off + n := by
          apply Nat.mod_eq_of_lt
          rw [uint] at outside
          omega
        omega
      rw [if_neg tooLong]
      apply ensures_then (writeiLoop_ensures opened whole quiet inside start bound
        (fun tot after written full => (⟨written, full⟩ :
          Written sb lost ip src off n tot state after ∧
            (tot < n → n ≤ src.length → Full sb after.block ∧
              (state.inode ip).node.size ≤ off + tot))))
      intro flow middle ended
      have finish : ∀ tot, Written sb lost ip src off n tot state middle →
          (tot < n → n ≤ src.length → Full sb middle.block ∧
            (state.inode ip).node.size ≤ off + tot) →
          ensures (answer p) allows (do
            growTo ip (off + tot)
            iupdate sb ip
            return (tot : Int)) middle post := by
        intro tot written full
        refine ensures_bind.mpr (growTo_ensures ?_)
        refine ensures_bind.mpr (iupdate_ensures ?_ ?_ ?_)
        · exact (congrFun written.same.held _).trans (quiet _)
        · exact Nat.le_trans inside (Nat.le_of_eq written.same.outstanding.symm)
        · apply ensures_pure.mpr
          apply holds tot _ start bound (written.finish whole start bound)
          intro less readable
          rcases full less readable with ⟨isFull, atEnd⟩
          refine ⟨fun b small => ?_, atEnd⟩
          refine (used_putNode opened.geometry ?_ b).trans (isFull b small)
          rw [setNode_inode]
          exact written.opened.valid
      cases flow with
      | next tot | done tot => exact finish tot ended.1 ended.2

end Size

/-! ## The law of reading and writing -/

section Law

variable {sb : Superblock} {lost : Set Nat} {ip : Nat} {src : List UInt8} {off n tot : Nat}
  {state after : State}

end Law

end Xv6.Fs
