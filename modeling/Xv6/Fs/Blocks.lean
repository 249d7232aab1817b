import Xv6.Fs.Rules
import Xv6.Fs.Space

/-! # What the block allocator does -/

namespace Xv6.Fs

open Prog

variable {i : Nat}

section Scan

variable {sb : Superblock} {data : Block} {b count bi found : Nat}

theorem freeBit_eq_some (here : freeBit sb data b count bi = some found) :
    bi ≤ found ∧ found < bi + count ∧ b + found < sb.size ∧ bit data found = false ∧
      ∀ i, bi ≤ i → i < found → bit data i = true := by
  induction count generalizing bi with
  | zero => cases here
  | succ count induction =>
    rw [freeBit] at here
    split at here
    · rename_i inside
      split at here
      · rename_i set
        rcases induction here with ⟨low, high, bound, clear, before⟩
        refine ⟨by omega, by omega, bound, clear, fun i lower upper => ?_⟩
        by_cases same : i = bi
        · rw [same]
          exact set
        · exact before i (by omega) upper
      · rename_i clear
        cases here
        refine ⟨Nat.le_refl _, by omega, inside, by simpa using clear, fun i lower upper => ?_⟩
        omega
    · cases here

theorem freeBit_eq_none (nowhere : freeBit sb data b count bi = none) (low : bi ≤ i)
    (high : i < bi + count) (inside : b + i < sb.size) : bit data i = true := by
  induction count generalizing bi with
  | zero => omega
  | succ count induction =>
    rw [freeBit, if_pos (by omega)] at nowhere
    split at nowhere
    · rename_i set
      by_cases same : i = bi
      · rw [same]
        exact set
      · exact induction nowhere (by omega) (by omega)
    · cases nowhere

end Scan

/-- The state after `balloc` has returned `b`. -/
def State.allocate (sb : Superblock) (state : State) (b : Nat) : State :=
  { (state.record (sb.bblock b)).record b with block := Fs.allocate sb state.block b }

/-- The state after `bfree(b)`. -/
def State.unmark (sb : Superblock) (state : State) (b : Nat) : State :=
  { state.record (sb.bblock b) with block := Fs.unmark sb state.block b }

section Specs

variable {sb : Superblock} {p : Nat} {allows : Allows State} {state : State}

variable {post : Unit → State → Prop}

theorem bzero_ensures (free : state.held bno = none) (inside : 1 ≤ state.outstanding)
    (holds : post () ((state.setBlock bno fun _ => 0).record bno)) :
    ensures (answer p) allows (bzero bno) state post := by
  apply bread_then free
  apply store_then
  refine logWrite_then inside ?_
  rw [State.setHeld_setBlock, State.setHeld_record]
  exact brelse_ensures free holds

theorem bblock_block (sb : Superblock) (b i : Nat) (small : i < bpb) :
    sb.bblock (b * bpb + i) = sb.bblock (b * bpb) ∧ (b * bpb + i) % bpb = i := by
  have positive : 0 < bpb := by decide
  constructor
  · rw [Superblock.bblock, Superblock.bblock, Nat.mul_comm, Nat.mul_add_div positive,
      Nat.div_eq_of_lt small, Nat.mul_div_cancel_left _ positive, Nat.add_zero]
  · rw [Nat.mul_comm, Nat.mul_add_mod, Nat.mod_eq_of_lt small]

theorem ballocIn_ensures {post : Prog.Flow Unit Nat → State → Prop}
    (bitmap : state.held (sb.bblock (i * bpb)) = none)
    (free : ∀ b < sb.size, used sb state.block b = false → state.held b = none)
    (inside : 1 ≤ state.outstanding)
    (none : (∀ b, i * bpb ≤ b → b < (i + 1) * bpb → b < sb.size →
      used sb state.block b = true) → post (.next ()) state)
    (some : ∀ b < sb.size, used sb state.block b = false →
      (∀ c, i * bpb ≤ c → c < b → used sb state.block c = true) →
      post (.done b) (state.allocate sb b)) :
    ensures (answer p) allows (ballocIn sb (i * bpb)) state post := by
  have used_eq : ∀ j < bpb, used sb state.block (i * bpb + j) =
      bit (state.block (sb.bblock (i * bpb))) j := by
    intro j small
    rcases bblock_block sb i j small with ⟨sameBlock, sameBit⟩
    rw [used, sameBlock, sameBit]
  apply bread_then bitmap
  cases scan : freeBit sb (state.block (sb.bblock (i * bpb))) (i * bpb) bpb 0 with
  | none =>
    dsimp only
    apply brelse_then bitmap
    apply ensures_pure.mpr
    apply none
    intro b low high small
    have position : i * bpb + (b - i * bpb) = b := by omega
    have range : b - i * bpb < bpb := by
      rw [Nat.succ_mul] at high
      omega
    rw [← position, used_eq _ range]
    exact freeBit_eq_none scan (Nat.zero_le _) (by omega) (by omega)
  | some j =>
    rcases freeBit_eq_some scan with ⟨_, high, bound, clear, before⟩
    rw [Nat.zero_add] at high
    rcases bblock_block sb i j high with ⟨sameBlock, sameBit⟩
    have isFree : used sb state.block (i * bpb + j) = false := (used_eq j high).trans clear
    dsimp only
    apply store_then
    refine logWrite_then inside ?_
    rw [State.setHeld_setBlock, State.setHeld_record]
    refine brelse_then bitmap ?_
    refine ensures_bind.mpr (bzero_ensures (free _ bound isFree) inside ?_)
    apply ensures_pure.mpr
    have ends := some (i * bpb + j) bound isFree (by
      intro c low upper
      have position : i * bpb + (c - i * bpb) = c := by omega
      rw [← position, used_eq _ (by omega)]
      exact before _ (Nat.zero_le _) (by omega))
    rw [State.allocate, Fs.allocate, sameBlock, sameBit] at ends
    exact ends

/-- `balloc` returns zero if every block is in use, and otherwise the first free
block. -/
theorem balloc_ensures {post : Nat → State → Prop}
    (bitmap : ∀ b < sb.size, state.held (sb.bblock b) = none)
    (free : ∀ b < sb.size, used sb state.block b = false → state.held b = none)
    (inside : 1 ≤ state.outstanding)
    (none : (∀ b < sb.size, used sb state.block b = true) → post 0 state)
    (some : ∀ b < sb.size, used sb state.block b = false →
      (∀ c < b, used sb state.block c = true) → post b (state.allocate sb b)) :
    ensures (answer p) allows (balloc sb) state post := by
  have ended : ensures (answer p) allows
      (loop (fun i _ => ballocIn sb (i * bpb)) ((sb.size + bpb - 1) / bpb) 0 ()) state
      (Prog.Flow.Ends (fun _ => post 0) post) := by
    -- The rounds so far have found no free block, and changed nothing.
    apply ensures_loop fun i _ after =>
      after = state ∧ ∀ b < i * bpb, b < sb.size → used sb state.block b = true
    · refine ⟨rfl, fun b low => ?_⟩
      omega
    · intro i _ after _ more scanned
      rcases scanned with ⟨rfl, before⟩
      have first : i * bpb < sb.size := by
        have := Nat.div_mul_le_self (sb.size + bpb - 1) bpb
        have : (i + 1) * bpb ≤ (sb.size + bpb - 1) / bpb * bpb :=
          Nat.mul_le_mul_right bpb (by omega)
        rw [Nat.succ_mul] at this
        have : bpb = 8192 := rfl
        omega
      apply ballocIn_ensures (bitmap _ first) free inside
      · intro chunk
        refine ⟨rfl, fun b low small => ?_⟩
        by_cases earlier : b < i * bpb
        · exact before b earlier small
        · exact chunk b (by omega) low small
      · intro b small isFree chunk
        apply some b small isFree
        intro c low
        by_cases earlier : c < i * bpb
        · exact before c earlier (by omega)
        · exact chunk c (by omega) low
    · intro _ after scanned
      rcases scanned with ⟨rfl, before⟩
      apply none
      intro b small
      apply before b _ small
      have positive : 0 < bpb := by decide
      have := Nat.div_add_mod (sb.size + bpb - 1) bpb
      have := Nat.mod_lt (sb.size + bpb - 1) positive
      rw [Nat.zero_add, Nat.mul_comm]
      omega
  apply ensures_then ended
  intro flow after holds
  cases flow with
  | next | done => exact ensures_pure.mpr holds

theorem bfree_ensures (bitmap : state.held (sb.bblock b) = none) (inside : 1 ≤ state.outstanding)
    (inUse : used sb state.block b = true) (holds : post () (state.unmark sb b)) :
    ensures (answer p) allows (bfree sb b) state post := by
  apply bread_then bitmap
  rw [used] at inUse
  rw [if_pos inUse]
  apply store_then
  refine logWrite_then inside ?_
  rw [State.setHeld_setBlock, State.setHeld_record]
  exact brelse_ensures bitmap holds

end Specs

/-! ## A small file system

A disk of eight blocks with a root directory that has no entries, and a process with
the number zero whose working directory it is. -/

def Superblock.small : Superblock where
  magic := 0x10203040
  size := 8
  nblocks := 4
  ninodes := 2
  nlog := 0
  logstart := 2
  inodestart := 2
  bmapstart := 3

/-- The inode of the root directory. -/
def Dinode.root : Dinode := { zero with type := tDir, nlink := 1 }

/-- The blocks of the small disk: the inodes are in block 2, the bitmap in block 3. -/
def smallDisk (b : Nat) : Block :=
  if b = 2 then Dinode.write (fun _ => 0) rootIno .root
  else if b = 3 then fun i => if i.val = 0 then 15 else 0
  else fun _ => 0

/-- The file system while one operation is outstanding. -/
def State.small : State where
  block := smallDisk
  held := fun _ => none
  committed := smallDisk
  logged := []
  outstanding := 1
  itableLock := none
  inode := fun ip =>
    { dev := rootDev, inum := if ip = 0 then rootIno else 0, ref := if ip = 0 then 1 else 0,
      lock := none, valid := ip == 0, node := if ip = 0 then .root else .zero }

/-! ## The scan of the bitmap -/

/-- `balloc` gives zero and changes nothing if every bit is set, and otherwise sets
the first clear bit and zeroes its block; `bfree` clears the bit it is given, and
takes back what `balloc` did. The blocks of the bitmap must be marked in it: `balloc`
would give them away and zero them. -/
theorem balloc_scan (sb : Superblock) (p : Nat) (state : State)
    (quiet : ∀ b, state.held b = none) (inside : 1 ≤ state.outstanding)
    (boot : used sb state.block 0 = true)
    (bitmap : ∀ c < sb.size, sb.bblock c < sb.size → used sb state.block (sb.bblock c) = true)
    (answers : List Nat) :
    (∃ b after, exec (answer p) (balloc sb) state answers = .next (b, after) ∧
      (b = 0 ↔ ∀ c < sb.size, used sb state.block c = true) ∧ (b = 0 → after = state) ∧
      (b ≠ 0 → b < sb.size ∧ used sb state.block b = false ∧
        (∀ c < b, used sb state.block c = true) ∧
        after.block b = (fun _ => 0) ∧
        after.block (sb.bblock b) = setBit (state.block (sb.bblock b)) (b % bpb) ∧
        (∀ c, c ≠ b → c ≠ sb.bblock b → after.block c = state.block c) ∧
        (∀ c < sb.size, used sb after.block c = (decide (c = b) || used sb state.block c)) ∧
        ∃ last, exec (answer p) (bfree sb b) after answers = .next ((), last) ∧
          ∀ c < sb.size, used sb last.block c = used sb state.block c)) ∧
    ∀ b, used sb state.block b = true →
      ∃ last, exec (answer p) (bfree sb b) state answers = .next ((), last) ∧
        (∀ c, used sb last.block c = (!decide (c = b) && used sb state.block c)) ∧
        ∀ c, c ≠ sb.bblock b → last.block c = state.block c := by
  have freed : ∀ (before : State) b, (∀ b, before.held b = none) → 1 ≤ before.outstanding →
      used sb before.block b = true →
      ∃ last, exec (answer p) (bfree sb b) before answers = .next ((), last) ∧
        last = before.unmark sb b := by
    intro before b quiet inside inUse
    have ends : ensures (answer p) .nothing (bfree sb b) before
        fun _ last => last = before.unmark sb b := bfree_ensures (quiet _) inside inUse rfl
    rcases exec_returns ends answers with ⟨_, last, ended, equal⟩
    exact ⟨last, ended, equal⟩
  constructor
  · apply exec_returns
    apply balloc_ensures (fun _ _ => quiet _) (fun _ _ _ => quiet _) inside
    · exact fun full => ⟨iff_of_true rfl full, fun _ => rfl, fun impossible => absurd rfl impossible⟩
    · intro b small free least
      have apart : ∀ c < sb.size, sb.bblock c ≠ b := by
        intro c bound equal
        rw [← equal, bitmap c bound (equal ▸ small)] at free
        cases free
      have nonzero : b ≠ 0 := by
        intro equal
        rw [equal, boot] at free
        cases free
      have bits : ∀ c < sb.size, used sb (state.allocate sb b).block c =
          (decide (c = b) || used sb state.block c) := fun c bound =>
        used_allocate (apart c bound)
      refine ⟨⟨fun zero => absurd zero nonzero, fun full => ?_⟩,
        fun zero => absurd zero nonzero, fun _ => ⟨small, free, least, allocate_self, ?_,
          fun c different noBitmap => allocate_of_ne different noBitmap, bits, ?_⟩⟩
      · rw [full b small] at free
        cases free
      · exact (Function.update_of_ne (apart b small) ..).trans (Function.update_self ..)
      · rcases freed (state.allocate sb b) b quiet inside (by rw [bits b small]; simp) with
          ⟨last, ended, rfl⟩
        refine ⟨_, ended, fun c bound => ?_⟩
        refine used_unmark.trans ?_
        rw [bits c bound]
        by_cases same : c = b
        · simp [same, free]
        · simp [same]
  · intro b inUse
    rcases freed state b quiet inside inUse with ⟨last, ended, rfl⟩
    exact ⟨_, ended, fun _ => used_unmark, fun _ different => unmark_of_ne different⟩

theorem balloc_scan_small : used .small smallDisk 0 = true ∧
    ∃ b after, exec (answer 0) (balloc .small) .small [] = .next (b, after) ∧
      (b = 0 ↔ ∀ c < 8, used .small smallDisk c = true) := by
  have bitmap : ∀ c < 8, Superblock.small.bblock c < 8 →
      used .small smallDisk (Superblock.small.bblock c) = true := by decide +kernel
  refine ⟨by decide +kernel, ?_⟩
  rcases (balloc_scan .small 0 .small (fun _ => rfl) (Nat.le_refl 1) (by decide +kernel) bitmap
    []).1 with ⟨b, after, ended, zero, _⟩
  exact ⟨b, after, ended, zero⟩

/-- A disk whose bitmap marks the blocks zero to two, but not its own block. -/
def strayDisk : State :=
  State.small.setBlock 3 fun i => if i.val = 0 then 7 else 0

/-- `balloc` gives away the block of the bitmap, and block zero is free after that. -/
theorem balloc_zeroes_bitmap : used .small strayDisk.block 0 = true ∧
    ∃ after, exec (answer 0) (balloc .small) strayDisk [] = .next (3, after) ∧
      used .small after.block 0 = false := by
  have ended := Outcome.eq_next_pair (0, strayDisk) (show
    (exec (answer 0) (balloc .small) strayDisk []).isNext = true by decide +kernel) (show _ = 3 by
      decide +kernel)
  exact ⟨by decide +kernel, _, ended, by decide +kernel⟩

end Xv6.Fs
