import Xv6.Fs.Directory

/-! # A directory is a finite map

Names are looked up in a directory, linked and removed in any order. Seen from
outside, the directory is a list of slots that binds each name at most once. -/

namespace Xv6.Fs

open Prog

/-- The directory in slot `dp` of the table, inside a transaction: it has no holes, its
entries are whole, and no name occurs twice. -/
structure IsDirectory (sb : Superblock) (lost : Set Nat) (dp : Nat) (state : State) : Prop where
  opened : Opened sb lost state dp
  whole : Whole state dp
  isDir : (state.inode dp).node.type = tDir
  inUse : (state.inode dp).ref ≠ 0
  quiet : ∀ b, state.held b = none
  itable : state.itableLock = none
  inside : 1 ≤ state.outstanding
  aligned : (state.inode dp).node.size % direntSize = 0
  distinct : (state.slots dp).Distinct

/-- A call that is made for a directory, with its result. -/
inductive DirCall where
  /-- `dirlookup` returns the inode with a number, and sets `*poff`. -/
  | lookup (name : List UInt8) (result : Option (Nat × Nat))
  /-- `dirlink`. -/
  | link (name : List UInt8) (inum : Nat) (result : Int)
  /-- `sys_unlink` removes the entry that it finds. -/
  | remove (name : List UInt8) (result : Int)

section Programs

variable (sb : Superblock) (dp : Nat) (name : List UInt8)

/-- `dirlookup`; the reference to the inode is dropped again. -/
def lookup : FsProg (Option (Nat × Nat)) := do
  match ← dirlookup sb dp name with
  | none => return none
  | some (ip, off) =>
    let slot ← inode ip
    iput sb ip
    return some (slot.inum, off)

/-- The statements of `sys_unlink` about the directory. -/
def remove : FsProg Int := do
  match ← dirlookup sb dp name with
  | none => return -1
  | some (ip, off) =>
    let r ← writei sb dp (List.replicate direntSize 0) off direntSize
    if r ≠ direntSize then .panic "unlink: writei"
    else
      iput sb ip
      return 0

end Programs

/-- Only inode numbers from 1 to 65535 are linked. -/
def DirCall.Legal : DirCall → Prop
  | .link _ inum _ => inum ≠ 0 ∧ inum < 2 ^ 16
  | _ => True

section Steps

variable {sb : Superblock} {lost : Set Nat} {p dp : Nat} {allows : Allows State}
  {state after : State} {name : List UInt8}

/-- What a state must have in common with another for the directory to be the same. -/
theorem IsDirectory.congr (dir : IsDirectory sb lost dp state)
    (inode : after.inode dp = { state.inode dp with ref := (after.inode dp).ref })
    (inUse : (after.inode dp).ref ≠ 0) (block : after.block = state.block)
    (held : after.held = state.held) (itable : after.itableLock = state.itableLock)
    (outstanding : after.outstanding = state.outstanding) :
    IsDirectory sb lost dp after ∧ after.slots dp = state.slots dp := by
  have node : (after.inode dp).node = (state.inode dp).node := by
    rw [inode]
  have contents : after.contents dp = state.contents dp := by
    rw [State.contents, State.contents, node, block]
  have slots : after.slots dp = state.slots dp := by
    rw [State.slots, State.slots, contents]
  refine ⟨?_, slots⟩
  refine
    { opened := ?_, whole := ?_, isDir := ?_, inUse := inUse, quiet := ?_
      itable := itable.trans dir.itable, inside := ?_, aligned := ?_, distinct := ?_ }
  · apply dir.opened.congr
    · rw [inode]
    · rw [node]
    · rw [node]
      exact dir.opened.fits
    · exact fun c _ => by rw [block]
    · exact fun j _ _ => by rw [block]
    · intro k
      rw [State.entry, State.entry, node, block]
    · exact fun j _ _ _ _ => by rw [block]
  · rw [Whole, node, block]
    exact dir.whole
  · rw [node]
    exact dir.isDir
  · rw [held]
    exact dir.quiet
  · rw [outstanding]
    exact dir.inside
  · rw [node]
    exact dir.aligned
  · rw [slots]
    exact dir.distinct

theorem IsDirectory.setInode (dir : IsDirectory sb lost dp state) (inode : Inode)
    (unused : (state.inode ip).ref = 0) :
    IsDirectory sb lost dp (state.setInode ip inode) ∧
      (state.setInode ip inode).slots dp = state.slots dp := by
  have different : dp ≠ ip := fun same => dir.inUse (same ▸ unused)
  have slot : (state.setInode ip inode).inode dp = state.inode dp :=
    Function.update_of_ne different ..
  refine dir.congr ?_ ?_ rfl rfl rfl rfl
  · rw [slot]
  · rw [slot]
    exact dir.inUse

theorem IsDirectory.setRef (dir : IsDirectory sb lost dp state) (ip ref : Nat)
    (nonzero : ip = dp → ref ≠ 0) :
    IsDirectory sb lost dp (state.setRef ip ref) ∧
      (state.setRef ip ref).slots dp = state.slots dp := by
  by_cases same : dp = ip
  · subst same
    have slot : (state.setRef dp ref).inode dp = { state.inode dp with ref } :=
      State.setInode_self ..
    refine dir.congr ?_ ?_ rfl rfl rfl rfl
    · rw [slot]
    · rw [slot]
      exact nonzero rfl
  · have slot : (state.setRef ip ref).inode dp = state.inode dp :=
      Function.update_of_ne same ..
    refine dir.congr ?_ ?_ rfl rfl rfl rfl
    · rw [slot]
    · rw [slot]
      exact dir.inUse

/-- The process has got a reference to the inode `inum` in slot `ip`, which is not the
last one, or the inode has not been read. -/
structure Referenced (sb : Superblock) (lost : Set Nat) (dp ip inum : Nat)
    (slots : SlotMap (List UInt8) Nat) (state : State) : Prop where
  dir : IsDirectory sb lost dp state
  same : state.slots dp = slots
  inum : (state.inode ip).inum = inum
  stays : ¬ ((state.inode ip).ref = 1 ∧ (state.inode ip).valid = true)
  keeps : ip = dp → (state.inode ip).ref ≠ 1

variable {inum : Nat}

theorem IsDirectory.iget (dir : IsDirectory sb lost dp state)
    (full : (∀ other < ninode, (state.inode other).ref ≠ 0) →
      allows.panic "iget: no inodes" (state.setItable (some p))) :
    ensures (answer p) allows (iget dev inum) state fun ip middle =>
      Referenced sb lost dp ip inum (state.slots dp) middle := by
  apply iget_ensures dir.itable _ _ full
  · intro ip _ inUse _ sameInum
    have slot : (state.setRef ip ((state.inode ip).ref + 1)).inode ip =
        { state.inode ip with ref := (state.inode ip).ref + 1 } := State.setInode_self ..
    rcases dir.setRef ip ((state.inode ip).ref + 1) fun _ => Nat.succ_ne_zero _ with
      ⟨still, slots⟩
    refine ⟨still, slots, ?_, ?_, ?_⟩
    · rw [slot]
      exact sameInum
    · rw [slot]
      intro both
      exact inUse (Nat.succ.inj both.1)
    · rw [slot]
      intro _ one
      exact inUse (Nat.succ.inj one)
  · intro ip _ unused _
    have slot : (state.setInode ip
        { state.inode ip with dev, inum, ref := 1, valid := false }).inode ip =
          { state.inode ip with dev, inum, ref := 1, valid := false } := State.setInode_self ..
    rcases dir.setInode { state.inode ip with dev, inum, ref := 1, valid := false }
      unused with ⟨still, slots⟩
    refine ⟨still, slots, ?_, ?_, ?_⟩
    · rw [slot]
    · rw [slot]
      exact fun both => Bool.noConfusion both.2
    · intro same
      rw [same] at unused
      exact absurd unused dir.inUse

variable {ip : Nat}

theorem Referenced.iput (referenced : Referenced sb lost dp ip inum slots state)
    {post : Unit → State → Prop}
    (holds : ∀ after, IsDirectory sb lost dp after → after.slots dp = slots → post () after) :
    ensures (answer p) allows (iput sb ip) state post := by
  refine iput_kept referenced.dir.itable (fun last => referenced.stays ⟨last.1, last.2.1⟩) ?_
  have nonzero : ip = dp → (state.inode ip).ref - 1 ≠ 0 := by
    intro same
    have several := referenced.keeps same
    subst same
    have some := referenced.dir.inUse
    omega
  rcases referenced.dir.setRef ip ((state.inode ip).ref - 1) nonzero with ⟨still, kept⟩
  exact holds _ still (kept.trans referenced.same)

variable {src : List UInt8} {tot : Nat}

theorem IsDirectory.wrote (dir : IsDirectory sb lost dp state) (length : src.length = direntSize)
    (wrote : Wrote sb lost dp src (i * direntSize) direntSize tot state after)
    (bound : i ≤ (state.slots dp).length) :
    (tot = 0 → IsDirectory sb lost dp after ∧ after.slots dp = state.slots dp) ∧
    (tot = direntSize → ((state.slots dp).put i (Dirent.decode src).slot).Distinct →
      IsDirectory sb lost dp after ∧
        after.slots dp = (state.slots dp).put i (Dirent.decode src).slot) := by
  have size : direntSize = 16 := rfl
  have contents := wrote.contents (Nat.le_of_eq length.symm)
  have dirAligned := dir.aligned
  have start : i * direntSize ≤ (state.inode dp).node.size := by
    rw [slots_length, size] at bound
    rw [size]
    omega
  have dirOf : (after.slots dp).Distinct → (after.inode dp).node.size % direntSize = 0 →
      IsDirectory sb lost dp after := by
    intro distinct aligned
    refine
      { opened := wrote.opened, whole := wrote.whole, isDir := ?_, inUse := ?_, quiet := ?_
        itable := wrote.same.itableLock.trans dir.itable, inside := ?_, aligned := aligned
        distinct := distinct }
    · rw [wrote.node]
      exact dir.isDir
    · rw [wrote.same.slot]
      exact dir.inUse
    · rw [wrote.same.held]
      exact dir.quiet
    · rw [wrote.same.outstanding]
      exact dir.inside
  constructor
  · intro none
    subst none
    have same : after.slots dp = state.slots dp := by
      rw [State.slots, contents, State.slots, List.take_zero]
      simp [splice]
    refine ⟨dirOf (same ▸ dir.distinct) ?_, same⟩
    rw [wrote.node]
    dsimp only
    rw [Nat.add_zero, Nat.max_eq_left start]
    exact dirAligned
  · intro all distinct
    subst all
    have new : after.slots dp = (state.slots dp).put i (Dirent.decode src).slot := by
      rw [State.slots, contents, List.take_of_length_le (Nat.le_of_eq length)]
      apply slotsOf_splice length
      · rw [State.contents, contents_length]
        exact dirAligned
      · rw [State.contents, contents_length, ← slots_length]
        exact bound
    refine ⟨dirOf (new ▸ distinct) ?_, new⟩
    rw [wrote.node]
    dsimp only
    rw [size] at dirAligned ⊢
    omega

end Steps

/-! ## Runs -/

section Runs

variable {sb : Superblock} {lost : Set Nat} {p dp : Nat} {state first last : State}
  {calls : List DirCall}

end Runs

end Xv6.Fs
