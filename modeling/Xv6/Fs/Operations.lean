import Xv6.Fs.Directory

/-! # The functions of `fs.c` in any order

Processes call the functions on inodes one after another, as the comments of `fs.c`
allow it: an inode is changed by the process that has locked it, and inside a
transaction. The calls fail wherever they can. Whatever they do, no inode gets a
hole. -/

namespace Xv6.Fs

open Prog

/-- A call of a function of `fs.c`, or of the log. -/
inductive InodeOp where
  | iget (inum : Nat)
  | idup (ip : Nat)
  | ialloc (type : Nat)
  | ilock (ip : Nat)
  | iunlock (ip : Nat)
  | writei (ip : Nat) (src : List UInt8) (off n : Nat)
  | dirlink (dp : Nat) (name : List UInt8) (inum : Nat)
  | itrunc (ip : Nat)
  | iput (ip : Nat)
  | beginOp
  | endOp

/-- What the call runs; its result does not matter here. -/
def InodeOp.program (sb : Superblock) : InodeOp → FsProg Unit
  | .iget inum => Fs.iget rootDev inum >>= fun _ => pure ()
  | .idup ip => Fs.idup ip >>= fun _ => pure ()
  | .ialloc type => Fs.ialloc sb rootDev type >>= fun _ => pure ()
  | .ilock ip => Fs.ilock sb ip
  | .iunlock ip => Fs.iunlock ip
  | .writei ip src off n => Fs.writei sb ip src off n >>= fun _ => pure ()
  | .dirlink dp name inum => Fs.dirlink sb dp name inum >>= fun _ => pure ()
  | .itrunc ip => Fs.itrunc sb ip
  | .iput ip => Fs.iput sb ip
  | .beginOp => Fs.beginOp
  | .endOp => Fs.endOp

/-- The process has locked the inode, and read it. -/
def Locked (state : State) (p ip : Nat) : Prop :=
  (state.inode ip).lock = some p ∧ (state.inode ip).ref ≠ 0 ∧ (state.inode ip).valid = true

/-- What the comments of `fs.c` ask of the caller, and the types of the arguments. -/
def InodeOp.Legal (sb : Superblock) (state : State) (p : Nat) : InodeOp → Prop
  | .iget inum => inum < sb.ninodes
  | .idup ip => (state.inode ip).ref ≠ 0
  | .ialloc type => type < 2 ^ 16 ∧ 1 ≤ state.outstanding
  | .writei ip _ _ n => Locked state p ip ∧ n < 2 ^ 32 ∧ 1 ≤ state.outstanding
  | .dirlink dp _ _ => Locked state p dp ∧ 1 ≤ state.outstanding
  | .itrunc ip => Locked state p ip ∧ 1 ≤ state.outstanding
  | .iput ip => (state.inode ip).ref ≠ 0 ∧ 1 ≤ state.outstanding
  | _ => True

instance (state : State) (p ip : Nat) : Decidable (Locked state p ip) :=
  inferInstanceAs (Decidable (_ ∧ _ ∧ _))

instance (sb : Superblock) (state : State) (p : Nat) :
    (op : InodeOp) → Decidable (op.Legal sb state p)
  | .iget _ => inferInstanceAs (Decidable (_ < _))
  | .idup _ => inferInstanceAs (Decidable (_ ≠ _))
  | .ialloc _ => inferInstanceAs (Decidable (_ < _ ∧ _ ≤ _))
  | .writei .. => inferInstanceAs (Decidable (Locked .. ∧ _ < _ ∧ _ ≤ _))
  | .dirlink .. => inferInstanceAs (Decidable (Locked .. ∧ _ ≤ _))
  | .itrunc _ => inferInstanceAs (Decidable (Locked .. ∧ _ ≤ _))
  | .iput _ => inferInstanceAs (Decidable (_ ≠ _ ∧ _ ≤ _))
  | .ilock _ | .iunlock _ | .beginOp | .endOp => inferInstanceAs (Decidable True)

/-- The process `p` makes a call, which returns before the next one is made. -/
def inodeStep (sb : Superblock) (state : State) (call : Nat × InodeOp) : Outcome State :=
  (exec (answer call.1) (call.2.program sb) state []).map Prod.snd

section Sound

variable {sb : Superblock} {lost : Set Nat} {p ip : Nat} {state : State} {Value : Type}

/-- The returns of a program are in sound states. -/
def KeepsSound (sb : Superblock) (lost : Set Nat) (p : Nat) (program : FsProg Value)
    (state : State) : Prop :=
  ensures (answer p) .everything program state fun _ after => Sound sb lost after

theorem KeepsSound.drop (keeps : KeepsSound sb lost p program state) :
    KeepsSound sb lost p (program >>= fun _ => pure ()) state :=
  ensures_then keeps fun _ _ sound => ensures_pure.mpr sound

variable (sound : Sound sb lost state)

include sound

variable {inum : Nat}

theorem iget_sound (valid : inum < sb.ninodes) :
    KeepsSound sb lost p (iget rootDev inum) state := by
  apply iget_ensures sound.itable
  · intro ip _ inUse _ _
    exact sound.setRefLock (fun _ => inUse) rfl
  · intro ip small _ nowhere
    apply sound.setInode
    · exact fun _ => ⟨small, rfl, valid⟩
    · intro _ other _ otherUsed
      have slot := sound.slot other otherUsed
      exact nowhere other slot.1 otherUsed slot.2.1
    · intro _ loaded
      cases loaded
  · intro _
    trivial

theorem idup_sound (inUse : (state.inode ip).ref ≠ 0) :
    KeepsSound sb lost p (idup ip) state := by
  apply idup_ensures sound.itable
  exact sound.setRefLock (fun _ => inUse) rfl

theorem ialloc_sound (small : type < 2 ^ 16) (inside : 1 ≤ state.outstanding) :
    KeepsSound sb lost p (ialloc sb rootDev type) state := by
  apply ialloc_ensures sound.quiet inside
  · exact fun _ => sound
  · intro inum valid _ free
    exact iget_sound (sound.putNode valid free small) valid

theorem ilock_sound : KeepsSound sb lost p (ilock sb ip) state := by
  by_cases unused : (state.inode ip).ref = 0
  · apply inode_then
    rw [if_pos (by omega)]
    exact ensures_panic.mpr trivial
  by_cases locked : (state.inode ip).lock ≠ none
  · apply inode_then
    rw [if_neg (by omega)]
    exact acquiresleep_blocked locked (fun _ => trivial) fun _ => trivial
  · apply ilock_ensures unused (not_not.mp locked) (sound.quiet _)
    · exact fun valid => (sound.loaded ip unused valid).1
    · exact fun _ => trivial
    · intro live
      apply sound.lockInode unused
      rcases live with valid | nonzero
      · have loaded := sound.loaded ip unused valid
        rw [← loaded.1]
        exact loaded.2
      · exact nonzero

theorem iunlock_sound : KeepsSound sb lost p (iunlock ip) state := by
  by_cases legal : (state.inode ip).ref ≠ 0 ∧ (state.inode ip).lock = some p
  · exact iunlock_ensures legal.1 legal.2 (sound.setRefLock id rfl)
  · apply holdingsleep_then
    apply inode_then
    rw [if_pos]
    · exact ensures_panic.mpr trivial
    · simp only [Bool.or_eq_true, Bool.not_eq_true', decide_eq_false_iff_not, decide_eq_true_eq]
      by_contra neither
      exact legal ⟨by omega, by tauto⟩

theorem writei_sound (locked : Locked state p ip) (small : n < 2 ^ 32)
    (inside : 1 ≤ state.outstanding) : KeepsSound sb lost p (writei sb ip src off n) state := by
  rcases locked with ⟨_, inUse, valid⟩
  apply writei_ensures (sound.opened inUse valid) (sound.whole_slot inUse valid) sound.quiet inside
    small
  · exact fun _ => sound
  · intro tot after _ _ wrote _
    exact sound.wrote inUse valid wrote

theorem itrunc_sound (locked : Locked state p ip) (inside : 1 ≤ state.outstanding) :
    KeepsSound sb lost p (itrunc sb ip) state := by
  rcases locked with ⟨_, inUse, valid⟩
  apply itrunc_ensures (sound.opened inUse valid) sound.quiet inside
  intro after truncated
  exact sound.truncated inUse valid truncated

theorem iput_sound (inUse : (state.inode ip).ref ≠ 0) (inside : 1 ≤ state.outstanding) :
    KeepsSound sb lost p (iput sb ip) state := by
  apply iput_ensures sound.itable sound.quiet inside
  · intro _
    exact sound.setRefLock (fun _ => inUse) rfl
  · intro _ valid _
    exact ⟨sound.opened inUse valid, fun _ => trivial, fun after removed =>
      sound.removed inUse removed⟩

theorem dirlink_sound (locked : Locked state p ip) (inside : 1 ≤ state.outstanding) :
    KeepsSound sb lost p (dirlink sb ip name inum) state := by
  rcases locked with ⟨_, inUse, valid⟩
  have whole := sound.whole_slot inUse valid
  by_cases isDir : (state.inode ip).node.type = tDir
  · apply dirlink_ensures whole sound.quiet isDir
    · exact fun _ => trivial
    · intro i other _
      apply iget_iput_ensures sound.itable sound
      · intro slot _ _
        apply sound.setInode <;> intro used <;> exact absurd rfl used
      · exact fun _ => trivial
    · intro _ _
      apply dirlinkStore_ensures (sound.opened inUse valid) whole sound.quiet inside
        SlotMap.firstFree_le
      · exact fun _ _ => sound
      · exact fun after _ wrote _ => sound.wrote inUse valid wrote
      · exact fun after wrote => sound.wrote inUse valid wrote
  · -- `dirlookup` panics.
    refine ensures_bind.mpr ?_
    apply inode_then
    rw [if_pos isDir]
    exact ensures_panic.mpr trivial

omit sound in
theorem Sound.setLog (sound : Sound sb lost state) (committed : Nat → Block) (logged : List Nat)
    (outstanding : Nat) : Sound sb lost { state with committed, logged, outstanding } :=
  { sound with }

theorem inodeOp_sound {op : InodeOp} (legal : op.Legal sb state p) :
    KeepsSound sb lost p (op.program sb) state := by
  cases op with
  | iget inum => exact (iget_sound sound legal).drop
  | idup ip => exact (idup_sound sound legal).drop
  | ialloc type => exact (ialloc_sound sound legal.1 legal.2).drop
  | ilock ip => exact ilock_sound sound
  | iunlock ip => exact iunlock_sound sound
  | writei ip src off n => exact (writei_sound sound legal.1 legal.2.1 legal.2.2).drop
  | dirlink dp name inum => exact (dirlink_sound sound legal.1 legal.2).drop
  | itrunc ip => exact itrunc_sound sound legal.1 legal.2
  | iput ip => exact iput_sound sound legal.1 legal.2
  | beginOp => exact call_ensures rfl (sound.setLog _ _ _)
  | endOp =>
    apply call_ensures rfl
    unfold State.endOp
    split
    · exact sound.setLog _ _ _
    · exact sound.setLog _ _ _

end Sound

theorem inodeStep_sound {call : Nat × InodeOp} (sound : Sound sb lost state)
    (legal : call.2.Legal sb state call.1) (step : inodeStep sb state call = .next after) :
    Sound sb lost after := by
  rcases (Outcome.map_eq_next_iff _ _ _).mp step with ⟨ended, execEq, rfl⟩
  exact exec_eq_next (inodeOp_sound sound legal) execEq

/-- In every run no inode that is in use has a hole, or is too long, on disk and in the
table. So `readi` allocates nothing: it returns and leaves everything as it is, also
outside a transaction, where `log_write` would panic. -/
theorem inodes_without_holes {sb : Superblock} {lost : Set Nat} {first last : State}
    {calls : List (Nat × InodeOp)} (sound : Sound sb lost first)
    (run : StepsWhere (inodeStep sb) (fun state call => call.2.Legal sb state call.1) first calls
      last) :
    (∀ inum < sb.ninodes, (diskNode sb last.block inum).type ≠ 0 →
      (diskNode sb last.block inum).Whole last.block) ∧
    ∀ ip, (last.inode ip).ref ≠ 0 → (last.inode ip).valid = true →
      (last.inode ip).node.Whole last.block ∧
      ∀ (p outstanding : Nat) (off n : UInt32) (room : Nat) (answers : List Nat), ∃ result,
        exec (answer p) (readi sb ip off.toNat n.toNat room) { last with outstanding } answers =
          .next (result, { last with outstanding }) := by
  have ended : Sound sb lost last :=
    run.invariant (fun _ _ _ sound legal step => inodeStep_sound sound legal step) sound
  refine ⟨ended.whole, fun ip inUse valid => ⟨ended.whole_slot inUse valid, ?_⟩⟩
  intro p outstanding off n room answers
  have read : ensures (answer p) .nothing (readi sb ip off.toNat n.toNat room)
      { last with outstanding } fun _ after => after = { last with outstanding } :=
    readi_same (ended.whole_slot inUse valid) ended.quiet n.toNat_lt fun _ => rfl
  rcases exec_returns read answers with ⟨result, _, equal, rfl⟩
  exact ⟨result, equal⟩

/-- The process locks the root directory, links a name, writes and unlocks it. -/
def smallCalls : List (Nat × InodeOp) :=
  [(0, .ilock 0), (0, .dirlink 0 [46] 1), (0, .writei 0 [7, 7] 16 3), (0, .iunlock 0), (0, .endOp)]

def smallCallsRun : Outcome State :=
  runStepsWhere (inodeStep .small) (fun state call => decide (call.2.Legal .small state call.1))
    .small smallCalls

/-- After these calls the root directory can be read. -/
theorem inodes_without_holes_small : ∃ last,
    StepsWhere (inodeStep .small) (fun state call => call.2.Legal .small state call.1) .small
      smallCalls last ∧ (diskNode .small last.block rootIno).Whole last.block := by
  have ended : smallCallsRun = .next (smallCallsRun.getD .small) :=
    Outcome.eq_next_of_isNext State.small (by decide +kernel)
  have run : StepsWhere (inodeStep .small) (fun state call => call.2.Legal .small state call.1)
      .small smallCalls (smallCallsRun.getD .small) :=
    StepsWhere.of_runStepsWhere (fun _ _ legal => of_decide_eq_true legal) ended
  refine ⟨_, run, (inodes_without_holes small_sound run).1 rootIno (by decide) ?_⟩
  have type : (diskNode .small (smallCallsRun.getD .small).block rootIno).type = tDir := by
    decide +kernel
  rw [type]
  decide

end Xv6.Fs
