import Xv6.Foundation.SlotMap
import Xv6.Fs.Table

/-! # Directories

The content of a directory is a list of entries, which is a map in slots: an entry
with the inode number zero is a free slot, and any other binds a name to an inode
number. -/

namespace Xv6.Fs

open Prog

/-! ## The entries -/

/-- What an entry of a directory means. -/
def Dirent.slot (de : Dirent) : Option (List UInt8 × Nat) :=
  if de.inum = 0 then none else some (nameOf de.name, de.inum)

/-- Entry `i` of a directory with the given content. -/
def direntAt (contents : List UInt8) (i : Nat) : Dirent :=
  .decode ((contents.drop (i * direntSize)).take direntSize)

/-- What the content of a directory means. -/
def slotsOf (contents : List UInt8) : SlotMap (List UInt8) Nat :=
  (List.range (contents.length / direntSize)).map fun i => (direntAt contents i).slot

section Entries

variable {contents : List UInt8} {i : Nat} {de : Dirent}

@[simp] theorem slotsOf_length : (slotsOf contents).length = contents.length / direntSize := by
  simp [slotsOf]

theorem slotsOf_getElem? (inside : i < contents.length / direntSize) :
    (slotsOf contents)[i]? = some (direntAt contents i).slot := by
  rw [slotsOf, List.getElem?_map, List.getElem?_range inside]
  rfl

variable {inum : Nat} {key : List UInt8}

theorem slot_eq_some :
    de.slot = some (key, inum) ↔ inum ≠ 0 ∧ de.inum = inum ∧ nameOf de.name = key := by
  unfold Dirent.slot
  constructor
  · intro equal
    split at equal
    · cases equal
    · rename_i nonzero
      cases equal
      exact ⟨nonzero, rfl, rfl⟩
  · intro holds
    rcases holds with ⟨nonzero, rfl, rfl⟩
    rw [if_neg nonzero]

theorem slot_eq_none : de.slot = none ↔ de.inum = 0 := by
  unfold Dirent.slot
  split
  · rename_i zero
    exact ⟨fun _ => zero, fun _ => rfl⟩
  · rename_i nonzero
    exact ⟨fun equal => absurd equal (Option.some_ne_none _), fun zero => absurd zero nonzero⟩

theorem binds_iff (inside : i < contents.length / direntSize) :
    (slotsOf contents).Binds key i inum ↔ inum ≠ 0 ∧ (direntAt contents i).inum = inum ∧
      nameOf (direntAt contents i).name = key := by
  rw [SlotMap.Binds, slotsOf_getElem? inside, Option.some_inj, slot_eq_some]

theorem lt_of_binds (binds : (slotsOf contents).Binds key i inum) :
    i < contents.length / direntSize := by
  by_contra outside
  rw [SlotMap.Binds, List.getElem?_eq_none (by rw [slotsOf_length]; omega)] at binds
  cases binds

variable {new : List UInt8}

theorem direntAt_splice (length : new.length = direntSize)
    (inside : i * direntSize ≤ contents.length) (j : Nat) :
    direntAt (splice contents (i * direntSize) new) j =
      if j = i then .decode new else direntAt contents j := by
  have size : direntSize = 16 := rfl
  split
  · rename_i here
    rw [direntAt, here]
    congr 1
    apply List.ext_getElem?
    intro k
    rw [List.getElem?_take]
    split
    · rw [List.getElem?_drop, splice_getElem? inside, if_pos (by omega), Nat.add_sub_cancel_left]
    · rw [List.getElem?_eq_none (by omega)]
  · rename_i there
    rw [direntAt, direntAt]
    congr 1
    apply List.ext_getElem?
    intro k
    rw [List.getElem?_take, List.getElem?_take]
    split
    · rw [List.getElem?_drop, splice_getElem? inside, if_neg, List.getElem?_drop]
      rw [length, size]
      omega
    · rfl

theorem slotsOf_splice (length : new.length = direntSize)
    (aligned : contents.length % direntSize = 0) (inside : i ≤ contents.length / direntSize) :
    slotsOf (splice contents (i * direntSize) new) =
      (slotsOf contents).put i (Dirent.decode new).slot := by
  have size : direntSize = 16 := rfl
  have start : i * direntSize ≤ contents.length := by
    rw [size] at inside ⊢
    omega
  have total : (splice contents (i * direntSize) new).length / direntSize =
      max (contents.length / direntSize) (i + 1) := by
    rw [splice_length start, length, size]
    rw [size] at aligned
    omega
  apply List.ext_getElem?
  intro j
  rw [SlotMap.put_getElem? (by rw [slotsOf_length]; exact inside)]
  by_cases bound : j < (splice contents (i * direntSize) new).length / direntSize
  · rw [slotsOf_getElem? bound, direntAt_splice length start]
    split
    · rfl
    · rw [slotsOf_getElem? (by omega)]
  · rw [List.getElem?_eq_none (by rw [slotsOf_length]; omega), if_neg (by omega),
      List.getElem?_eq_none (by rw [slotsOf_length]; omega)]

end Entries

/-! ## `dirlookup` -/

/-- What the directory in slot `dp` means. -/
def State.slots (state : State) (dp : Nat) : SlotMap (List UInt8) Nat :=
  slotsOf (state.contents dp)

section Lookup

variable {sb : Superblock} {lost : Set Nat} {p dp i : Nat} {allows : Allows State} {state : State}
  {name : List UInt8}

@[simp] theorem slots_length : (state.slots dp).length = (state.inode dp).node.size / direntSize := by
  rw [State.slots, slotsOf_length, State.contents, contents_length]

section

variable (whole : Whole state dp) (quiet : ∀ b, state.held b = none)

include whole quiet

theorem readi_dirent (inside : i < (state.slots dp).length) {post : Int × List UInt8 → State → Prop}
    (holds : post (direntSize, ((state.contents dp).drop (i * direntSize)).take direntSize) state) :
    ensures (answer p) allows (readi sb dp (i * direntSize) direntSize direntSize) state post := by
  have size : direntSize = 16 := rfl
  have bounded := whole.bounded
  have limit : maxFile * bsize = 274432 := rfl
  rw [slots_length] at inside
  have length : (((state.contents dp).drop (i * direntSize)).take direntSize).length =
      direntSize := by
    rw [List.length_take, List.length_drop, State.contents, contents_length]
    rw [size] at inside ⊢
    omega
  apply readi_ensures whole quiet
  · rw [size] at inside ⊢
    omega
  · intro _
    rw [length]
    exact holds
  · intro less
    omega

theorem readi_atEnd {post : Int × List UInt8 → State → Prop}
    (holds : ∀ r bytes, r ≠ (direntSize : Int) → post (r, bytes) state) :
    ensures (answer p) allows
      (readi sb dp ((state.slots dp).length * direntSize) direntSize direntSize) state post := by
  have size : direntSize = 16 := rfl
  have bounded := whole.bounded
  have limit : maxFile * bsize = 274432 := rfl
  have short : (((state.contents dp).drop ((state.slots dp).length * direntSize)).take
      direntSize).length < direntSize := by
    rw [List.length_take, List.length_drop, State.contents, contents_length, slots_length, size]
    omega
  apply readi_ensures whole quiet
  · rw [slots_length, size]
    omega
  · intro _
    apply holds
    omega
  · intro less
    omega

theorem dirlookupAt_ensures {post : Prog.Flow Unit (Nat × Nat) → State → Prop}
    (inside : i < (state.slots dp).length)
    (other : (∀ inum, ¬ (state.slots dp).Binds (nameOf name) i inum) → post (.next ()) state)
    (found : ∀ inum, (state.slots dp).Binds (nameOf name) i inum →
      ensures (answer p) allows (iget dev inum) state fun ip =>
        post (.done (ip, i * direntSize))) :
    ensures (answer p) allows (dirlookupAt sb dp dev name (i * direntSize)) state post := by
  have binds : ∀ inum, (state.slots dp).Binds (nameOf name) i inum ↔ inum ≠ 0 ∧
      (direntAt (state.contents dp) i).inum = inum ∧
      nameOf (direntAt (state.contents dp) i).name = nameOf name := by
    intro inum
    apply binds_iff
    rw [State.slots, slotsOf_length] at inside
    exact inside
  refine ensures_bind.mpr (readi_dirent whole quiet inside ?_)
  dsimp only
  rw [if_neg (by simp)]
  split
  · rename_i zero
    apply ensures_pure.mpr
    apply other
    intro inum bound
    rcases (binds inum).mp bound with ⟨nonzero, equal, _⟩
    exact nonzero (equal.symm.trans zero)
  · rename_i nonzero
    split
    · rename_i same
      rw [namecmp_eq_zero] at same
      apply ensures_then (found _ ((binds _).mpr ⟨nonzero, rfl, same.symm⟩))
      intro ip after holds
      exact ensures_pure.mpr holds
    · rename_i different
      apply ensures_pure.mpr
      apply other
      intro inum bound
      rcases (binds inum).mp bound with ⟨_, _, same⟩
      exact different ((namecmp_eq_zero _ _).mpr same.symm)

omit whole quiet in
theorem rounds_eq (size : Nat) : (size + direntSize - 1) / direntSize =
    size / direntSize + if size % direntSize = 0 then 0 else 1 := by
  have : direntSize = 16 := rfl
  rw [this]
  split <;> omega

theorem dirlookup_ensures {post : Option (Nat × Nat) → State → Prop}
    (isDir : (state.inode dp).node.type = tDir)
    (misread : (state.inode dp).node.size % direntSize ≠ 0 → allows.panic "dirlookup read" state)
    (absent : (state.inode dp).node.size % direntSize = 0 →
      (state.slots dp).Absent (nameOf name) → post none state)
    (found : ∀ i inum, (state.slots dp).Binds (nameOf name) i inum →
      (∀ j < i, ∀ other, ¬ (state.slots dp).Binds (nameOf name) j other) →
      ensures (answer p) allows (iget (state.inode dp).dev inum) state fun ip =>
        post (some (ip, i * direntSize))) :
    ensures (answer p) allows (dirlookup sb dp name) state post := by
  apply inode_then
  rw [if_neg (by simp [isDir]), rounds_eq]
  have ended : ensures (answer p) allows
      (loop (fun i _ => dirlookupAt sb dp (state.inode dp).dev name (i * direntSize))
        ((state.inode dp).node.size / direntSize +
          if (state.inode dp).node.size % direntSize = 0 then 0 else 1) 0 ()) state
      (Prog.Flow.Ends (fun _ => post none) fun result => post (some result)) := by
    -- The entries so far have other names.
    apply ensures_loop fun i _ after => after = state ∧
      (∀ j < i, ∀ other, ¬ (state.slots dp).Binds (nameOf name) j other) ∧
      i ≤ (state.slots dp).length
    · exact ⟨rfl, fun j below => absurd below (Nat.not_lt_zero j), Nat.zero_le _⟩
    · intro i _ after _ more scanned
      rcases scanned with ⟨rfl, before, bound⟩
      by_cases inside : i < (after.slots dp).length
      · apply dirlookupAt_ensures whole quiet inside
        · intro other
          refine ⟨rfl, fun j below => ?_, inside⟩
          by_cases here : j = i
          · rw [here]
            exact other
          · exact before j (by omega)
        · intro inum binds
          exact found i inum binds before
      · have last : i = (after.slots dp).length := by omega
        have misaligned : (after.inode dp).node.size % direntSize ≠ 0 := by
          intro aligned
          rw [if_pos aligned, Nat.zero_add, Nat.add_zero, ← slots_length] at more
          omega
        rw [last]
        refine ensures_bind.mpr (readi_atEnd whole quiet ?_)
        intro r bytes different
        dsimp only
        rw [if_pos different]
        exact ensures_panic.mpr (misread misaligned)
    · intro _ after scanned
      rcases scanned with ⟨rfl, before, bound⟩
      have aligned : (after.inode dp).node.size % direntSize = 0 := by
        by_contra misaligned
        rw [if_neg misaligned, Nat.zero_add, slots_length] at bound
        omega
      apply absent aligned
      intro i inum binds
      refine before i ?_ inum binds
      have := lt_of_binds binds
      rw [State.contents, contents_length] at this
      omega
  apply ensures_then ended
  intro flow after holds
  cases flow with
  | next | done => exact ensures_pure.mpr holds

end

end Lookup

/-! ## `dirlink` -/

/-- The entry that `dirlink` stores. -/
def newDirent (name : List UInt8) (inum : Nat) : Dirent := { inum, name := strncpy name dirSiz }

section Link

variable {sb : Superblock} {lost : Set Nat} {p dp i inum : Nat} {allows : Allows State}
  {state after : State} {name : List UInt8}

@[simp] theorem newDirent_length : (newDirent name inum).encode.length = direntSize := by
  rw [Dirent.encode, List.length_append, Bytes.encode_length, newDirent, strncpy_length]
  rfl

theorem dirlinkAt_ensures {post : Prog.Flow Unit Nat → State → Prop}
    (whole : Whole state dp) (quiet : ∀ b, state.held b = none)
    (inside : i < (state.slots dp).length)
    (used : ∀ binding, (state.slots dp)[i]? = some (some binding) → post (.next ()) state)
    (free : (state.slots dp)[i]? = some none → post (.done (i * direntSize)) state) :
    ensures (answer p) allows (dirlinkAt sb dp (i * direntSize)) state post := by
  have slot : (state.slots dp)[i]? = some (direntAt (state.contents dp) i).slot := by
    apply slotsOf_getElem?
    rw [State.slots, slotsOf_length] at inside
    exact inside
  refine ensures_bind.mpr (readi_dirent whole quiet inside ?_)
  dsimp only
  rw [if_neg (by simp)]
  split
  · rename_i zero
    exact ensures_pure.mpr (free (slot.trans (congrArg some (slot_eq_none.mpr zero))))
  · rename_i nonzero
    exact ensures_pure.mpr (used _ (slot.trans (congrArg some (if_neg nonzero))))

variable {post : Int → State → Prop}

/-- `writei` stores a whole entry in slot `i`, or nothing. Only behind the last entry
there may be no space. -/
theorem writei_dirent {src : List UInt8} (length : src.length = direntSize)
    (opened : Opened sb lost state dp) (whole : Whole state dp) (quiet : ∀ b, state.held b = none)
    (inside : 1 ≤ state.outstanding) (bound : i ≤ (state.slots dp).length)
    (refused : i = (state.slots dp).length →
      maxFile * bsize < (state.inode dp).node.size + direntSize → post (-1) state)
    (full : ∀ after, i = (state.slots dp).length →
      Wrote sb lost dp src (i * direntSize) direntSize 0 state after → Full sb after.block →
      post 0 after)
    (stored : ∀ after, Wrote sb lost dp src (i * direntSize) direntSize direntSize state after →
      post direntSize after) :
    ensures (answer p) allows (writei sb dp src (i * direntSize) direntSize) state post := by
  have size : direntSize = 16 := rfl
  have block : bsize = 1024 := rfl
  have bounded := whole.bounded
  have limit : maxFile * bsize = 274432 := rfl
  rw [slots_length] at bound refused full
  have start : i * direntSize ≤ (state.inode dp).node.size := by
    rw [size] at bound ⊢
    omega
  have noWrap : uint (i * direntSize + direntSize) = i * direntSize + direntSize := by
    apply Nat.mod_eq_of_lt
    rw [size] at start ⊢
    omega
  apply writei_ensures opened whole quiet inside (by decide)
  · intro why
    rw [noWrap] at why
    have last : i = (state.inode dp).node.size / direntSize := by
      rw [size] at *
      omega
    apply refused last
    rw [size] at *
    omega
  · intro tot after _ _ wrote short
    have most := wrote.short
    by_cases all : tot = direntSize
    · subst all
      exact stored after wrote
    · rcases short (by omega) (Nat.le_of_eq length.symm) with ⟨isFull, atEnd⟩
      -- An entry does not cross the end of a block.
      have none : tot = 0 := by
        rcases wrote.stops with zero | all' | position
        · exact zero
        · exact absurd all' all
        · rw [size] at *
          rw [block] at position
          omega
      subst none
      apply full after _ wrote isFull
      rw [size] at *
      omega

theorem dirlinkStore_ensures (opened : Opened sb lost state dp) (whole : Whole state dp)
    (quiet : ∀ b, state.held b = none) (inside : 1 ≤ state.outstanding)
    (bound : i ≤ (state.slots dp).length)
    (refused : i = (state.slots dp).length →
      maxFile * bsize < (state.inode dp).node.size + direntSize → post (-1) state)
    (full : ∀ after, i = (state.slots dp).length →
      Wrote sb lost dp (newDirent name inum).encode (i * direntSize) direntSize 0 state after →
      Full sb after.block → post (-1) after)
    (linked : ∀ after,
      Wrote sb lost dp (newDirent name inum).encode (i * direntSize) direntSize direntSize state
        after → post 0 after) :
    ensures (answer p) allows (dirlinkStore sb dp name inum (i * direntSize)) state post := by
  refine ensures_bind.mpr (writei_dirent newDirent_length opened whole quiet inside bound ?_ ?_ ?_)
  · intro last tooLong
    rw [if_pos (by decide)]
    exact ensures_pure.mpr (refused last tooLong)
  · intro after last wrote isFull
    rw [if_pos (by decide)]
    exact ensures_pure.mpr (full after last wrote isFull)
  · intro after wrote
    rw [if_neg (by decide)]
    exact ensures_pure.mpr (linked after wrote)

/-- `dirlink` refuses a name that is present. Otherwise it stores the entry in the
first free slot, or behind the last one. -/
theorem dirlink_ensures (whole : Whole state dp) (quiet : ∀ b, state.held b = none)
    (isDir : (state.inode dp).node.type = tDir)
    (misread : (state.inode dp).node.size % direntSize ≠ 0 → allows.panic "dirlookup read" state)
    (present : ∀ i other, (state.slots dp).Binds (nameOf name) i other →
      ensures (answer p) allows (iget (state.inode dp).dev other) state fun ip middle =>
        ensures (answer p) allows (iput sb ip) middle fun _ => post (-1))
    (absent : (state.inode dp).node.size % direntSize = 0 →
      (state.slots dp).Absent (nameOf name) →
      ensures (answer p) allows
        (dirlinkStore sb dp name inum ((state.slots dp).firstFree * direntSize)) state post) :
    ensures (answer p) allows (dirlink sb dp name inum) state post := by
  refine ensures_bind.mpr (dirlookup_ensures whole quiet isDir misread ?_ ?_)
  · intro aligned isAbsent
    dsimp only
    apply inode_then
    have rounds : ((state.inode dp).node.size + direntSize - 1) / direntSize =
        (state.slots dp).length := by
      rw [rounds_eq, if_pos aligned, slots_length, Nat.add_zero]
    rw [rounds]
    have ended : ensures (answer p) allows
        (loop (fun i _ => dirlinkAt sb dp (i * direntSize)) (state.slots dp).length 0 ()) state
        (Prog.Flow.Ends
          (fun _ after => after = state ∧ (state.slots dp).firstFree = (state.slots dp).length)
          fun off after => after = state ∧ off = (state.slots dp).firstFree * direntSize) := by
      -- The slots so far are in use.
      apply ensures_loop fun i _ after => after = state ∧
        ∀ j < i, ∃ binding, (state.slots dp)[j]? = some (some binding)
      · exact ⟨rfl, fun j below => absurd below (Nat.not_lt_zero j)⟩
      · intro i _ after _ more scanned
        rcases scanned with ⟨rfl, before⟩
        apply dirlinkAt_ensures whole quiet (by omega)
        · intro binding found
          refine ⟨rfl, fun j below => ?_⟩
          by_cases here : j = i
          · rw [here]
            exact ⟨binding, found⟩
          · exact before j (by omega)
        · intro free
          exact ⟨rfl, by rw [SlotMap.firstFree_eq before (.inl free)]⟩
      · intro _ after scanned
        rcases scanned with ⟨rfl, before⟩
        rw [Nat.zero_add] at before
        exact ⟨rfl, SlotMap.firstFree_eq before (.inr rfl)⟩
    apply ensures_then ended
    intro flow after holds
    have store := absent aligned isAbsent
    cases flow with
    | next _ =>
      rcases holds with ⟨rfl, last⟩
      rw [last] at store
      exact store
    | done off =>
      rcases holds with ⟨rfl, rfl⟩
      exact store
  · intro i other binds _
    apply ensures_mono (present i other binds)
    intro ip middle holds
    dsimp only
    apply ensures_then holds
    intro _ after ended
    exact ensures_pure.mpr ended

end Link

end Xv6.Fs
