import Xv6.Fs.Bmap

/-! # What `readi` returns

The bytes of the file from `off` on. A file whose blocks are all there is read
without any change, in or outside a transaction. -/

namespace Xv6.Fs

open Prog

/-- The inode in slot `ip` has no holes. -/
abbrev Whole (state : State) (ip : Nat) : Prop := (state.inode ip).node.Whole state.block

/-- Byte `i` of the file in slot `ip`. -/
def State.byte (state : State) (ip i : Nat) : UInt8 := (state.inode ip).node.byte state.block i

/-- The bytes of the file in slot `ip`. -/
def State.contents (state : State) (ip : Nat) : List UInt8 :=
  (state.inode ip).node.contents state.block

variable {n off : Nat}

section Runs

variable {state : State} {ip : Nat}

/-- The `n` bytes of the file from `off` on. -/
def State.bytes (state : State) (ip off n : Nat) : List UInt8 :=
  (List.range n).map fun i => state.byte ip (off + i)

@[simp] theorem bytes_length (off n : Nat) : (state.bytes ip off n).length = n := by
  simp [State.bytes]

theorem bytes_append (off n m : Nat) :
    state.bytes ip off n ++ state.bytes ip (off + n) m = state.bytes ip off (n + m) := by
  rw [State.bytes, State.bytes, State.bytes, List.range_add, List.map_append, List.map_map]
  congr 1
  apply List.map_congr_left
  intro i _
  rw [Nat.add_assoc]
  rfl

theorem bytes_take (off : Nat) (short : m ≤ n) :
    (state.bytes ip off n).take m = state.bytes ip off m := by
  rw [State.bytes, ← List.map_take, List.take_range, Nat.min_eq_left short]
  rfl

variable {i : Nat}

theorem byte_eq (some : state.entry ip (cellOf (i / bsize)) ≠ 0) :
    state.byte ip i = (state.block (state.entry ip (cellOf (i / bsize)))).byteAt (i % bsize) :=
  if_neg some

theorem byte_eq_zero (none : state.entry ip (cellOf (i / bsize)) = 0) : state.byte ip i = 0 :=
  if_pos none

theorem read_eq_bytes (short : count ≤ bsize - start % bsize)
    (some : state.entry ip (cellOf (start / bsize)) ≠ 0) :
    (state.block (state.entry ip (cellOf (start / bsize)))).read (start % bsize) count =
      state.bytes ip start count := by
  apply List.map_congr_left
  intro i member
  rw [List.mem_range] at member
  have low : start % bsize + i < bsize := by omega
  rw [← (block_of_add low).1] at some ⊢
  rw [byte_eq some, (block_of_add low).2]

theorem bytes_eq_contents (inside : off + n ≤ (state.inode ip).node.size) :
    ((state.contents ip).drop off).take n = state.bytes ip off n := by
  apply List.ext_getElem
  · simp [State.contents]
    omega
  · intro i first second
    simp [State.contents, Dinode.contents, State.bytes, State.byte]

end Runs

section Programs

variable {sb : Superblock} {p ip : Nat} {allows : Allows State} {state : State}

variable {room : Nat}

theorem readiIn_ensures {got : List UInt8}
    {post : Prog.Flow (List UInt8) (Int × List UInt8) → State → Prop} (whole : Whole state ip)
    (quiet : ∀ b, state.held b = none) (inside : off + n ≤ (state.inode ip).node.size)
    (more : got.length < n)
    (next : ∀ m, 0 < m → got.length + m ≤ n → got.length + m ≤ room →
      post (.next (got ++ state.bytes ip (off + got.length) m)) state)
    (fault : room < n → post
      (.done (-1, got ++ state.bytes ip (off + got.length) (room - got.length))) state) :
    ensures (answer p) allows (readiIn sb ip off n room got) state post := by
  have bounded := whole.bounded
  have positive : 0 < bsize := by decide
  have small : (off + got.length) / bsize < maxFile := by
    apply Nat.div_lt_of_lt_mul
    rw [Nat.mul_comm]
    omega
  have some : state.entry ip (cellOf ((off + got.length) / bsize)) ≠ 0 :=
    whole.mapped.of_lt (by omega)
  have modLt := Nat.mod_lt (off + got.length) positive
  rw [readiIn]
  simp only []
  rw [if_pos more]
  refine ensures_bind.mpr (bmap_kept small (quiet _) some ?_)
  rw [if_neg some]
  apply bread_then (quiet _)
  apply brelse_then (quiet _)
  split
  · rename_i noRoom
    apply ensures_pure.mpr
    rw [read_eq_bytes (by omega) some]
    exact fault (by omega)
  · rename_i enough
    apply ensures_pure.mpr
    rw [read_eq_bytes (by omega) some]
    exact next _ (by omega) (by omega) (Nat.not_lt.mp enough)

variable {post : Int × List UInt8 → State → Prop}

/-- `readi` returns the bytes of the file from `off` on, as far as the destination
has room for them, and changes nothing. -/
theorem readi_ensures (whole : Whole state ip) (quiet : ∀ b, state.held b = none)
    (noWrap : off + n < 2 ^ 32)
    (fits : (((state.contents ip).drop off).take n).length ≤ room →
      post ((((state.contents ip).drop off).take n).length, ((state.contents ip).drop off).take n)
        state)
    (fault : room < (((state.contents ip).drop off).take n).length →
      post (-1, (((state.contents ip).drop off).take n).take room) state) :
    ensures (answer p) allows (readi sb ip off n room) state post := by
  apply inode_then
  by_cases outside : off > (state.inode ip).node.size
  · rw [if_pos (.inl outside)]
    have none : ((state.contents ip).drop off).take n = [] := by
      rw [List.drop_of_length_le (by rw [State.contents, contents_length]; omega), List.take_nil]
    rw [none] at fits
    exact ensures_pure.mpr (fits (Nat.zero_le _))
  · have sum : uint (off + n) = off + n := Nat.mod_eq_of_lt noWrap
    rw [sum, if_neg (by omega)]
    -- From here on `n` is the number of bytes that there are.
    generalize lengthEq : (if off + n > (state.inode ip).node.size then
      (state.inode ip).node.size - off else n) = count
    have inside : off + count ≤ (state.inode ip).node.size := by
      split at lengthEq <;> omega
    have whatever : ((state.contents ip).drop off).take n = state.bytes ip off count := by
      rw [← bytes_eq_contents inside]
      split at lengthEq
      · rw [List.take_of_length_le, List.take_of_length_le]
        · simp [State.contents]
          omega
        · simp [State.contents]
          omega
      · rw [lengthEq]
    rw [whatever, bytes_length] at fits fault
    have ended : ensures (answer p) allows
        (loop (fun _ got => readiIn sb ip off count room got) count 0 []) state
        (Prog.Flow.Ends (fun got => post (got.length, got)) post) := by
      -- A round adds at least one byte, so that `count` rounds are enough.
      apply ensures_loop fun i got after => after = state ∧ i ≤ got.length ∧
        got.length ≤ count ∧ got.length ≤ room ∧ got = state.bytes ip off got.length
      · exact ⟨rfl, Nat.le_refl _, Nat.zero_le _, Nat.zero_le _, rfl⟩
      · intro i got after _ _ reached
        rcases reached with ⟨rfl, rounds, short, room, gotEq⟩
        by_cases more : got.length < count
        · apply readiIn_ensures whole quiet inside more
          · intro m positive fit roomLeft
            refine ⟨rfl, ?_, ?_, ?_, ?_⟩
            · simp
              omega
            · simpa using fit
            · simpa using roomLeft
            · rw [List.length_append, bytes_length, ← bytes_append, ← gotEq]
          · intro noRoom
            have ends := fault noRoom
            rw [bytes_take _ (Nat.le_of_lt noRoom)] at ends
            rw [gotEq, bytes_length, bytes_append, Nat.add_sub_of_le room]
            exact ends
        · have all : got.length = count := by omega
          rw [readiIn]
          simp only []
          rw [if_neg more]
          apply ensures_pure.mpr
          rw [all] at gotEq room ⊢
          rw [gotEq]
          exact fits room
      · intro got after reached
        rcases reached with ⟨rfl, rounds, short, room, gotEq⟩
        have all : got.length = count := by omega
        rw [all] at gotEq room
        rw [Prog.Flow.Ends, all, gotEq]
        exact fits room
    apply ensures_then ended
    intro flow after holds
    cases flow with
    | next | done => exact ensures_pure.mpr holds

theorem readi_same (whole : Whole state ip) (quiet : ∀ b, state.held b = none) (small : n < 2 ^ 32)
    (holds : ∀ result, post result state) :
    ensures (answer p) allows (readi sb ip off n room) state post := by
  by_cases noWrap : off + n < 2 ^ 32
  · exact readi_ensures whole quiet noWrap (fun _ => holds _) fun _ => holds _
  · apply inode_then
    rw [if_pos]
    · exact ensures_pure.mpr (holds _)
    · have bounded := whole.bounded
      have limit : maxFile * bsize = 274432 := rfl
      unfold uint
      omega

end Programs

end Xv6.Fs
