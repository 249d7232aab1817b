import Xv6.Fs.Space

/-! # The bytes of a file

The content of an inode is the list of its bytes: byte `i` is in block `i / BSIZE`
of the file. Writing replaces a part of the list, and may make it longer. -/

namespace Xv6.Fs

/-- The cell of block `bn` of a file. -/
def cellOf (bn : Nat) : Nat := if bn < ndirect then bn else bn + 1

/-- Block `bn` of a file, or zero. -/
def Dinode.blockOf (din : Dinode) (block : Nat → Block) (bn : Nat) : Nat :=
  din.entry block (cellOf bn)

/-- Byte `i` of a file. A block that is not there would be filled with zeros. -/
def Dinode.byte (din : Dinode) (block : Nat → Block) (i : Nat) : UInt8 :=
  if din.blockOf block (i / bsize) = 0 then 0
  else (block (din.blockOf block (i / bsize))).byteAt (i % bsize)

/-- The bytes of a file. -/
def Dinode.contents (din : Dinode) (block : Nat → Block) : List UInt8 :=
  (List.range din.size).map (din.byte block)

/-- Every block of the file up to its size is there. -/
def Dinode.Mapped (din : Dinode) (block : Nat → Block) : Prop :=
  ∀ bn, bn * bsize < din.size → din.blockOf block bn ≠ 0

/-- The file is not longer than `MAXFILE` blocks, and has no holes. -/
structure Dinode.Whole (din : Dinode) (block : Nat → Block) : Prop where
  bounded : din.size ≤ maxFile * bsize
  mapped : din.Mapped block

/-- A list with a part replaced, or prolonged. -/
def splice (old : List UInt8) (off : Nat) (new : List UInt8) : List UInt8 :=
  old.take off ++ new ++ old.drop (off + new.length)

theorem cellOf_ne (bn : Nat) : cellOf bn ≠ ndirect := by
  unfold cellOf
  split <;> omega

theorem cellOf_inj (same : cellOf bn = cellOf other) : bn = other := by
  unfold cellOf at same
  split at same <;> split at same <;> omega

theorem block_of_add (small : start % bsize + j < bsize) :
    (start + j) / bsize = start / bsize ∧ (start + j) % bsize = start % bsize + j := by
  have positive : 0 < bsize := by decide
  have split : start + j = bsize * (start / bsize) + (start % bsize + j) := by
    have := Nat.div_add_mod start bsize
    omega
  rw [split, Nat.mul_add_div positive, Nat.div_eq_of_lt small, Nat.mul_add_mod,
    Nat.mod_eq_of_lt small]
  exact ⟨rfl, rfl⟩

section Bytes

variable {din din' : Dinode} {block block' : Nat → Block}

@[simp] theorem contents_length : (din.contents block).length = din.size := by
  simp [Dinode.contents]

variable {i : Nat}

theorem contents_getElem (inside : i < (din.contents block).length) :
    (din.contents block)[i] = din.byte block i := by
  simp [Dinode.contents]

section

variable
  (same : ∀ k, din.entry block k ≠ 0 → block' (din.entry block k) = block (din.entry block k))

include same

theorem entry_of_same (k : Nat) : din.entry block' k = din.entry block k := by
  apply entry_congr fun _ => rfl
  have indirect := same ndirect
  rw [entry_of_le (Nat.le_refl _)] at indirect
  exact indirect

omit same in
/-- The blocks of a file stay, so that it has no holes after if it had none before. -/
theorem whole_of_same (whole : din.Whole block) (same : ∀ k, din.entry block k ≠ 0 →
    block' (din.entry block k) = block (din.entry block k)) : din.Whole block' where
  bounded := whole.bounded
  mapped := by
    intro bn inside
    rw [Dinode.blockOf, entry_of_same same]
    exact whole.mapped bn inside

end

theorem Dinode.Mapped.of_lt (mapped : din.Mapped block) (inside : i < din.size) :
    din.blockOf block (i / bsize) ≠ 0 := by
  apply mapped
  have := Nat.div_mul_le_self i bsize
  omega

variable {new old : List UInt8} {off : Nat}

section

variable (inside : off ≤ old.length)

include inside

theorem splice_length : (splice old off new).length = max old.length (off + new.length) := by
  simp [splice]
  omega

theorem splice_getElem_inside (low : off ≤ i) (high : i < off + new.length)
    (bound : i < (splice old off new).length) : (splice old off new)[i] = new[i - off] := by
  have short : (old.take off).length = off := by simp [inside]
  simp only [splice]
  rw [List.getElem_append_left (by simp; omega), List.getElem_append_right (by omega)]
  simp only [short]

theorem splice_getElem_outside (outside : i < off ∨ off + new.length ≤ i)
    (bound : i < (splice old off new).length) (before : i < old.length) :
    (splice old off new)[i] = old[i] := by
  have short : (old.take off).length = off := by simp [inside]
  rcases outside with low | high
  · simp only [splice, List.append_assoc]
    rw [List.getElem_append_left (by omega), List.getElem_take]
  · simp only [splice]
    rw [List.getElem_append_right (by simp; omega), List.getElem_drop]
    congr 1
    simp [short]
    omega

theorem splice_getElem? (i : Nat) :
    (splice old off new)[i]? =
      if off ≤ i ∧ i < off + new.length then new[i - off]? else old[i]? := by
  have length : (splice old off new).length = max old.length (off + new.length) :=
    splice_length inside
  split
  · rename_i within
    have bound : i < (splice old off new).length := by omega
    rw [List.getElem?_eq_getElem bound, splice_getElem_inside inside within.1 within.2,
      List.getElem?_eq_getElem]
  · rename_i without
    by_cases before : i < old.length
    · have bound : i < (splice old off new).length := by omega
      rw [List.getElem?_eq_getElem bound, List.getElem?_eq_getElem before,
        splice_getElem_outside inside (by omega) bound before]
    · rw [List.getElem?_eq_none (by omega), List.getElem?_eq_none (by omega)]

end

theorem contents_eq_splice (inside : off ≤ din.size)
    (size : din'.size = max din.size (off + new.length))
    (stored : ∀ i (bound : i < new.length), din'.byte block' (off + i) = new[i])
    (kept : ∀ i < din.size, i < off ∨ off + new.length ≤ i → din'.byte block' i = din.byte block i) :
    din'.contents block' = splice (din.contents block) off new := by
  have start : off ≤ (din.contents block).length := by
    rw [contents_length]
    exact inside
  apply List.ext_getElem
  · rw [splice_length start, contents_length, contents_length, size]
  · intro i first second
    rw [contents_getElem]
    rw [contents_length, size] at first
    by_cases written : off ≤ i ∧ i < off + new.length
    · rw [splice_getElem_inside start written.1 written.2]
      have position : off + (i - off) = i := by omega
      rw [← stored (i - off) (by omega), position]
    · have old : i < din.size := by omega
      rw [splice_getElem_outside start (by omega) second (by rw [contents_length]; exact old),
        contents_getElem]
      exact kept i old (by omega)

end Bytes

end Xv6.Fs
