import Xv6.Param
import Xv6.Foundation.Bytes

/-! # The on-disk log header

`struct logheader` at the start of the header block: the number of logged
blocks and their block numbers, four bytes each. -/

namespace Xv6

/-- The contents of one disk block. -/
abbrev Block := Bytes bsize

/-- A four-byte word read as a signed number. -/
def toInt32 (word : Nat) : Int :=
  if word < 2 ^ 31 then word else (word : Int) - 2 ^ 32

namespace Log

/-- `lh->n` in a header block. -/
def headN (block : Block) : Int :=
  toInt32 (block.word 4 0)

/-- `read_head`: the block numbers that the header block lists. -/
def readHead (block : Block) : List Nat :=
  (List.range (headN block).toNat).map fun index => block.word 4 (index + 1)

/-- The loop of `write_head`, from element `index` on. -/
def putBlocks (block : Block) : (index : Nat) → List Nat → Block
  | _, [] => block
  | index, blockno :: rest =>
    putBlocks (block.setWord 4 (index + 1) blockno) (index + 1) rest

/-- What `write_head` stores in the header block. -/
def putHead (block : Block) (lh : List Nat) : Block :=
  putBlocks (block.setWord 4 0 lh.length) 0 lh

variable {index : Nat}

theorem word_putBlocks_of_le (block : Block) {first : Nat} (lh : List Nat) (below : index ≤ first) :
    (putBlocks block first lh).word 4 index = block.word 4 index := by
  induction lh generalizing block first with
  | nil => rfl
  | cons blockno rest induction =>
    rw [putBlocks, induction _ (by omega), Bytes.word_setWord_ne _ (by omega)]

variable {lh : List Nat}

theorem word_putBlocks (block : Block) (first : Nat) (fits : 4 * (first + lh.length) + 4 ≤ bsize)
    (small : ∀ blockno ∈ lh, blockno < 2 ^ 32) (bound : index < lh.length) :
    (putBlocks block first lh).word 4 (first + index + 1) = lh[index] := by
  induction lh generalizing block first index with
  | nil => cases bound
  | cons blockno rest induction =>
    simp only [List.length_cons] at fits bound
    rw [putBlocks]
    cases index with
    | zero =>
      rw [word_putBlocks_of_le _ _ (le_refl _)]
      have here := small blockno List.mem_cons_self
      exact Bytes.word_setWord_same _ (by omega) (by norm_num at here ⊢; exact here)
    | succ index =>
      have later := induction (block.setWord 4 (first + 1) blockno) (first + 1)
        (by omega) (fun other member => small other (List.mem_cons_of_mem _ member))
        (show index < rest.length by omega)
      rw [show first + (index + 1) + 1 = first + 1 + index + 1 by omega, later]
      rfl

theorem headN_putHead (block : Block) (short : lh.length ≤ logSize) :
    headN (putHead block lh) = lh.length := by
  simp only [logSize, maxOpBlocks] at short
  rw [headN, putHead, word_putBlocks_of_le _ _ (le_refl _),
    Bytes.word_setWord_same _ (by simp [bsize]) (by norm_num; omega), toInt32, if_pos (by omega)]

theorem readHead_putHead (block : Block) (short : lh.length ≤ logSize)
    (small : ∀ blockno ∈ lh, blockno < 2 ^ 32) : readHead (putHead block lh) = lh := by
  rw [readHead, headN_putHead block short, Int.toNat_natCast]
  apply List.ext_getElem
  · simp
  · intro index _ bound
    simp only [List.getElem_map, List.getElem_range]
    simp only [logSize, maxOpBlocks] at short
    simpa [putHead] using word_putBlocks (block.setWord 4 0 lh.length) 0
      (by simp only [bsize]; omega) small bound

theorem readHead_of_headN_zero {block : Block} (zero : headN block = 0) :
    readHead block = [] := by
  simp [readHead, zero]

end Log

end Xv6
