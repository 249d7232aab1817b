import Xv6.Foundation.Bytes
import Mathlib.Data.Nat.Bitwise

/-! # Addresses and page-table entries

The constants and macros of `riscv.h` and `memlayout.h`. Addresses and entries
are 64-bit numbers. -/

namespace Xv6

def pgSize : Nat := 4096

/-- The contents of one physical page. -/
abbrev Page := Bytes pgSize

def maxVa : Nat := 2 ^ 38

/-- `TRAMPOLINE`, the highest user page. -/
def trampolineVa : Nat := maxVa - pgSize

/-- `TRAPFRAME`, just below. -/
def trapframeVa : Nat := trampolineVa - pgSize

def kernBase : Nat := 0x80000000

def physTop : Nat := kernBase + 128 * 1024 * 1024

def pgRoundUp (size : Nat) : Nat := (size + pgSize - 1) % 2 ^ 64 / pgSize * pgSize

def pgRoundDown (address : Nat) : Nat := address / pgSize * pgSize

/-- `PX(level, va)`: the nine bits that index a page table at `level`. -/
def px (level va : Nat) : Nat := va >>> (12 + 9 * level) % 512

def pteV : Nat := 1
def pteR : Nat := 2
def pteW : Nat := 4
def pteX : Nat := 8
def pteU : Nat := 16

def pa2pte (pa : Nat) : Nat := (pa >>> 12) <<< 10

def pte2pa (pte : Nat) : Nat := (pte >>> 10) <<< 12

def pteFlags (pte : Nat) : Nat := pte &&& 0x3FF

/-- `pte & mask` as a condition. -/
def hasFlag (pte mask : Nat) : Bool := pte &&& mask != 0

variable {va : Nat}

theorem pgRoundDown_of_aligned (aligned : va % pgSize = 0) : pgRoundDown va = va :=
  Nat.div_mul_cancel (Nat.dvd_of_mod_eq_zero aligned)

theorem pgRoundDown_last (aligned : va % pgSize = 0) : pgRoundDown (va + pgSize - 1) = va := by
  unfold pgRoundDown
  unfold pgSize at aligned ⊢
  omega

theorem pgRoundUp_aligned (size : Nat) : pgRoundUp size % pgSize = 0 :=
  Nat.mul_mod_left _ _

variable {size : Nat}

theorem pgRoundUp_le (bound : size ≤ trapframeVa) : pgRoundUp size ≤ trapframeVa := by
  unfold pgRoundUp trapframeVa trampolineVa maxVa pgSize at *
  omega

theorem le_pgRoundUp (bound : size ≤ trapframeVa) : size ≤ pgRoundUp size := by
  unfold pgRoundUp
  unfold trapframeVa trampolineVa maxVa at bound
  unfold pgSize at *
  omega

theorem px_lt (level va : Nat) : px level va < 512 :=
  Nat.mod_lt _ (by norm_num)

variable {mask : Nat}

private theorem shiftLeft_and_of_lt (value : Nat) (small : mask < 2 ^ 10) :
    value <<< 10 &&& mask = 0 := by
  apply Nat.eq_of_testBit_eq
  intro index
  rw [Nat.testBit_and, Nat.testBit_shiftLeft, Nat.zero_testBit]
  rcases Nat.lt_or_ge index 10 with low | high
  · simp [Nat.not_le.mpr low]
  · have above : 2 ^ 10 ≤ 2 ^ index := Nat.pow_le_pow_right (by norm_num) high
    simp [Nat.testBit_lt_two_pow (Nat.lt_of_lt_of_le small above)]

/-! An entry is a page address, `PA2PTE`d and combined with flag bits. -/

theorem pte2pa_entry {pa flags : Nat} (aligned : pa % pgSize = 0) (small : flags < 2 ^ 10) :
    pte2pa (pa2pte pa ||| flags) = pa := by
  rw [pgSize] at aligned
  rw [pte2pa, pa2pte, Nat.shiftRight_or_distrib, Nat.shiftLeft_shiftRight,
    Nat.shiftRight_eq_div_pow flags, Nat.div_eq_of_lt small, Nat.or_zero,
    Nat.shiftRight_eq_div_pow, Nat.shiftLeft_eq]
  exact Nat.div_mul_cancel (Nat.dvd_of_mod_eq_zero aligned)

variable {flags pa : Nat}

theorem entry_and (small : mask < 2 ^ 10) : (pa2pte pa ||| flags) &&& mask = flags &&& mask := by
  rw [Nat.and_or_distrib_right, pa2pte, shiftLeft_and_of_lt _ small, Nat.zero_or]

theorem hasFlag_entry (small : mask < 2 ^ 10) :
    hasFlag (pa2pte pa ||| flags) mask = hasFlag flags mask := by
  rw [hasFlag, entry_and small, hasFlag]

theorem hasFlag_pteV : hasFlag (flags ||| pteV) pteV = true := by
  have one : 1 ≤ (flags ||| pteV) &&& pteV := by
    rw [Nat.and_or_distrib_right]
    exact Nat.right_le_or
  exact bne_iff_ne.mpr (by omega)

theorem hasFlag_or_pteV :
    hasFlag (flags ||| pteV) (pteR ||| pteW ||| pteX) = hasFlag flags (pteR ||| pteW ||| pteX) := by
  have none : pteV &&& (pteR ||| pteW ||| pteX) = 0 := rfl
  rw [hasFlag, Nat.and_or_distrib_right, none, Nat.or_zero, hasFlag]

theorem userPerm (small : xperm < 2 ^ 10) :
    hasFlag (pteR ||| pteU ||| xperm) (pteR ||| pteW ||| pteX) = true ∧
      pteR ||| pteU ||| xperm < 2 ^ 10 := by
  constructor
  · have read : pteR ≤ (pteR ||| pteU ||| xperm) &&& (pteR ||| pteW ||| pteX) := by
      rw [Nat.and_or_distrib_right]
      exact Nat.left_le_or
    exact bne_iff_ne.mpr (by unfold pteR at *; omega)
  · exact Nat.or_lt_two_pow (by decide) small

theorem pteFlags_entry (small : flags < 2 ^ 10) : pteFlags (pa2pte pa ||| flags) = flags := by
  rw [pteFlags, entry_and (by norm_num)]
  exact Nat.and_two_pow_sub_one_of_lt_two_pow small

variable {pte : Nat}

theorem hasFlag_pteFlags :
    hasFlag (pteFlags pte) (pteR ||| pteW ||| pteX) = hasFlag pte (pteR ||| pteW ||| pteX) := by
  rw [hasFlag, pteFlags, Nat.and_assoc]
  rfl

theorem pteFlags_or_pteV (valid : hasFlag pte pteV = true) :
    pteFlags pte ||| pteV = pteFlags pte := by
  have odd : pte % 2 = 1 := by
    have nonzero := bne_iff_ne.mp valid
    rw [pteV, Nat.and_one_is_mod] at nonzero
    omega
  apply Nat.eq_of_testBit_eq
  intro index
  cases index with
  | zero => simp [pteFlags, pteV, odd]
  | succ index =>
    have higher : Nat.testBit pteV (index + 1) = false := by simp [pteV, Nat.testBit_add_one]
    rw [Nat.testBit_or, higher, Bool.or_false]

theorem pteFlags_lt (pte : Nat) : pteFlags pte < 2 ^ 10 :=
  Nat.and_lt_two_pow pte (by norm_num)

theorem entry_lt (bound : pa < 2 ^ 56) (small : flags < 2 ^ 10) : pa2pte pa ||| flags < 2 ^ 64 := by
  apply Nat.or_lt_two_pow
  · rw [pa2pte, Nat.shiftLeft_eq, Nat.shiftRight_eq_div_pow]
    omega
  · omega

theorem pte2pa_clearU (small : pte < 2 ^ 64) :
    pte2pa (pte &&& (2 ^ 64 - 1 - pteU)) = pte2pa pte := by
  have mask : (2 ^ 64 - 1 - pteU) >>> 10 = 2 ^ 54 - 1 := by decide
  have bound : pte >>> 10 < 2 ^ 54 := by
    rw [Nat.shiftRight_eq_div_pow]
    omega
  rw [pte2pa, pte2pa, Nat.shiftRight_and_distrib, mask, Nat.and_two_pow_sub_one_eq_mod,
    Nat.mod_eq_of_lt bound]

theorem hasFlag_clearU (other : (2 ^ 64 - 1 - pteU) &&& mask = mask) :
    hasFlag (pte &&& (2 ^ 64 - 1 - pteU)) mask = hasFlag pte mask := by
  rw [hasFlag, Nat.and_assoc, other, hasFlag]

end Xv6
