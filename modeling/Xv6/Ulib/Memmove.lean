import Mathlib.Tactic.Ring

/-! # The two versions of `memmove`

The kernel copies downwards when the destination begins inside the source, the user library
when the source is not above the destination. -/

namespace Xv6.Ulib

open Function (update update_self update_of_ne)

abbrev Memory := BitVec 64 → UInt8

/-- The loop `*d++ = *s++`, `n` times. -/
def copyUp (mem : Memory) (d s : BitVec 64) : Nat → Memory
  | 0 => mem
  | n + 1 => copyUp (update mem d (mem s)) (d + 1) (s + 1) n

/-- The loop `*--d = *--s`, `n` times. -/
def copyDown (mem : Memory) (d s : BitVec 64) : Nat → Memory
  | 0 => mem
  | n + 1 => copyDown (update mem (d - 1) (mem (s - 1))) (d - 1) (s - 1) n

def Kernel.memmove (mem : Memory) (dst src : BitVec 64) (n : BitVec 32) : Memory × BitVec 64 :=
  if n = 0 then (mem, dst)
  else if src < dst ∧ src + n.setWidth 64 > dst then
    (copyDown mem (dst + n.setWidth 64) (src + n.setWidth 64) n.toNat, dst)
  else (copyUp mem dst src n.toNat, dst)

/-- The count of the user version is an `int`. -/
def memmove (mem : Memory) (dst src : BitVec 64) (n : BitVec 32) : Memory × BitVec 64 :=
  if src > dst then (copyUp mem dst src n.toInt.toNat, dst)
  else (copyDown mem (dst + n.signExtend 64) (src + n.signExtend 64) n.toInt.toNat, dst)

/-- The bytes of the source before are those of the destination after. -/
structure Moved (mem : Memory) (dst src : BitVec 64) (n : Nat) (after : Memory) : Prop where
  copied : ∀ i < n, after (dst + .ofNat 64 i) = mem (src + .ofNat 64 i)
  kept : ∀ a, (∀ i < n, a ≠ dst + .ofNat 64 i) → after a = mem a

namespace Moved

variable {mem after after' : Memory} {dst src : BitVec 64} {n : Nat}

theorem nothing : Moved mem dst src 0 mem := ⟨fun _ inside => absurd inside (Nat.not_lt_zero _),
  fun _ _ => rfl⟩

theorem unique (moved : Moved mem dst src n after) (moved' : Moved mem dst src n after') :
    after = after' := by
  funext a
  by_cases inside : ∃ i < n, a = dst + .ofNat 64 i
  · rcases inside with ⟨i, inside, rfl⟩
    rw [moved.copied i inside, moved'.copied i inside]
  · have outside : ∀ i < n, a ≠ dst + .ofNat 64 i := fun i less equal => inside ⟨i, less, equal⟩
    rw [moved.kept a outside, moved'.kept a outside]

/-- A byte is copied before the others, which do not read it. -/
theorem step {k : Nat} {d s dst' src' : BitVec 64} (f : Nat → Nat)
    (moved : Moved (update mem d (mem s)) dst' src' n after)
    (first : d = dst + .ofNat 64 k) (read : s = src + .ofNat 64 k)
    (dsts : ∀ i, dst' + .ofNat 64 i = dst + .ofNat 64 (f i))
    (srcs : ∀ i, src' + .ofNat 64 i = src + .ofNat 64 (f i))
    (all : ∀ i, i < n + 1 ↔ i = k ∨ ∃ j < n, i = f j)
    (apart : ∀ i < n, d ≠ dst + .ofNat 64 (f i)) (unread : ∀ i < n, src + .ofNat 64 (f i) ≠ d) :
    Moved mem dst src (n + 1) after where
  copied i inside := by
    rcases (all i).mp inside with rfl | ⟨j, less, rfl⟩
    · rw [← first, moved.kept d fun j less => dsts j ▸ apart j less, update_self, read]
    · rw [← dsts, moved.copied j less, srcs, update_of_ne (unread j less)]
  kept a outside := by
    rw [moved.kept a fun i less => dsts i ▸ outside _ ((all _).mpr (.inr ⟨i, less, rfl⟩)),
      update_of_ne (first ▸ outside k ((all k).mpr (.inl rfl)))]

/-- No byte is read after it was written. -/
theorem up (small : n ≤ 2 ^ 64)
    (unread : ∀ i j, i < j → j < n → src + .ofNat 64 j ≠ dst + .ofNat 64 i) :
    Moved mem dst src n (copyUp mem dst src n) := by
  induction n generalizing mem dst src with
  | zero => exact nothing
  | succ n induction =>
    have next : ∀ (a : BitVec 64) i, a + 1 + .ofNat 64 i = a + .ofNat 64 (i + 1) := by
      intro a i
      bv_omega
    have zero : ∀ a : BitVec 64, a = a + .ofNat 64 0 := fun a => (BitVec.add_zero a).symm
    refine step (· + 1) (induction (by omega) ?_) (zero dst) (zero src) (next dst) (next src)
      ?_ ?_ ?_
    · intro i j less inside
      rw [next, next]
      exact unread _ _ (by omega) (by omega)
    · intro i
      constructor
      · intro inside
        cases i with
        | zero => exact .inl rfl
        | succ i => exact .inr ⟨i, by omega, rfl⟩
      · rintro (rfl | ⟨j, less, rfl⟩) <;> omega
    · intro i less equal
      bv_omega
    · intro i less
      rw [zero dst]
      exact unread _ _ (by omega) (by omega)

theorem down (small : n ≤ 2 ^ 64)
    (unread : ∀ i j, i < j → j < n → src + .ofNat 64 i ≠ dst + .ofNat 64 j) :
    Moved mem dst src n (copyDown mem (dst + .ofNat 64 n) (src + .ofNat 64 n) n) := by
  induction n generalizing mem with
  | zero => exact nothing
  | succ n induction =>
    have last : ∀ a : BitVec 64, a + .ofNat 64 (n + 1) - 1 = a + .ofNat 64 n := by
      intro a
      bv_omega
    rw [copyDown, last, last]
    refine step id (induction (by omega) ?_) rfl rfl (fun _ => rfl) (fun _ => rfl) ?_ ?_ ?_
    · exact fun i j less inside => unread i j less (by omega)
    · intro i
      simp only [id, exists_eq_right']
      omega
    · intro i less equal
      rw [id] at equal
      bv_omega
    · exact fun i less => unread i n less (by omega)

end Moved

theorem memmove_moved (mem : Memory) (dst src : BitVec 64) (n : BitVec 32)
    (source : src.toNat + n.toNat ≤ 2 ^ 64) (target : dst.toNat + n.toNat ≤ 2 ^ 64) :
    Moved mem dst src n.toNat (Kernel.memmove mem dst src n).1 ∧
      (0 ≤ n.toInt → Moved mem dst src n.toNat (memmove mem dst src n).1 ∧
        Kernel.memmove mem dst src n = memmove mem dst src n) := by
  have width : n.setWidth 64 = .ofNat 64 n.toNat := by
    bv_omega
  have small := n.isLt
  have up : dst.toNat ≤ src.toNat ∨ src.toNat + n.toNat ≤ dst.toNat →
      Moved mem dst src n.toNat (copyUp mem dst src n.toNat) := by
    intro order
    apply Moved.up (by omega)
    intro i j less inside equal
    bv_omega
  have down : src.toNat ≤ dst.toNat → Moved mem dst src n.toNat
      (copyDown mem (dst + n.setWidth 64) (src + n.setWidth 64) n.toNat) := by
    intro order
    rw [width]
    apply Moved.down (by omega)
    intro i j less inside equal
    bv_omega
  have kernel : Moved mem dst src n.toNat (Kernel.memmove mem dst src n).1 := by
    unfold Kernel.memmove
    split
    · rename_i zero
      rw [zero]
      exact .nothing
    · split
      · exact down (by bv_omega)
      · exact up (by bv_omega)
  refine ⟨kernel, fun positive => ?_⟩
  have sign : n.msb = false := by
    rw [BitVec.msb_eq_toInt, decide_eq_false_iff_not, Int.not_lt]
    exact positive
  have count : n.toInt.toNat = n.toNat := by
    rw [BitVec.toInt_eq_toNat_of_msb sign, Int.toNat_natCast]
  have wide : n.signExtend 64 = n.setWidth 64 := BitVec.signExtend_eq_setWidth_of_msb_false sign
  have user : Moved mem dst src n.toNat (memmove mem dst src n).1 := by
    rw [memmove, count, wide]
    split
    · exact up (by bv_omega)
    · exact down (by bv_omega)
  refine ⟨user, Prod.ext (kernel.unique user) ?_⟩
  rw [Kernel.memmove, memmove]
  split_ifs <;> rfl

/-- The destination begins inside the source. -/
theorem memmove_moved_overlapping :
    (0 : Int) ≤ (3 : BitVec 32).toInt ∧ Moved (fun a => .ofNat a.toNat) 2 1 3
      (memmove (fun a => .ofNat a.toNat) 2 1 3).1 := by
  have moved := memmove_moved (fun a => .ofNat a.toNat) 2 1 3 (by decide) (by decide)
  exact ⟨by decide, (moved.2 (by decide)).1⟩

end Xv6.Ulib
