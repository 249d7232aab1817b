import Xv6.Foundation.Transition
import Mathlib.Data.Finset.Card

/-! # Spin locks

`kernel/spinlock.c`: a lock is held by a CPU, and every CPU counts the locks it
holds, since interrupts stay off until the last one is released. -/

namespace Xv6

open Function (update update_self update_of_ne)

/-- `lk->cpu` of every held lock and `noff` of every CPU. -/
structure Spinlocks (Lock : Type) where
  owner : Lock → Option Nat
  noff : Nat → Nat

namespace Spinlocks

variable {Lock : Type} [DecidableEq Lock]

def initlock : Spinlocks Lock where
  owner := fun _ => none
  noff := fun _ => 0

def taken (spin : Spinlocks Lock) (cpu : Nat) (lk : Lock) : Spinlocks Lock where
  owner := update spin.owner lk (some cpu)
  noff := update spin.noff cpu (spin.noff cpu + 1)

def dropped (spin : Spinlocks Lock) (cpu : Nat) (lk : Lock) : Spinlocks Lock where
  owner := update spin.owner lk none
  noff := update spin.noff cpu (spin.noff cpu - 1)

/-- `acquire`, disabled while another CPU holds the lock. -/
def acquire (spin : Spinlocks Lock) (cpu : Nat) (lk : Lock) : Outcome (Spinlocks Lock) :=
  if spin.owner lk = some cpu then .panic "acquire"
  else if spin.owner lk = none then .next (spin.taken cpu lk)
  else .disabled

def release (spin : Spinlocks Lock) (cpu : Nat) (lk : Lock) : Outcome (Spinlocks Lock) :=
  if spin.owner lk = some cpu then .next (spin.dropped cpu lk) else .panic "release"

variable {after spin : Spinlocks Lock} {cpu : Nat} {lk : Lock}

theorem acquire_eq_next :
    spin.acquire cpu lk = .next after ↔ spin.owner lk = none ∧ spin.taken cpu lk = after := by
  rw [acquire]
  cases found : spin.owner lk with
  | none => simp
  | some other => by_cases same : other = cpu <;> simp [same]

theorem release_eq_next :
    spin.release cpu lk = .next after ↔ spin.owner lk = some cpu ∧ spin.dropped cpu lk = after := by
  rw [release]
  split <;> simp_all

@[simp] theorem taken_owner_self (spin : Spinlocks Lock) (cpu : Nat) (lk : Lock) :
    (spin.taken cpu lk).owner lk = some cpu :=
  update_self ..

variable {other : Lock}

theorem taken_owner_of_ne (spin : Spinlocks Lock) (cpu : Nat) (different : other ≠ lk) :
    (spin.taken cpu lk).owner other = spin.owner other :=
  update_of_ne different ..

@[simp] theorem dropped_owner_self (spin : Spinlocks Lock) (cpu : Nat) (lk : Lock) :
    (spin.dropped cpu lk).owner lk = none :=
  update_self ..

theorem dropped_owner_of_ne (spin : Spinlocks Lock) (cpu : Nat) (different : other ≠ lk) :
    (spin.dropped cpu lk).owner other = spin.owner other :=
  update_of_ne different ..

variable {holder : Nat}

theorem taken_owner_iff (free : spin.owner lk = none) :
    (spin.taken cpu lk).owner other = some holder ↔
      spin.owner other = some holder ∨ (other = lk ∧ holder = cpu) := by
  by_cases same : other = lk
  · subst same
    simp [free, eq_comm]
  · simp [taken_owner_of_ne spin cpu same, same]

theorem dropped_owner_iff :
    (spin.dropped cpu lk).owner other = some holder ↔
      spin.owner other = some holder ∧ other ≠ lk := by
  by_cases same : other = lk
  · subst same
    simp
  · simp [dropped_owner_of_ne spin cpu same, same]

/-- `noff` is the number of locks that the CPU holds. -/
def Counted (spin : Spinlocks Lock) : Prop :=
  ∀ cpu, ∃ held : Finset Lock, held.card = spin.noff cpu ∧
    ∀ lk, lk ∈ held ↔ spin.owner lk = some cpu

omit [DecidableEq Lock] in
theorem counted_initlock : Counted (initlock : Spinlocks Lock) :=
  fun _ => ⟨∅, rfl, fun lk => by simp [initlock]⟩

theorem Counted.taken (counted : Counted spin) (free : spin.owner lk = none) :
    Counted (spin.taken cpu lk) := by
  intro other
  rcases counted other with ⟨held, card, member⟩
  by_cases same : other = cpu
  · subst same
    refine ⟨insert lk held, ?_, ?_⟩
    · have fresh : lk ∉ held := by
        rw [member, free]
        exact nofun
      rw [Finset.card_insert_of_notMem fresh, card]
      simp only [Spinlocks.taken, update_self]
    · intro each
      rw [taken_owner_iff free, Finset.mem_insert, member]
      simp [or_comm]
  · refine ⟨held, ?_, ?_⟩
    · simp only [card, Spinlocks.taken, update_of_ne same]
    · intro each
      rw [taken_owner_iff free, member]
      simp [same]

theorem Counted.dropped (counted : Counted spin) (holds : spin.owner lk = some cpu) :
    Counted (spin.dropped cpu lk) := by
  intro other
  rcases counted other with ⟨held, card, member⟩
  refine ⟨held.erase lk, ?_, ?_⟩
  · by_cases same : other = cpu
    · subst same
      rw [Finset.card_erase_of_mem ((member lk).mpr holds), card]
      simp only [Spinlocks.dropped, update_self]
    · have outside : lk ∉ held := by
        rw [member, holds]
        exact fun equal => same (Option.some.inj equal).symm
      rw [Finset.erase_eq_of_notMem outside, card]
      simp only [Spinlocks.dropped, update_of_ne same]
  · intro each
    rw [dropped_owner_iff, Finset.mem_erase, member, and_comm]

omit [DecidableEq Lock] in
theorem Counted.owner_ne (counted : Counted spin) (none : spin.noff cpu = 0) (lk : Lock) :
    spin.owner lk ≠ some cpu := by
  rcases counted cpu with ⟨held, card, member⟩
  rw [none, Finset.card_eq_zero] at card
  intro holds
  have inside := (member lk).mpr holds
  rw [card] at inside
  exact absurd inside (Finset.notMem_empty lk)

omit [DecidableEq Lock] in
theorem Counted.owner_unique (counted : Counted spin) (one : spin.noff cpu = 1)
    (holds : spin.owner lk = some cpu) (alsoHolds : spin.owner other = some cpu) : other = lk := by
  rcases counted cpu with ⟨held, card, member⟩
  rw [one, Finset.card_eq_one] at card
  rcases card with ⟨only, equal⟩
  have first := (member lk).mpr holds
  have second := (member other).mpr alsoHolds
  rw [equal, Finset.mem_singleton] at first second
  rw [first, second]

end Spinlocks

end Xv6
