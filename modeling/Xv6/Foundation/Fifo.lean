import Mathlib.Data.Int.ModEq

/-! # Ring buffers with wrapping counters

A ring of `capacity` cells with two counters that wrap at `modulus`: the cell of
a counter value is its remainder modulo `capacity`. The contents are the cells
from the reading counter up to the writing one. -/

namespace Xv6

variable {Item : Type}

/-- The cells from `nread` to `nwrite` are `contents`. -/
structure Fifo (capacity modulus : Nat) (data : Nat → Item) (nread nwrite : Nat)
    (contents : List Item) : Prop where
  bounded : nread < modulus
  length : contents.length ≤ capacity
  nwrite_eq : nwrite = (nread + contents.length) % modulus
  cell : ∀ k item, contents[k]? = some item → data ((nread + k) % modulus % capacity) = item

namespace Fifo

variable {capacity modulus : Nat} {data : Nat → Item} {nread nwrite : Nat} {contents : List Item}

theorem nil (bounded : nread < modulus) : Fifo capacity modulus data nread nread [] where
  bounded := bounded
  length := Nat.zero_le _
  nwrite_eq := (Nat.mod_eq_of_lt bounded).symm
  cell := nofun

section

variable (fifo : Fifo capacity modulus data nread nwrite contents) (small : capacity < modulus)

include fifo small

/-- The difference of the counters, modulo `modulus`, is the number of items. -/
theorem difference : (nwrite + (modulus - nread)) % modulus = contents.length := by
  have bounded := fifo.bounded
  have length := fifo.length
  rw [fifo.nwrite_eq, Nat.mod_add_mod]
  have split : nread + contents.length + (modulus - nread) = contents.length + modulus := by omega
  rw [split, Nat.add_mod_right, Nat.mod_eq_of_lt (by omega)]

theorem nwrite_eq_iff (bound : count ≤ capacity) :
    nwrite = (nread + count) % modulus ↔ contents.length = count := by
  constructor
  · intro equal
    have difference := fifo.difference small
    have bounded := fifo.bounded
    rw [equal, Nat.mod_add_mod] at difference
    have split : nread + count + (modulus - nread) = count + modulus := by omega
    rw [split, Nat.add_mod_right, Nat.mod_eq_of_lt (by omega)] at difference
    exact difference.symm
  · intro equal
    rw [fifo.nwrite_eq, equal]

theorem full_iff : nwrite = (nread + capacity) % modulus ↔ contents.length = capacity :=
  fifo.nwrite_eq_iff small le_rfl

theorem empty_iff : nread = nwrite ↔ contents = [] := by
  have iff := fifo.nwrite_eq_iff small (Nat.zero_le _)
  rw [Nat.add_zero, Nat.mod_eq_of_lt fifo.bounded, List.length_eq_zero_iff] at iff
  exact eq_comm.trans iff

end

/-- Items at different places of the contents are in different cells. -/
theorem cell_injective (divides : capacity ∣ modulus) (iBound : i < capacity)
    (jBound : j < capacity)
    (equal : (start + i) % modulus % capacity = (start + j) % modulus % capacity) : i = j := by
  rw [Nat.mod_mod_of_dvd _ divides, Nat.mod_mod_of_dvd _ divides] at equal
  have same : i ≡ j [MOD capacity] := Nat.ModEq.add_left_cancel' start equal
  rw [Nat.ModEq, Nat.mod_eq_of_lt iBound, Nat.mod_eq_of_lt jBound] at same
  exact same

/-- The cell behind the last item may be written while there is space. -/
theorem write (fifo : Fifo capacity modulus data nread nwrite contents)
    (divides : capacity ∣ modulus) (space : contents.length < capacity) (item : Item) :
    Fifo capacity modulus (Function.update data (nwrite % capacity) item) nread nwrite
      contents where
  bounded := fifo.bounded
  length := fifo.length
  nwrite_eq := fifo.nwrite_eq
  cell := by
    intro k found present
    have bound := (List.getElem?_eq_some_iff.mp present).1
    rw [Function.update_of_ne]
    · exact fifo.cell k found present
    · rw [fifo.nwrite_eq]
      intro equal
      have same := cell_injective divides (Nat.lt_trans bound space) space equal
      omega

variable {item : Item}

/-- The item behind the last one becomes part of the contents. -/
theorem push (fifo : Fifo capacity modulus data nread nwrite contents)
    (space : contents.length < capacity) (written : data (nwrite % capacity) = item) :
    Fifo capacity modulus data nread ((nwrite + 1) % modulus) (contents ++ [item]) where
  bounded := fifo.bounded
  length := by
    rw [List.length_append, List.length_singleton]
    exact space
  nwrite_eq := by
    rw [fifo.nwrite_eq, Nat.mod_add_mod, List.length_append, List.length_singleton, Nat.add_assoc]
  cell := by
    intro k found present
    by_cases last : k = contents.length
    · subst last
      rw [List.getElem?_append_right (Nat.le_refl _), Nat.sub_self] at present
      cases present
      rw [← fifo.nwrite_eq]
      exact written
    · have bound : k < contents.length := by
        have inside := (List.getElem?_eq_some_iff.mp present).1
        rw [List.length_append, List.length_singleton] at inside
        omega
      rw [List.getElem?_append_left bound] at present
      exact fifo.cell k found present

/-- Put an item behind the others. -/
theorem put (fifo : Fifo capacity modulus data nread nwrite contents)
    (divides : capacity ∣ modulus) (space : contents.length < capacity) (item : Item) :
    Fifo capacity modulus (Function.update data (nwrite % capacity) item) nread
      ((nwrite + 1) % modulus) (contents ++ [item]) :=
  (fifo.write divides space item).push space (Function.update_self ..)

/-- Take the first item. -/
theorem take {item : Item} (fifo : Fifo capacity modulus data nread nwrite (item :: contents)) :
    data (nread % capacity) = item ∧
      Fifo capacity modulus data ((nread + 1) % modulus) nwrite contents := by
  constructor
  · have first := fifo.cell 0 item rfl
    rw [Nat.add_zero, Nat.mod_eq_of_lt fifo.bounded] at first
    exact first
  · constructor
    · exact Nat.mod_lt _ (by have := fifo.bounded; omega)
    · have length := fifo.length
      rw [List.length_cons] at length
      omega
    · rw [fifo.nwrite_eq, Nat.mod_add_mod, List.length_cons, Nat.add_assoc, Nat.add_comm 1]
    · intro k found present
      rw [Nat.mod_add_mod, Nat.add_assoc, Nat.add_comm 1]
      exact fifo.cell (k + 1) found present

/-- Take the last item back. -/
theorem unput (fifo : Fifo capacity modulus data nread nwrite (contents ++ [item]))
    (small : capacity < modulus) :
    data ((modulus - 1 + nwrite) % modulus % capacity) = item ∧
      Fifo capacity modulus data nread ((modulus - 1 + nwrite) % modulus) contents := by
  have length := fifo.length
  rw [List.length_append, List.length_singleton] at length
  have back : (modulus - 1 + nwrite) % modulus = (nread + contents.length) % modulus := by
    have split : modulus - 1 + (nread + (contents.length + 1)) =
        nread + contents.length + modulus := by omega
    rw [fifo.nwrite_eq, Nat.add_mod_mod, List.length_append, List.length_singleton, split,
      Nat.add_mod_right]
  rw [back]
  refine ⟨fifo.cell contents.length item (by simp), fifo.bounded, Nat.le_of_succ_le length, rfl,
    fun k found present => ?_⟩
  have bound := (List.getElem?_eq_some_iff.mp present).1
  exact fifo.cell k found (by rw [List.getElem?_append_left bound]; exact present)

end Fifo

end Xv6
