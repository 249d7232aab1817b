import Mathlib.Data.List.Basic

/-! # A map in slots

A list of slots, each of which is free or binds a key to a value. If no key is bound
twice, the list is a finite map. A new binding goes into the first free slot, or
behind the last one. -/

namespace Xv6

/-- Each slot is free, or binds a key to a value. -/
abbrev SlotMap (Key Value : Type) := List (Option (Key × Value))

namespace SlotMap

variable {Key Value : Type} {slots : SlotMap Key Value} {key : Key} {value : Value} {i : Nat}

/-- Slot `i` binds `key` to `value`. -/
def Binds (slots : SlotMap Key Value) (key : Key) (i : Nat) (value : Value) : Prop :=
  slots[i]? = some (some (key, value))

/-- No slot binds `key`. -/
def Absent (slots : SlotMap Key Value) (key : Key) : Prop := ∀ i value, ¬ slots.Binds key i value

/-- No key is bound twice. -/
def Distinct (slots : SlotMap Key Value) : Prop :=
  ∀ ⦃key i j value other⦄, slots.Binds key i value → slots.Binds key j other → i = j

/-- The first free slot, or the number of slots. -/
def firstFree : SlotMap Key Value → Nat
  | [] => 0
  | none :: _ => 0
  | some _ :: rest => firstFree rest + 1

/-- Set slot `i`, or add it behind the last one. -/
def put (slots : SlotMap Key Value) (i : Nat) (slot : Option (Key × Value)) :
    SlotMap Key Value :=
  if i < slots.length then slots.set i slot else slots ++ [slot]

theorem firstFree_le : slots.firstFree ≤ slots.length := by
  induction slots with
  | nil => exact Nat.le_refl _
  | cons slot rest induction =>
    cases slot with
    | none => exact Nat.zero_le _
    | some binding =>
      rw [firstFree, List.length_cons]
      omega

/-- The slots up to `i` are in use, and slot `i` is free or behind the last one. -/
theorem firstFree_eq (used : ∀ j < i, ∃ binding, slots[j]? = some (some binding))
    (free : slots[i]? = some none ∨ slots.length = i) : slots.firstFree = i := by
  induction slots generalizing i with
  | nil =>
    rcases free with found | last
    · cases found
    · exact last
  | cons slot rest induction =>
    cases i with
    | zero =>
      rcases free with found | last
      · cases slot with
        | none => rfl
        | some binding => cases found
      · cases last
    | succ i =>
      rcases used 0 (Nat.succ_pos i) with ⟨binding, first⟩
      cases first
      rw [firstFree, induction]
      · intro j below
        exact used (j + 1) (Nat.succ_lt_succ below)
      · exact free.imp id Nat.succ.inj

theorem put_getElem? (inside : i ≤ slots.length) (slot : Option (Key × Value)) (j : Nat) :
    (slots.put i slot)[j]? = if j = i then some slot else slots[j]? := by
  unfold put
  split
  · rename_i below
    rw [List.getElem?_set]
    by_cases here : j = i
    · rw [if_pos here, if_pos here.symm, if_pos below]
    · rw [if_neg here, if_neg (Ne.symm here)]
  · rename_i outside
    have last : i = slots.length := by omega
    by_cases here : j = i
    · rw [if_pos here, here, last, List.getElem?_concat_length]
    · rw [if_neg here]
      by_cases below : j < slots.length
      · rw [List.getElem?_append_left below]
      · rw [List.getElem?_eq_none (by simp; omega), List.getElem?_eq_none (by omega)]

theorem binds_put (inside : i ≤ slots.length) :
    (slots.put i slot).Binds key j value ↔
      if j = i then slot = some (key, value) else slots.Binds key j value := by
  unfold Binds
  rw [put_getElem? inside]
  split
  · exact Option.some_inj
  · rfl

/-- A key that is absent is bound. -/
theorem Distinct.bind (distinct : slots.Distinct) (absent : slots.Absent key)
    (inside : i ≤ slots.length) : (slots.put i (some (key, value))).Distinct := by
  intro k first second v w atFirst atSecond
  rw [binds_put inside] at atFirst atSecond
  split at atFirst <;> split at atSecond
  · rename_i isFirst isSecond
    exact isFirst.trans isSecond.symm
  · cases atFirst
    exact absurd atSecond (absent second w)
  · cases atSecond
    exact absurd atFirst (absent first v)
  · exact distinct atFirst atSecond

/-- A slot is freed. -/
theorem Distinct.free (distinct : slots.Distinct) (inside : i ≤ slots.length) :
    (slots.put i none).Distinct := by
  intro k first second v w atFirst atSecond
  rw [binds_put inside] at atFirst atSecond
  split at atFirst <;> split at atSecond
  · cases atFirst
  · cases atFirst
  · cases atSecond
  · exact distinct atFirst atSecond

end SlotMap

end Xv6
