import Mathlib.Data.List.Basic

/-! # Histories

A history is the list of the events of a run, the newest first. Events may be
about a key, and `Ordered` says that every event was allowed to follow what came
before it. -/

namespace Xv6

variable {Event Key : Type} {about : Event → Option Key}

/-- The last event about a key. -/
def lastAbout [DecidableEq Key] (about : Event → Option Key) (key : Key)
    (history : List Event) : Option Event :=
  history.find? fun event => about event = some key

section LastAbout

variable [DecidableEq Key] {key : Key} {event : Event} {history : List Event}

theorem lastAbout_cons_self (about : Event → Option Key) (isAbout : about event = some key) :
    lastAbout about key (event :: history) = some event := by
  simp [lastAbout, isAbout]

theorem lastAbout_cons_of_ne (other : about event ≠ some key) :
    lastAbout about key (event :: history) = lastAbout about key history := by
  simp [lastAbout, other]

theorem lastAbout_eq_some_iff :
    lastAbout about key history = some event ↔ about event = some key ∧
      ∃ between earlier, history = between ++ event :: earlier ∧
        ∀ other ∈ between, about other ≠ some key := by
  simp [lastAbout, List.find?_eq_some_iff_append]

end LastAbout

/-- Every event was allowed to come after the events before it. -/
def Ordered (follows : List Event → Event → Prop) : List Event → Prop
  | [] => True
  | event :: before => follows before event ∧ Ordered follows before

namespace Ordered

variable {follows : List Event → Event → Prop} {event : Event} {history after before : List Event}

theorem follows_of_split (ordered : Ordered follows history)
    (split : history = after ++ event :: before) : follows before event := by
  subst split
  induction after with
  | nil => exact ordered.1
  | cons _ _ induction => exact induction ordered.2

theorem before_of_split (ordered : Ordered follows history)
    (split : history = after ++ event :: before) : Ordered follows before := by
  subst split
  induction after with
  | nil => exact ordered.2
  | cons _ _ induction => exact induction ordered.2

end Ordered

end Xv6
