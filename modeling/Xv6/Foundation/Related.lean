import Mathlib.Logic.Basic

/-! # Related computations

Two computations that can fail are related when they fail in the same way, or
both return and what they return is related. -/

namespace Xv6

inductive Related (Match : α → β → Prop) : Except ε α → Except ε β → Prop
  | ok {left right} : Match left right → Related Match (.ok left) (.ok right)
  | error (fault : ε) : Related Match (.error fault) (.error fault)

namespace Related

variable {Match : α → β → Prop} {Next : γ → δ → Prop} {left : Except ε α} {right : Except ε β}

/-- Related computations stay related when related computations follow them. -/
theorem bind {thenLeft : α → Except ε γ} {thenRight : β → Except ε δ}
    (related : Related Match left right)
    (continue_ : ∀ a b, Match a b → Related Next (thenLeft a) (thenRight b)) :
    Related Next (left >>= thenLeft) (right >>= thenRight) := by
  cases related with
  | ok holds => exact continue_ _ _ holds
  | error fault => exact .error fault

theorem of_ok (related : Related Match left (.ok value)) :
    ∃ result, left = .ok result ∧ Match result value := by
  cases related with
  | ok holds => exact ⟨_, rfl, holds⟩

theorem to_ok (related : Related Match (.ok value) right) :
    ∃ result, right = .ok result ∧ Match value result := by
  cases related with
  | ok holds => exact ⟨_, rfl, holds⟩

theorem to_error (related : Related Match (.error fault) right) : right = .error fault := by
  cases related with
  | error => rfl

end Related

end Xv6
