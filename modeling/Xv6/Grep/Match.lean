import Mathlib.Data.List.Forall2

/-! # The matcher of `user/grep.c`

A C string is the list of its bytes before the NUL. -/

namespace Xv6.Grep

/-- One character of a pattern, and then `here`. -/
def matchOne (c : UInt8) (here : List UInt8 → Bool) : List UInt8 → Bool
  | [] => false
  | t :: text => (c = '.'.toUInt8 || c = t) && here text

/-- `matchstar`: zero or more of `c`, and then `here`. -/
def matchstar (c : UInt8) (here : List UInt8 → Bool) : List UInt8 → Bool
  | [] => here []
  | t :: text => here (t :: text) || (t = c || c = '.'.toUInt8) && matchstar c here text

def matchhere : List UInt8 → List UInt8 → Bool
  | [], _ => true
  | [c], text => if c = '$'.toUInt8 then text.isEmpty else matchOne c (matchhere []) text
  | c :: d :: re, text =>
    if d = '*'.toUInt8 then matchstar c (matchhere re) text
    else matchOne c (matchhere (d :: re)) text

/-- The loop of `match`. -/
def matchAny (re : List UInt8) : List UInt8 → Bool
  | [] => matchhere re []
  | t :: text => matchhere re (t :: text) || matchAny re text

/-- `match` -/
def matchText (re text : List UInt8) : Bool :=
  if re.head? = some '^'.toUInt8 then matchhere re.tail text else matchAny re text

/-! ## What a pattern means -/

inductive Item where
  | one (c : UInt8)
  | star (c : UInt8)

/-- The items of a pattern, and whether it ends at the end of the text. -/
def items : List UInt8 → List Item × Bool
  | [] => ([], false)
  | [c] => if c = '$'.toUInt8 then ([], true) else ([.one c], false)
  | c :: d :: re =>
    if d = '*'.toUInt8 then (.star c :: (items re).1, (items re).2)
    else (.one c :: (items (d :: re)).1, (items (d :: re)).2)

/-- `.` stands for any character. -/
def Stands (c t : UInt8) : Prop := c = '.'.toUInt8 ∨ c = t

def Item.Matches : Item → List UInt8 → Prop
  | .one c, text => ∃ t, text = [t] ∧ Stands c t
  | .star c, text => ∀ t ∈ text, Stands c t

/-- The text begins with strings that the items match, one after the other. -/
def Begins (re text : List UInt8) : Prop :=
  ∃ pieces rest, text = pieces.flatten ++ rest ∧ List.Forall₂ Item.Matches (items re).1 pieces ∧
    ((items re).2 = true → rest = [])

/-- Some substring of the text is such a concatenation: a prefix if the pattern begins with
`^`, a suffix if it ends with `$`. -/
def Means (re text : List UInt8) : Prop :=
  if re.head? = some '^'.toUInt8 then Begins re.tail text
  else ∃ before rest, text = before ++ rest ∧ Begins re rest

variable {re re' text : List UInt8} {item : Item} {c : UInt8} {here : List UInt8 → Bool}

theorem begins_cons (parsed : items re = (item :: (items re').1, (items re').2)) :
    Begins re text ↔ ∃ piece rest, text = piece ++ rest ∧ item.Matches piece ∧ Begins re' rest := by
  constructor
  · rintro ⟨pieces, rest, rfl, matched, ends⟩
    rw [parsed] at matched ends
    cases matched with
    | cons first others =>
      exact ⟨_, _, List.append_assoc .., first, _, rest, rfl, others, ends⟩
  · rintro ⟨piece, _, rfl, first, pieces, rest, rfl, others, ends⟩
    refine ⟨piece :: pieces, rest, (List.append_assoc ..).symm, ?_, ?_⟩
    · rw [parsed]
      exact .cons first others
    · rw [parsed]
      exact ends

theorem matchOne_iff :
    matchOne c here text = true ↔
      ∃ piece rest, text = piece ++ rest ∧ (Item.one c).Matches piece ∧ here rest = true := by
  cases text with
  | nil =>
    refine iff_of_false Bool.false_ne_true ?_
    rintro ⟨_, rest, equal, ⟨t, rfl, _⟩, _⟩
    cases equal
  | cons t text =>
    simp only [matchOne, Bool.and_eq_true, Bool.or_eq_true, decide_eq_true_eq]
    constructor
    · rintro ⟨stands, holds⟩
      exact ⟨[t], text, rfl, ⟨t, rfl, stands⟩, holds⟩
    · rintro ⟨_, rest, equal, ⟨t, rfl, stands⟩, holds⟩
      cases equal
      exact ⟨stands, holds⟩

theorem matchstar_iff :
    matchstar c here text = true ↔
      ∃ piece rest, text = piece ++ rest ∧ (Item.star c).Matches piece ∧ here rest = true := by
  induction text with
  | nil =>
    constructor
    · intro holds
      exact ⟨[], [], rfl, fun _ member => (by cases member), holds⟩
    · rintro ⟨piece, rest, equal, _, holds⟩
      rw [(List.append_eq_nil_iff.mp equal.symm).2] at holds
      exact holds
  | cons t text induction =>
    simp only [matchstar, Bool.or_eq_true, Bool.and_eq_true, decide_eq_true_eq, induction]
    constructor
    · rintro (holds | ⟨stands, piece, rest, rfl, matched, holds⟩)
      · exact ⟨[], _, rfl, fun _ member => (by cases member), holds⟩
      · refine ⟨t :: piece, rest, rfl, ?_, holds⟩
        intro other member
        rcases List.mem_cons.mp member with rfl | later
        · exact stands.symm.imp_right Eq.symm
        · exact matched other later
    · rintro ⟨piece, rest, equal, matched, holds⟩
      cases piece with
      | nil =>
        rw [equal]
        exact .inl holds
      | cons first piece =>
        cases equal
        have stands := matched t List.mem_cons_self
        exact .inr ⟨stands.symm.imp_left Eq.symm, piece, rest, rfl,
          fun other member => matched other (List.mem_cons_of_mem _ member), holds⟩

theorem matchhere_iff : ∀ re text, matchhere re text = true ↔ Begins re text
  | [], text => iff_of_true rfl ⟨[], text, rfl, .nil, fun ends => by cases ends⟩
  | [c], text => by
    rw [matchhere]
    split
    · rename_i isEnd
      have parsed : items [c] = ([], true) := if_pos isEnd
      rw [List.isEmpty_iff, Begins, parsed]
      constructor
      · rintro rfl
        exact ⟨[], [], rfl, .nil, fun _ => rfl⟩
      · rintro ⟨pieces, rest, rfl, matched, ends⟩
        cases matched
        exact ends rfl
    · rename_i notEnd
      have parsed : items [c] = (.one c :: (items []).1, (items []).2) := if_neg notEnd
      rw [matchOne_iff, begins_cons parsed]
      simp only [matchhere_iff]
  | c :: d :: re, text => by
    rw [matchhere]
    split
    · rename_i isStar
      have parsed : items (c :: d :: re) = (.star c :: (items re).1, (items re).2) := if_pos isStar
      rw [matchstar_iff, begins_cons parsed]
      simp only [matchhere_iff]
    · rename_i notStar
      have parsed : items (c :: d :: re) = (.one c :: (items (d :: re)).1, (items (d :: re)).2) :=
        if_neg notStar
      rw [matchOne_iff, begins_cons parsed]
      simp only [matchhere_iff]

theorem matchAny_iff :
    matchAny re text = true ↔ ∃ before rest, text = before ++ rest ∧ Begins re rest := by
  induction text with
  | nil =>
    rw [matchAny, matchhere_iff]
    constructor
    · exact fun begins => ⟨[], [], rfl, begins⟩
    · rintro ⟨before, rest, equal, begins⟩
      rwa [(List.append_eq_nil_iff.mp equal.symm).2] at begins
  | cons t text induction =>
    rw [matchAny, Bool.or_eq_true, matchhere_iff, induction]
    constructor
    · rintro (begins | ⟨before, rest, rfl, begins⟩)
      · exact ⟨[], _, rfl, begins⟩
      · exact ⟨t :: before, rest, rfl, begins⟩
    · rintro ⟨before, rest, equal, begins⟩
      cases before with
      | nil =>
        rw [equal]
        exact .inl begins
      | cons first before =>
        cases equal
        exact .inr ⟨before, rest, rfl, begins⟩

/-- The matcher agrees with the meaning of the pattern, on every pattern and every text. -/
theorem matchText_iff_means (re text : List UInt8) : matchText re text = true ↔ Means re text := by
  rw [matchText, Means]
  split
  · exact matchhere_iff _ _
  · exact matchAny_iff

end Xv6.Grep
