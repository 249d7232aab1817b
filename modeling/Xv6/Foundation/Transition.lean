import Mathlib.Logic.Basic

/-! # Labelled transition systems

A system is a step function: in a given state a label is either disabled, or
leads to one next state, or stops the system with a message. The rules below
turn a property of one step into a property of every run. -/

namespace Xv6

/-- What one labelled step of a system can do. -/
inductive Outcome (State : Type u) where
  | next (state : State)
  | panic (message : String)
  | disabled

namespace Outcome

def map (transform : State → Other) : Outcome State → Outcome Other
  | .next state => .next (transform state)
  | .panic message => .panic message
  | .disabled => .disabled

@[simp] theorem map_eq_next_iff (transform : State → Other)
    (outcome : Outcome State) (target : Other) :
    outcome.map transform = .next target ↔
      ∃ state, outcome = .next state ∧ transform state = target := by
  cases outcome <;> simp [map]

@[simp] theorem map_eq_panic_iff (transform : State → Other)
    (outcome : Outcome State) (message : String) :
    outcome.map transform = .panic message ↔ outcome = .panic message := by
  cases outcome <;> simp [map]

def isNext : Outcome State → Bool
  | .next _ => true
  | _ => false

def getD (default : State) : Outcome State → State
  | .next state => state
  | _ => default

theorem eq_next_of_isNext {outcome : Outcome State} (default : State)
    (holds : outcome.isNext = true) : outcome = .next (outcome.getD default) := by
  cases outcome with
  | next state => rfl
  | panic | disabled => cases holds

theorem eq_next_pair {Value : Type} {outcome : Outcome (Value × State)}
    (default : Value × State) {value : Value} (holds : outcome.isNext = true)
    (first : (outcome.getD default).1 = value) :
    outcome = .next (value, (outcome.getD default).2) := by
  rw [← first]
  exact eq_next_of_isNext default holds

end Outcome

/-- A run of `step`: every label is enabled and no step stops the system. -/
inductive Steps (step : State → Label → Outcome State) :
    State → List Label → State → Prop
  | nil (state) : Steps step state [] state
  | cons {first middle last label labels} : step first label = .next middle →
      Steps step middle labels last → Steps step first (label :: labels) last

/-- A run each of whose steps meets `Allowed` in the state it starts from. -/
inductive StepsWhere (step : State → Label → Outcome State)
    (Allowed : State → Label → Prop) : State → List Label → State → Prop
  | nil (state) : StepsWhere step Allowed state [] state
  | cons {first middle last label labels} : Allowed first label → step first label = .next middle →
      StepsWhere step Allowed middle labels last →
      StepsWhere step Allowed first (label :: labels) last

/-- Run the labels one after another, as a function. -/
def runSteps (step : State → Label → Outcome State) :
    State → List Label → Outcome State
  | state, [] => .next state
  | state, label :: labels =>
    match step state label with
    | .next middle => runSteps step middle labels
    | .panic message => .panic message
    | .disabled => .disabled

variable {step : State → Label → Outcome State} {Allowed : State → Label → Prop}

variable {first last : State} {labels : List Label}

theorem steps_iff_runSteps :
    Steps step first labels last ↔ runSteps step first labels = .next last := by
  constructor
  · intro run
    induction run with
    | nil => rfl
    | cons stepEq _ induction => simp [runSteps, stepEq, induction]
  · intro equal
    induction labels generalizing first with
    | nil =>
      simp only [runSteps, Outcome.next.injEq] at equal
      exact equal ▸ Steps.nil first
    | cons label labels induction =>
      simp only [runSteps] at equal
      split at equal
      · rename_i middle stepEq
        exact Steps.cons stepEq (induction equal)
      · cases equal
      · cases equal

/-- Run the labels one after another, stopping at a step that is not allowed. -/
def runStepsWhere (step : State → Label → Outcome State) (allowed : State → Label → Bool) :
    State → List Label → Outcome State
  | state, [] => .next state
  | state, label :: labels =>
    if allowed state label then
      match step state label with
      | .next middle => runStepsWhere step allowed middle labels
      | .panic message => .panic message
      | .disabled => .disabled
    else .disabled

theorem StepsWhere.of_runStepsWhere {allowed : State → Label → Bool}
    (sound : ∀ state label, allowed state label = true → Allowed state label)
    (equal : runStepsWhere step allowed first labels = .next last) :
    StepsWhere step Allowed first labels last := by
  induction labels generalizing first with
  | nil =>
    simp only [runStepsWhere, Outcome.next.injEq] at equal
    exact equal ▸ StepsWhere.nil first
  | cons label labels induction =>
    simp only [runStepsWhere] at equal
    split at equal
    · rename_i isAllowed
      split at equal
      · rename_i middle stepEq
        exact StepsWhere.cons (sound first label isAllowed) stepEq (induction equal)
      · cases equal
      · cases equal
    · cases equal

theorem runSteps_append (run : Steps step first before middle) :
    runSteps step first (before ++ after) = runSteps step middle after := by
  induction run with
  | nil => rfl
  | cons stepEq _ induction => simp [runSteps, stepEq, induction]

/-- A run that panics does so at one of its steps, in a state it has reached. -/
theorem runSteps_eq_panic (panics : runSteps step first labels = .panic message) :
    ∃ before label after state, labels = before ++ label :: after ∧
      Steps step first before state ∧ step state label = .panic message := by
  induction labels generalizing first with
  | nil => cases panics
  | cons label labels induction =>
    simp only [runSteps] at panics
    split at panics
    · rename_i middle stepEq
      rcases induction panics with ⟨before, last, after, state, rfl, run, stops⟩
      exact ⟨label :: before, last, after, state, rfl, .cons stepEq run, stops⟩
    · rename_i stops
      cases panics
      exact ⟨[], label, labels, first, rfl, .nil first, stops⟩
    · cases panics

/-- What every step preserves holds after every run. -/
theorem Steps.invariant {Invariant : State → Prop}
    (preserved : ∀ state label next, Invariant state →
      step state label = .next next → Invariant next)
    {first last : State} {labels : List Label}
    (run : Steps step first labels last) (initial : Invariant first) :
    Invariant last := by
  induction run with
  | nil => exact initial
  | cons stepEq _ induction => exact induction (preserved _ _ _ initial stepEq)

/-- What every allowed step preserves holds after every run of allowed steps. -/
theorem StepsWhere.invariant {Invariant : State → Prop}
    (preserved : ∀ state label next, Invariant state → Allowed state label →
      step state label = .next next → Invariant next)
    {first last : State} {labels : List Label}
    (run : StepsWhere step Allowed first labels last)
    (initial : Invariant first) : Invariant last := by
  induction run with
  | nil => exact initial
  | cons allowed stepEq _ induction =>
    exact induction (preserved _ _ _ initial allowed stepEq)

end Xv6
