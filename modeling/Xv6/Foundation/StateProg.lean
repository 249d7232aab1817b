import Xv6.Foundation.Exec

/-! # Programs over a state

The interface whose only calls read and replace the state. -/

namespace Xv6

inductive StateOp (State : Type) where
  | get
  | put (state : State)

namespace StateOp

abbrev Res {State : Type} : StateOp State → Type
  | .get => State
  | .put _ => Unit

def handle {State : Type} : Prog.Handler (StateOp State) Res State
  | .get, state => (state, state)
  | .put next, _ => ((), next)

end StateOp

abbrev StateProg (State Value : Type) := Prog (StateOp State) StateOp.Res Value

namespace StateProg

variable {State Part Value Value' : Type} {allowed : String → Prop}

def get : StateProg State State := .call .get .ret

def put (state : State) : StateProg State Unit := .call (.put state) .ret

def modify (change : State → State) : StateProg State Unit := do
  put (change (← get))

/-- Run a program on a part of the state. -/
def zoom (view : State → Part) (replace : Part → State → State) :
    StateProg Part Value → StateProg State Value
  | .ret value => .ret value
  | .panic message => .panic message
  | .choose rest => .choose fun answer => zoom view replace (rest answer)
  | .call .get rest => .call .get fun state => zoom view replace (rest (view state))
  | .call (.put part) rest =>
    .call .get fun state => .call (.put (replace part state)) fun _ =>
      zoom view replace (rest ())

/-- `wp` over a state, with `StateOp.handle` answering. -/
abbrev wp (allowed : String → Prop) (program : StateProg State Value) (state : State)
    (post : Value → State → Prop) : Prop :=
  Prog.wp StateOp.handle allowed program state post

variable {state : State}

@[simp] theorem wp_get {post : State → State → Prop} :
    wp allowed get state post ↔ post state state := by
  rw [get, wp, Prog.wp_call]
  exact Prog.wp_ret

variable {post : Unit → State → Prop}

@[simp] theorem wp_put : wp allowed (put next) state post ↔ post () next := by
  rw [put, wp, Prog.wp_call]
  exact Prog.wp_ret

@[simp] theorem wp_modify {change : State → State} :
    wp allowed (modify change) state post ↔ post () (change state) := by
  simp only [modify, Prog.wp_bind, wp_get, wp_put]

theorem wp_zoom {view : State → Part} {replace : Part → State → State}
    (viewed : ∀ part state, view (replace part state) = part)
    (replaced : ∀ first second state, replace first (replace second state) = replace first state)
    (kept : ∀ state, replace (view state) state = state) {post : Value → State → Prop}
    (holds : wp allowed program (view state) fun value part => post value (replace part state)) :
    wp allowed (zoom view replace program) state post := by
  induction program generalizing state with
  | ret value =>
    rw [wp, Prog.wp_ret, kept] at holds
    exact Prog.wp_ret.mpr holds
  | panic message => exact Prog.wp_panic.mpr (Prog.wp_panic.mp holds)
  | choose rest induction =>
    exact Prog.wp_choose.mpr fun answer => induction answer (Prog.wp_choose.mp holds answer)
  | call op rest induction =>
    have rest_holds := Prog.wp_call.mp holds
    cases op with
    | get => exact Prog.wp_call.mpr (induction _ rest_holds)
    | put part =>
      apply Prog.wp_call.mpr
      apply Prog.wp_call.mpr
      apply induction ()
      have same : view (replace part state) = part := viewed part state
      have held : wp allowed (rest ()) (view (replace part state)) fun value after =>
          post value (replace after (replace part state)) := by
        rw [same]
        apply Prog.wp_mono rest_holds
        intro value after ended
        rw [replaced]
        exact ended
      exact held

end StateProg

end Xv6
