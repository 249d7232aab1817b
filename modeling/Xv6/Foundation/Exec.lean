import Xv6.Foundation.Prog

/-! # Programs against a state that may make them wait

The state answers a call, or panics, or lets the caller wait. `ensures` says how
a program ends when nobody else acts; what is allowed besides a return is a
parameter, so that the same rules serve for total and for partial correctness. -/

namespace Xv6.Prog

variable {Op : Type} {Res : Op → Type} {Value Value' Acc State : Type}

/-- A state that answers a call, panics, or lets the caller wait. -/
abbrev Exec (Op : Type) (Res : Op → Type) (State : Type) :=
  (op : Op) → State → Outcome (Res op × State)

/-- Run a program; `answers` are the values of its choices in order. -/
def exec (on : Exec Op Res State) :
    Prog Op Res Value → State → (answers : List Nat) → Outcome (Value × State)
  | .ret value, state, _ => .next (value, state)
  | .panic message, _, _ => .panic message
  | .choose rest, state, answers => exec on (rest (answers.headD 0)) state answers.tail
  | .call op rest, state, answers =>
    match on op state with
    | .next (result, after) => exec on (rest result) after answers
    | .panic message => .panic message
    | .disabled => .disabled

/-- What holds at the end of a loop, by the way it ends. -/
def Flow.Ends (next : Acc → State → Prop) (done : Value → State → Prop) :
    Flow Acc Value → State → Prop
  | .next acc => next acc
  | .done value => done value

/-- What a program may do besides returning: panic in some states, and wait in some. -/
structure Allows (State : Type) where
  panic : String → State → Prop
  wait : State → Prop

/-- The program has to return. -/
def Allows.nothing : Allows State := ⟨fun _ _ => False, fun _ => False⟩

/-- The program may stop in a state with `inv`, whatever the reason is. -/
def Allows.stopping (inv : State → Prop) : Allows State := ⟨fun _ => inv, inv⟩

/-- The program may do what it likes, as long as it does not return. -/
def Allows.everything : Allows State := .stopping fun _ => True

/-- A call is answered such that `post` holds, or ends in what is allowed. -/
def answered (allows : Allows State) (state : State) (outcome : Outcome (Value × State))
    (post : Value → State → Prop) : Prop :=
  match outcome with
  | .next (value, after) => post value after
  | .panic message => allows.panic message state
  | .disabled => allows.wait state

/-- Whatever the choices are, the program ends in a value and a state that meet
`post`, or in what is allowed. -/
def ensures (on : Exec Op Res State) (allows : Allows State) :
    Prog Op Res Value → State → (post : Value → State → Prop) → Prop
  | .ret value, state, post => post value state
  | .panic message, state, _ => allows.panic message state
  | .choose rest, state, post => ∀ answer, ensures on allows (rest answer) state post
  | .call op rest, state, post =>
    answered allows state (on op state) fun result after =>
      ensures on allows (rest result) after post

variable {body : Nat → Prog Op Res Unit} {count : Nat} {first second : Value → State → Prop}
    {message : String} {next : Value → Prog Op Res Value'} {op : Op} {value : Value}

section Rules

variable {on : Exec Op Res State} {allows : Allows State} {state : State}

theorem answered_mono (holds : answered allows state outcome first)
    (implies : ∀ value after, first value after → second value after) :
    answered allows state outcome second := by
  cases outcome with
  | next ended => exact implies ended.1 ended.2 holds
  | panic | disabled => exact holds

variable {post : Value → State → Prop}

@[simp] theorem ensures_ret : ensures on allows (.ret value) state post ↔ post value state := Iff.rfl

@[simp] theorem ensures_pure : ensures on allows (pure value) state post ↔ post value state := Iff.rfl

@[simp] theorem ensures_panic :
    ensures on allows (.panic message) state post ↔ allows.panic message state := Iff.rfl

theorem ensures_call {rest : Res op → Prog Op Res Value} :
    ensures on allows (.call op rest) state post ↔
      answered allows state (on op state) fun result after =>
        ensures on allows (rest result) after post := Iff.rfl

theorem ensures_bind' (program : Prog Op Res Value) (next : Value → Prog Op Res Value')
    (state : State) (post : Value' → State → Prop) :
    ensures on allows (program.bind next) state post ↔
      ensures on allows program state fun value after =>
        ensures on allows (next value) after post := by
  induction program generalizing state with
  | ret | panic => rfl
  | choose rest induction => exact forall_congr' fun answer => induction answer state
  | call op rest induction =>
    rw [bind, ensures_call, ensures_call]
    constructor <;> intro holds <;> apply answered_mono holds <;> intro result after ended
    · exact (induction result after).mp ended
    · exact (induction result after).mpr ended

variable {program : Prog Op Res Value}

@[simp] theorem ensures_bind {post : Value' → State → Prop} :
    ensures on allows (program >>= next) state post ↔
      ensures on allows program state fun value after =>
        ensures on allows (next value) after post :=
  ensures_bind' program next state post

theorem ensures_mono (holds : ensures on allows program state first)
    (implies : ∀ value after, first value after → second value after) :
    ensures on allows program state second := by
  induction program generalizing state with
  | ret value => exact implies value state holds
  | panic message => exact holds
  | choose rest induction => exact fun answer => induction answer (holds answer)
  | call op rest induction =>
    apply answered_mono (ensures_call.mp holds)
    intro result after ended
    exact induction result ended

/-- A part of a program is replaced by what it ensures. -/
theorem ensures_then {middle : Value → State → Prop} {post : Value' → State → Prop}
    (first : ensures on allows program state middle)
    (second : ∀ value after, middle value after → ensures on allows (next value) after post) :
    ensures on allows (program >>= next) state post :=
  ensures_bind.mpr (ensures_mono first second)

/-- The rule for loops: an invariant that every iteration keeps, and that gives
the postcondition where the loop ends. -/
theorem ensures_loop {body : Nat → Acc → Prog Op Res (Flow Acc Value)} {first : Nat} {acc : Acc}
    {post : Flow Acc Value → State → Prop} (inv : Nat → Acc → State → Prop)
    (start : inv first acc state)
    (keeps : ∀ index acc state, first ≤ index → index < first + count → inv index acc state →
      ensures on allows (body index acc) state
        (Flow.Ends (inv (index + 1)) fun value => post (.done value)))
    (finish : ∀ acc state, inv (first + count) acc state → post (.next acc) state) :
    ensures on allows (loop body count first acc) state post := by
  induction count generalizing first acc state with
  | zero => exact finish acc state start
  | succ count induction =>
    rw [loop, ensures_bind']
    apply ensures_mono (keeps first acc state (Nat.le_refl _) (by omega) start)
    intro flow after holds
    cases flow with
    | done value => exact holds
    | next acc =>
      apply induction holds
      · intro index acc state low high
        exact keeps index acc state (by omega) (by omega)
      · intro acc state ended
        have same : first + (count + 1) = first + 1 + count := by omega
        exact finish acc state (same ▸ ended)

theorem ensures_forEach {first : Nat} {post : Unit → State → Prop} (inv : Nat → State → Prop)
    (start : inv first state)
    (keeps : ∀ index state, first ≤ index → index < first + count → inv index state →
      ensures on allows (body index) state fun _ after => inv (index + 1) after)
    (finish : ∀ state, inv (first + count) state → post () state) :
    ensures on allows (forEach body count first) state post := by
  induction count generalizing first state with
  | zero => exact finish state start
  | succ count induction =>
    rw [forEach, ensures_bind']
    apply ensures_mono (keeps first state (Nat.le_refl _) (by omega) start)
    intro _ after holds
    apply induction holds
    · intro index state low high
      exact keeps index state (by omega) (by omega)
    · intro state ended
      have same : first + (count + 1) = first + 1 + count := by omega
      exact finish state (same ▸ ended)

/-- A run returns, or ends in what is allowed. -/
theorem exec_ends (holds : ensures on allows program state post) (answers : List Nat) :
    (∃ value after, exec on program state answers = .next (value, after) ∧ post value after) ∨
    (∃ message stuck, exec on program state answers = .panic message ∧ allows.panic message stuck) ∨
    ∃ stuck, exec on program state answers = .disabled ∧ allows.wait stuck := by
  induction program generalizing state answers with
  | ret value => exact .inl ⟨value, state, rfl, holds⟩
  | panic message => exact .inr (.inl ⟨message, state, rfl, holds⟩)
  | choose rest induction => exact induction _ (holds _) _
  | call op rest induction =>
    have ended := ensures_call.mp holds
    rw [exec]
    cases outcome : on op state with
    | next result =>
      rw [outcome] at ended
      exact induction result.1 ended answers
    | panic message =>
      rw [outcome] at ended
      exact .inr (.inl ⟨message, state, rfl, ended⟩)
    | disabled =>
      rw [outcome] at ended
      exact .inr (.inr ⟨state, rfl, ended⟩)

/-- A program that has to return does so. -/
theorem exec_returns (holds : ensures on .nothing program state post) (answers : List Nat) :
    ∃ value after, exec on program state answers = .next (value, after) ∧ post value after := by
  rcases exec_ends holds answers with returned | panicked | waiting
  · exact returned
  · rcases panicked with ⟨_, _, _, never⟩
    exact never.elim
  · rcases waiting with ⟨_, _, never⟩
    exact never.elim

/-- What is ensured of every return holds of the return of a run. -/
theorem exec_eq_next {program : Prog Op Res Value} {post : Value → State → Prop}
    (holds : ensures on allows program state post) {answers : List Nat} {value : Value}
    {after : State} (ended : exec on program state answers = .next (value, after)) :
    post value after := by
  induction program generalizing state answers with
  | ret value =>
    cases ended
    exact holds
  | panic message => cases ended
  | choose rest induction => exact induction _ (holds _) ended
  | call op rest induction =>
    have answer := ensures_call.mp holds
    rw [exec] at ended
    cases outcome : on op state with
    | next result =>
      rw [outcome] at answer ended
      exact induction result.1 answer ended
    | panic | disabled =>
      rw [outcome] at ended
      cases ended

end Rules

/-! ## States that answer at once -/

/-- Whatever the choices are, the program ends in a value and a state that meet
`post`, or in a panic that is allowed. -/
def wp (handle : Handler Op Res State) (allowed : String → Prop) (program : Prog Op Res Value)
    (state : State) (post : Value → State → Prop) : Prop :=
  ensures (fun op state => .next (handle op state))
    ⟨fun message _ => allowed message, fun _ => False⟩ program state post

section Rules

variable {handle : Handler Op Res State} {allowed : String → Prop} {state : State}
  {program : Prog Op Res Value} {post : Value → State → Prop}

@[simp] theorem wp_ret : wp handle allowed (.ret value) state post ↔ post value state := Iff.rfl

@[simp] theorem wp_pure : wp handle allowed (pure value) state post ↔ post value state := Iff.rfl

@[simp] theorem wp_panic : wp handle allowed (.panic message) state post ↔ allowed message := Iff.rfl

@[simp] theorem wp_choose {rest : Nat → Prog Op Res Value} :
    wp handle allowed (.choose rest) state post ↔
      ∀ answer, wp handle allowed (rest answer) state post := Iff.rfl

@[simp] theorem wp_call {rest : Res op → Prog Op Res Value} :
    wp handle allowed (.call op rest) state post ↔
      wp handle allowed (rest (handle op state).1) (handle op state).2 post := Iff.rfl

@[simp] theorem wp_anyBool {post : Bool → State → Prop} :
    wp handle allowed anyBool state post ↔ ∀ answer, post answer state := by
  constructor
  · intro holds answer
    cases answer with
    | false => exact holds 0
    | true => exact holds 1
  · exact fun holds answer => holds (answer != 0)

@[simp] theorem wp_bind {post : Value' → State → Prop} :
    wp handle allowed (program >>= next) state post ↔
      wp handle allowed program state fun value after =>
        wp handle allowed (next value) after post :=
  ensures_bind' program next state post

theorem wp_mono (holds : wp handle allowed program state first)
    (implies : ∀ value after, first value after → second value after) :
    wp handle allowed program state second :=
  ensures_mono holds implies

theorem wp_forEach {first : Nat} {post : Unit → State → Prop} (inv : Nat → State → Prop)
    (start : inv first state)
    (keeps : ∀ index state, first ≤ index → index < first + count → inv index state →
      wp handle allowed (body index) state fun _ after => inv (index + 1) after)
    (finish : ∀ state, inv (first + count) state → post () state) :
    wp handle allowed (forEach body count first) state post :=
  ensures_forEach inv start keeps finish

theorem run_eq_exec (handle : Handler Op Res State) (program : Prog Op Res Value) (state : State)
    (answers : List Nat) : run handle program state answers =
      exec (fun op state => .next (handle op state)) program state answers := by
  induction program generalizing state answers with
  | ret | panic => rfl
  | choose rest induction => exact induction ..
  | call op rest induction => exact induction ..

variable {answers : List Nat}

/-- A run ends as `wp` says it does. -/
theorem run_eq_next (holds : wp handle allowed program state post) {after : State}
    (ended : run handle program state answers = .next (value, after)) : post value after :=
  exec_eq_next holds ((run_eq_exec ..).symm.trans ended)

theorem run_eq_panic (holds : wp handle allowed program state post)
    (ended : run handle program state answers = .panic message) : allowed message := by
  rw [run_eq_exec] at ended
  rcases exec_ends holds answers with ⟨_, _, other, _⟩ | ⟨_, _, other, may⟩ | ⟨_, other, _⟩
  · cases ended.symm.trans other
  · cases ended.symm.trans other
    exact may
  · cases ended.symm.trans other

/-- Where no panic is allowed, a run ends, and there all postconditions hold together. -/
theorem wp_meet (never : ∀ message, ¬allowed message)
    (holds : wp handle allowed program state first)
    (holds' : wp handle allowed program state second) :
    ∃ value after, first value after ∧ second value after := by
  rcases exec_ends holds [] with ⟨value, after, ended, met⟩ | ⟨_, _, _, may⟩ | ⟨_, _, may⟩
  · exact ⟨value, after, met, exec_eq_next holds' ended⟩
  · exact absurd may (never _)
  · exact may.elim

end Rules

-- the rules above are all there is to know about `ensures` and `wp`
attribute [irreducible] ensures wp

end Xv6.Prog
