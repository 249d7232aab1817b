import Xv6.Foundation.Transition

/-! # Programs over an interface

A program is a tree of calls to an interface. It may also panic, or take a value
that nothing in the model decides. The same program can be run against a state
that answers each call at once, or one call at a time among other programs. -/

namespace Xv6

inductive Prog (Op : Type) (Res : Op → Type) (Value : Type) where
  | ret (value : Value)
  | panic (message : String)
  | choose (rest : Nat → Prog Op Res Value)
  | call (op : Op) (rest : Res op → Prog Op Res Value)

namespace Prog

variable {Op : Type} {Res : Op → Type} {Value Value' Acc State : Type}

def bind (program : Prog Op Res Value) (next : Value → Prog Op Res Value') :
    Prog Op Res Value' :=
  match program with
  | .ret value => next value
  | .panic message => .panic message
  | .choose rest => .choose fun answer => (rest answer).bind next
  | .call op rest => .call op fun result => (rest result).bind next

instance : Monad (Prog Op Res) where
  pure := .ret
  bind := bind

/-- An undetermined truth value. -/
def anyBool : Prog Op Res Bool := .choose fun answer => .ret (answer != 0)

/-- How an iteration of a loop ends: the loop goes on, or is left with a value. -/
inductive Flow (Acc Value : Type) where
  | next (acc : Acc)
  | done (value : Value)

/-- `count` iterations of a loop whose counter starts at `first`. -/
def loop (body : Nat → Acc → Prog Op Res (Flow Acc Value)) :
    (count first : Nat) → Acc → Prog Op Res (Flow Acc Value)
  | 0, _, acc => .ret (.next acc)
  | count + 1, first, acc =>
    (body first acc).bind fun
      | .next acc => loop body count (first + 1) acc
      | .done value => .ret (.done value)

/-- `count` iterations of a loop that is never left early. -/
def forEach (body : Nat → Prog Op Res Unit) : (count first : Nat) → Prog Op Res Unit
  | 0, _ => .ret ()
  | count + 1, first => (body first).bind fun _ => forEach body count (first + 1)

/-! ## Running a program against a state -/

/-- A state that answers every call at once. -/
abbrev Handler (Op : Type) (Res : Op → Type) (State : Type) :=
  (op : Op) → State → Res op × State

/-- Run a program; `answers` are the values of its choices in order. -/
def run (handle : Handler Op Res State) :
    Prog Op Res Value → State → (answers : List Nat) → Outcome (Value × State)
  | .ret value, state, _ => .next (value, state)
  | .panic message, _, _ => .panic message
  | .choose rest, state, answers => run handle (rest (answers.headD 0)) state answers.tail
  | .call op rest, state, answers =>
    run handle (rest (handle op state).1) (handle op state).2 answers

end Prog

end Xv6
