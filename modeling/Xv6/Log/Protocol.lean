import Xv6.Foundation.Transition
import Xv6.Log.Log
import Mathlib.Data.Finset.Card

/-! # Group commit

Any number of processes run `begin_op`, `log_write`s and `end_op`. A step is
one critical section of `log.lock`, or one step of the `commit()` that the last
`end_op` of a transaction runs without the lock. -/

namespace Xv6.Protocol

/-- Where the process that runs `commit()` is. `tail` is the loop variable of
`write_log` and `install_trans`. -/
inductive CommitPc where
  | test
  | writeLog (tail : Nat)
  | writeHead
  | installTrans (tail : Nat)
  | clear
  | eraseHead
  | leave
  deriving DecidableEq

/-- A process is outside an operation, asleep in `begin_op`, woken there and
about to retake `log.lock`, inside an operation, or running `commit()`. -/
inductive Phase where
  | idle
  | asleep
  | woken
  | running (op : Nat)
  | commit (pc : CommitPc)
  deriving DecidableEq

/-- A `log_write` that happened: the operation that made it, its block, and the
number of headers that had been made durable by then. -/
structure LogEvent where
  op : Nat
  block : Nat
  txn : Nat
  deriving DecidableEq

/-- The log and the processes. The last three fields are history: operations
are numbered in the order `begin_op` admits them, and `headers` are the
non-empty headers written by `write_head`. -/
structure State where
  log : Log
  phase : Nat → Phase
  nextOp : Nat
  events : List LogEvent
  headers : List (List Nat)

inductive Action where
  | beginOp
  | logWrite (blockno : Nat)
  | endOp
  | commit
  | kill
  deriving DecidableEq

/-- A step is an action of one process. -/
abbrev Label := Nat × Action

namespace State

@[simps! -fullyApplied log nextOp events headers]
def setPhase (state : State) (process : Nat) (phase : Phase) : State :=
  { state with phase := Function.update state.phase process phase }

/-- `wakeup(&log)`. -/
@[simps! -fullyApplied log nextOp events headers]
def wakeup (state : State) : State :=
  { state with phase := fun process =>
      if state.phase process = .asleep then .woken else state.phase process }

end State

/-- The state after `initlog`, with every process outside an operation. -/
def boot (logstart nlog : Nat) : State where
  log := Log.initlog logstart nlog
  phase := fun _ => .idle
  nextOp := 0
  events := []
  headers := []

/-- One step of `commit()` and of the critical section of `end_op` after it. -/
def commitStep (state : State) (process : Nat) : CommitPc → State
  | .test =>
    state.setPhase process (.commit (if state.log.lh.length > 0 then .writeLog 0 else .leave))
  | .writeLog tail =>
    state.setPhase process
      (.commit (if tail < state.log.lh.length then .writeLog (tail + 1) else .writeHead))
  | .writeHead =>
    { state with headers := state.headers ++ [state.log.lh] }.setPhase process
      (.commit (.installTrans 0))
  | .installTrans tail =>
    state.setPhase process
      (.commit (if tail < state.log.lh.length then .installTrans (tail + 1) else .clear))
  | .clear =>
    { state with log := state.log.clearHead }.setPhase process (.commit .eraseHead)
  | .eraseHead => state.setPhase process (.commit .leave)
  | .leave => { state with log := state.log.endCommit }.wakeup.setPhase process .idle

def step (state : State) : Label → Outcome State
  | (process, .beginOp) =>
    if state.phase process = .idle ∨ state.phase process = .woken then
      match state.log.beginOp with
      | none => .next (state.setPhase process .asleep)
      | some log =>
        .next ({ state with log := log, nextOp := state.nextOp + 1 }.setPhase process
          (.running state.nextOp))
    else .disabled
  | (process, .logWrite blockno) =>
    match state.phase process with
    | .running op =>
      match state.log.logWrite blockno with
      | .error message => .panic message
      | .ok (log, _) =>
        .next { state with
          log := log
          events := ⟨op, blockno, state.headers.length⟩ :: state.events }
    | _ => .disabled
  | (process, .endOp) =>
    match state.phase process with
    | .running _ =>
      match state.log.endOp with
      | .error message => .panic message
      | .ok (log, true) =>
        .next ({ state with log := log }.setPhase process (.commit .test))
      | .ok (log, false) =>
        .next ({ state with log := log }.wakeup.setPhase process .idle)
    | _ => .disabled
  | (process, .commit) =>
    match state.phase process with
    | .commit pc => .next (commitStep state process pc)
    | _ => .disabled
  | (process, .kill) =>
    -- `kill` makes a sleeper runnable, so `begin_op` tests again
    if state.phase process = .asleep then .next (state.setPhase process .woken)
    else .disabled

/-! ## What a step can do -/

/-- Every way a step can succeed, with what the critical section has tested. -/
inductive Moves (state : State) (process : Nat) : Action → State → Prop
  | refuse (waiting : state.phase process = .idle ∨ state.phase process = .woken)
      (full : state.log.committing = true ∨
        (state.log.lh.length : Int) + (state.log.outstanding + 1) * maxOpBlocks > logSize) :
      Moves state process .beginOp (state.setPhase process .asleep)
  | enter (waiting : state.phase process = .idle ∨ state.phase process = .woken)
      (notCommitting : state.log.committing = false) :
      Moves state process .beginOp
        ({ state with
            log := { state.log with outstanding := state.log.outstanding + 1 }
            nextOp := state.nextOp + 1 }.setPhase process (.running state.nextOp))
  | absorb {op blockno} (inside : state.phase process = .running op)
      (logged : blockno ∈ state.log.lh) :
      Moves state process (.logWrite blockno)
        { state with events := ⟨op, blockno, state.headers.length⟩ :: state.events }
  | append {op blockno} (inside : state.phase process = .running op)
      (fresh : blockno ∉ state.log.lh) :
      Moves state process (.logWrite blockno)
        { state with
          log := { state.log with lh := state.log.lh ++ [blockno] }
          events := ⟨op, blockno, state.headers.length⟩ :: state.events }
  | endLast {op} (inside : state.phase process = .running op)
      (notCommitting : state.log.committing = false) (last : state.log.outstanding = 1) :
      Moves state process .endOp
        ({ state with log := { state.log with outstanding := 0, committing := true } }.setPhase
          process (.commit .test))
  | endOther {op} (inside : state.phase process = .running op)
      (notCommitting : state.log.committing = false) (notLast : state.log.outstanding ≠ 1) :
      Moves state process .endOp
        ({ state with
            log := { state.log with
              outstanding := state.log.outstanding - 1 } }.wakeup.setPhase process .idle)
  | commit {pc} (inside : state.phase process = .commit pc) :
      Moves state process .commit (commitStep state process pc)
  | kill (asleep : state.phase process = .asleep) :
      Moves state process .kill (state.setPhase process .woken)

theorem step_moves (stepEq : step state (process, action) = .next next) :
    Moves state process action next := by
  cases action with
  | beginOp =>
    simp only [step] at stepEq
    split at stepEq
    · rename_i waiting
      split at stepEq
      · rename_i refused
        cases stepEq
        exact .refuse waiting (Log.beginOp_eq_none refused)
      · rename_i log admitted
        cases stepEq
        rcases Log.beginOp_eq_some admitted with ⟨notCommitting, _, rfl⟩
        exact .enter waiting notCommitting
    · cases stepEq
  | logWrite blockno =>
    simp only [step] at stepEq
    split at stepEq
    · rename_i op inside
      split at stepEq
      · cases stepEq
      · rename_i log added written
        cases stepEq
        rcases Log.logWrite_eq_ok written with
          ⟨_, _, _, ⟨logged, _, rfl⟩ | ⟨fresh, _, rfl⟩⟩
        · exact .absorb inside logged
        · exact .append inside fresh
    · cases stepEq
  | endOp =>
    simp only [step] at stepEq
    split at stepEq
    · rename_i op inside
      split at stepEq
      · cases stepEq
      · rename_i log ended
        cases stepEq
        rcases Log.endOp_eq_ok ended with
          ⟨notCommitting, ⟨last, _, rfl⟩ | ⟨_, impossible, _⟩⟩
        · exact .endLast inside notCommitting last
        · cases impossible
      · rename_i log ended
        cases stepEq
        rcases Log.endOp_eq_ok ended with
          ⟨notCommitting, ⟨_, impossible, _⟩ | ⟨notLast, _, rfl⟩⟩
        · cases impossible
        · exact .endOther inside notCommitting notLast
    · cases stepEq
  | commit =>
    simp only [step] at stepEq
    split at stepEq
    · cases stepEq
      exact .commit ‹_›
    · cases stepEq
  | kill =>
    simp only [step] at stepEq
    split at stepEq
    · cases stepEq
      exact .kill ‹_›
    · cases stepEq

end Xv6.Protocol
