import Xv6.Log.GroupCommit

/-! # The reservation of log space

`begin_op` reserves `MAXOPBLOCKS` blocks for each operation out of `LOGSIZE`,
while `log_write` refuses a block once `log.size - 1` are recorded, since one
block of the log holds the header. `mkfs` makes a log of `LOGSIZE` blocks. -/

namespace Xv6.Protocol

namespace State

/-- The distinct blocks that operation `op` has passed to `log_write`. -/
def blocksOf (state : State) (op : Nat) : Finset Nat :=
  ((state.events.filter fun event => event.op = op).map LogEvent.block).toFinset

/-- The distinct blocks passed to `log_write` in the transaction that is open. -/
def logged (state : State) : Finset Nat :=
  ((state.events.filter fun event => event.txn = state.headers.length).map LogEvent.block).toFinset

end State

/-- A step keeps its operation within `MAXOPBLOCKS` distinct blocks. -/
def withinReservation (state : State) : Label → Bool
  | (process, .logWrite blockno) =>
    match state.phase process with
    | .running op => (insert blockno (state.blocksOf op)).card ≤ maxOpBlocks
    | _ => true
  | _ => true

variable {state : State}

theorem mem_logged :
    block ∈ state.logged ↔
      ∃ event ∈ state.events, event.txn = state.headers.length ∧ event.block = block := by
  simp [State.logged, and_assoc]

/-- While no commit runs, the in-memory header lists the blocks of the open
transaction, each once. -/
theorem length_eq_card_logged (history : History state)
    (notCommitting : state.log.committing = false) : state.log.lh.length = state.logged.card := by
  have same : state.log.lh.toFinset = state.logged := by
    ext block
    rw [List.mem_toFinset, mem_logged]
    constructor
    · exact history.source notCommitting block
    · rintro ⟨event, member, last, rfl⟩
      exact history.current event member last
  rw [← same, List.toFinset_card_of_nodup history.nodup]

variable {label : Label}

theorem step_size (stepEq : step state label = .next next) : next.log.size = state.log.size := by
  rcases label with ⟨process, action⟩
  cases step_moves stepEq with
  | @commit pc inside => cases pc <;> rfl
  | _ => rfl

variable {labels : List Label} {logstart : Nat}

theorem size_reachable (run : Steps step (boot logstart nlog) labels state) :
    state.log.size = nlog := by
  have preserved : ∀ state label next, state.log.size = nlog →
      step state label = .next next → next.log.size = nlog :=
    fun _ _ _ size stepEq => (step_size stepEq).trans size
  exact run.invariant preserved rfl

/-- In every reachable state of a log of `LOGSIZE` blocks, a `log_write` inside
an operation panics exactly when `LOGSIZE - 1` blocks are in the transaction. -/
theorem step_tooBig_iff (run : Steps step (boot logstart logSize) labels state)
    (inside : state.phase process = .running op) (blockno : Nat) :
    step state (process, .logWrite blockno) = .panic "too big a transaction" ↔
      logSize - 1 ≤ state.logged.card := by
  rcases reachable run with ⟨control, history⟩
  have notCommitting := control.notCommitting inside
  rw [← length_eq_card_logged history notCommitting]
  have tooBig := state.log.logWrite_tooBig_iff blockno
  rw [size_reachable run] at tooBig
  constructor
  · intro panics
    simp only [step, inside] at panics
    split at panics
    · rename_i message failed
      cases panics
      rcases tooBig.mp failed with full | full <;> omega
    · cases panics
  · intro full
    have failed := tooBig.mpr (.inr full)
    simp [step, inside, failed]

theorem logWrite_eq_panic (panics : step state label = .panic message)
    (tooBig : message = "too big a transaction") :
    ∃ process blockno op, label = (process, .logWrite blockno) ∧
      state.phase process = .running op := by
  rcases label with ⟨process, action⟩
  cases action with
  | logWrite blockno =>
    simp only [step] at panics
    split at panics
    · exact ⟨process, blockno, _, rfl, ‹_›⟩
    · cases panics
  | endOp =>
    simp only [step] at panics
    split at panics
    · split at panics
      · rename_i error failed
        cases panics
        unfold Log.endOp at failed
        simp only at failed
        split at failed
        · cases failed
          simp at tooBig
        · split at failed <;> cases failed
      · cases panics
      · cases panics
    · cases panics
  | beginOp =>
    simp only [step] at panics
    split at panics <;> (try split at panics) <;> cases panics
  | commit | kill => simp only [step] at panics; split at panics <;> cases panics

/-- On a log of the size `mkfs` makes, a run never stops at "too big a
transaction" if and only if each of its `log_write`s is made while fewer than
`LOGSIZE - 1` distinct blocks are in the transaction. -/
theorem reservation_suffices_iff (logstart : Nat) (labels : List Label) :
    runSteps step (boot logstart logSize) labels ≠ .panic "too big a transaction" ↔
      ∀ before process blockno after state op,
        labels = before ++ (process, .logWrite blockno) :: after →
        Steps step (boot logstart logSize) before state → state.phase process = .running op →
        state.logged.card < logSize - 1 := by
  constructor
  · intro never before process blockno after state op split run inside
    by_contra full
    refine never ?_
    rw [split, runSteps_append run]
    have stops := (step_tooBig_iff run inside blockno).mpr (by omega)
    simp [runSteps, stops]
  · intro fits panics
    rcases runSteps_eq_panic panics with ⟨before, label, after, state, split, run, stops⟩
    rcases logWrite_eq_panic stops rfl with ⟨process, blockno, op, rfl, inside⟩
    have := fits before process blockno after state op split run inside
    have := (step_tooBig_iff run inside blockno).mp stops
    omega

/-- Three concurrent operations of ten distinct blocks each. -/
def fullReservation : List Label :=
  [(0, .beginOp), (1, .beginOp), (2, .beginOp)] ++
    (List.range 10).map (fun index => (0, .logWrite (100 + index))) ++
    (List.range 10).map (fun index => (1, .logWrite (200 + index))) ++
    (List.range 9).map (fun index => (2, .logWrite (300 + index)))

/-- Operations that keep to their reservation can still run into the panic: the
thirtieth block of three full operations finds no room beside the header. -/
theorem reservation_insufficient :
    ∃ state, StepsWhere step (fun state label => withinReservation state label = true)
        (boot 2 logSize) fullReservation state ∧
      withinReservation state (2, .logWrite 309) = true ∧
      step state (2, .logWrite 309) = .panic "too big a transaction" :=
  ⟨_, .of_runStepsWhere (fun _ _ allowed => allowed) rfl, by decide, rfl⟩

end Xv6.Protocol
