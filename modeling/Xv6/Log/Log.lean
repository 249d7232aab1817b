import Xv6.Param
import Mathlib.Data.List.Basic

/-! # The in-memory log

`struct log` of `kernel/log.c` and the critical sections that `begin_op`,
`end_op` and `log_write` run under `log.lock`. -/

namespace Xv6

/-- `struct log` without its spin lock and device number. The list `lh` is
`lh.block[0 .. lh.n)`, so `lh.n` is its length. -/
structure Log where
  start : Nat
  size : Nat
  outstanding : Int
  committing : Bool
  lh : List Nat

namespace Log

/-- The log that `initlog` leaves behind: the geometry of the superblock and,
after recovery, no logged block. -/
def initlog (logstart nlog : Nat) : Log where
  start := logstart
  size := nlog
  outstanding := 0
  committing := false
  lh := []

/-- One test of the loop in `begin_op`: `none` when the caller goes to sleep on
the log, and otherwise the log with the operation admitted. -/
def beginOp (log : Log) : Option Log :=
  if log.committing then
    none
  else if (log.lh.length : Int) + (log.outstanding + 1) * maxOpBlocks > logSize then
    none
  else
    some { log with outstanding := log.outstanding + 1 }

/-- The first critical section of `end_op`. The flag is `do_commit`; when it is
false the caller has to wake the sleepers in `begin_op`. -/
def endOp (log : Log) : Except String (Log × Bool) :=
  let log := { log with outstanding := log.outstanding - 1 }
  if log.committing then
    .error "log.committing"
  else if log.outstanding = 0 then
    .ok ({ log with committing := true }, true)
  else
    .ok (log, false)

/-- The second critical section of `end_op`, after `commit()` has returned. -/
def endCommit (log : Log) : Log :=
  { log with committing := false }

/-- `log_write`: record a block number, absorbing one that is there already.
The flag tells whether the block was added and its buffer has to be pinned. -/
def logWrite (log : Log) (blockno : Nat) : Except String (Log × Bool) :=
  if log.lh.length ≥ logSize ∨ log.lh.length ≥ log.size - 1 then
    .error "too big a transaction"
  else if log.outstanding < 1 then
    .error "log_write outside of trans"
  else
    let index := log.lh.idxOf blockno
    if index = log.lh.length then
      .ok ({ log with lh := log.lh ++ [blockno] }, true)
    else
      .ok ({ log with lh := log.lh.set index blockno }, false)

/-- `log.lh.n = 0`. -/
def clearHead (log : Log) : Log :=
  { log with lh := [] }

/-! ## What the critical sections can do -/

variable {log next : Log}

theorem beginOp_eq_some (admitted : log.beginOp = some next) :
    log.committing = false ∧
      (log.lh.length : Int) + (log.outstanding + 1) * maxOpBlocks ≤ logSize ∧
      next = { log with outstanding := log.outstanding + 1 } := by
  unfold beginOp at admitted
  split at admitted
  · cases admitted
  · rename_i notCommitting
    split at admitted
    · cases admitted
    · rename_i fits
      exact ⟨by simpa using notCommitting, by omega, (Option.some.inj admitted).symm⟩

theorem beginOp_eq_none (refused : log.beginOp = none) :
    log.committing = true ∨
      (log.lh.length : Int) + (log.outstanding + 1) * maxOpBlocks > logSize := by
  unfold beginOp at refused
  split at refused
  · exact .inl ‹_›
  · split at refused
    · exact .inr ‹_›
    · cases refused

theorem endOp_eq_ok (ended : log.endOp = .ok (next, doCommit)) :
    log.committing = false ∧
      ((log.outstanding = 1 ∧ doCommit = true ∧
          next = { log with outstanding := 0, committing := true }) ∨
        (log.outstanding ≠ 1 ∧ doCommit = false ∧
          next = { log with outstanding := log.outstanding - 1 })) := by
  unfold endOp at ended
  simp only at ended
  split at ended
  · cases ended
  · rename_i notCommitting
    refine ⟨by simpa using notCommitting, ?_⟩
    split at ended
    · rename_i last
      cases ended
      exact .inl ⟨by omega, rfl, by rw [last]⟩
    · cases ended
      exact .inr ⟨by omega, rfl, rfl⟩

theorem logWrite_eq_ok (written : log.logWrite blockno = .ok (next, added)) :
    1 ≤ log.outstanding ∧ log.lh.length < logSize ∧ log.lh.length < log.size - 1 ∧
      ((blockno ∈ log.lh ∧ added = false ∧ next = log) ∨
        (blockno ∉ log.lh ∧ added = true ∧
          next = { log with lh := log.lh ++ [blockno] })) := by
  unfold logWrite at written
  split at written
  · cases written
  · rename_i room
    split at written
    · cases written
    · rename_i inside
      refine ⟨by omega, by omega, by omega, ?_⟩
      simp only at written
      split at written
      · rename_i absent
        cases written
        refine .inr ⟨fun member => ?_, rfl, rfl⟩
        exact absurd (List.idxOf_lt_length_of_mem member) (by omega)
      · rename_i present
        cases written
        have bound : log.lh.idxOf blockno < log.lh.length := by
          have := List.idxOf_le_length (l := log.lh) (a := blockno)
          omega
        have unchanged : log.lh.set (log.lh.idxOf blockno) blockno = log.lh := by
          have here : log.lh[log.lh.idxOf blockno] = blockno := List.getElem_idxOf bound
          calc log.lh.set (log.lh.idxOf blockno) blockno
              = log.lh.set (log.lh.idxOf blockno) log.lh[log.lh.idxOf blockno] := by rw [here]
            _ = log.lh := List.set_getElem_self bound
        refine .inl ⟨List.idxOf_lt_length_iff.mp bound, rfl, ?_⟩
        rw [unchanged]

theorem logWrite_tooBig_iff (log : Log) (blockno : Nat) :
    log.logWrite blockno = .error "too big a transaction" ↔
      log.lh.length ≥ logSize ∨ log.lh.length ≥ log.size - 1 := by
  unfold logWrite
  split
  · exact iff_of_true rfl ‹_›
  · rename_i room
    refine iff_of_false ?_ room
    split
    · simp
    · simp only
      split <;> simp

end Log

end Xv6
