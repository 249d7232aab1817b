import Xv6.Foundation.Fifo
import Xv6.Pipe.Moves

/-! # A pipe is a bounded FIFO -/

namespace Xv6.Pipes

open State

/-- The bytes from `nread` to `nwrite` are `contents`. -/
def Pipe.Holds (pi : Pipe) (contents : List UInt8) : Prop :=
  Fifo pipeSize (2 ^ 32) pi.data pi.nread.toNat pi.nwrite.toNat contents

theorem pipeSize_dvd : pipeSize ∣ 2 ^ 32 := ⟨2 ^ 23, rfl⟩

theorem Pipe.full_eq_true_iff (pi : Pipe) :
    pi.full = true ↔ pi.nwrite.toNat = (pi.nread.toNat + pipeSize) % 2 ^ 32 := by
  rw [Pipe.full, decide_eq_true_iff, ← UInt32.toNat_inj, UInt32.toNat_add]
  rfl

theorem Pipe.empty_eq_true_iff (pi : Pipe) :
    pi.empty = true ↔ pi.nread.toNat = pi.nwrite.toNat := by
  rw [Pipe.empty, decide_eq_true_iff, UInt32.toNat_inj]

theorem toNat_add_one (counter : UInt32) : (counter + 1).toNat = (counter.toNat + 1) % 2 ^ 32 := by
  rw [UInt32.toNat_add]
  rfl

namespace Pipe.Holds

variable {pi : Pipe} {contents : List UInt8}

theorem full_iff (holds : pi.Holds contents) :
    pi.full = true ↔ contents.length = pipeSize := by
  rw [pi.full_eq_true_iff]
  exact Fifo.full_iff holds (by decide)

theorem empty_iff (holds : pi.Holds contents) : pi.empty = true ↔ contents = [] := by
  rw [pi.empty_eq_true_iff]
  exact Fifo.empty_iff holds (by decide)

theorem put (holds : pi.Holds contents) (space : pi.full = false) (ch : UInt8) :
    (pi.put ch).Holds (contents ++ [ch]) := by
  have short : contents.length < pipeSize := by
    apply Nat.lt_of_le_of_ne (Fifo.length holds)
    intro equal
    rw [holds.full_iff.mpr equal] at space
    cases space
  rw [Holds, Pipe.put, toNat_add_one]
  exact Fifo.put holds pipeSize_dvd short ch

theorem take (holds : pi.Holds contents) (nonempty : pi.empty = false) :
    ∃ rest, contents = pi.first :: rest ∧ pi.take.Holds rest := by
  cases contents with
  | nil =>
    rw [holds.empty_iff.mpr rfl] at nonempty
    cases nonempty
  | cons item rest =>
    rcases Fifo.take holds with ⟨first, taken⟩
    refine ⟨rest, ?_, ?_⟩
    · rw [Pipe.first, first]
    · rw [Holds, Pipe.take, toNat_add_one]
      exact taken

end Pipe.Holds

/-- The buffer holds the bytes that have been put in and not yet taken out. -/
def Queued (state : State) : Prop :=
  ∃ rest, state.put = state.taken ++ rest ∧ state.pipe.Holds rest

section Steps

variable {slots : Nat} {state after : State} {p : Nat} {pc : Pc}

theorem wake_pipe (state : State) (chan : Chan) (slot : Nat) :
    (wake state chan slot).pipe = state.pipe ∧ (wake state chan slot).put = state.put ∧
      (wake state chan slot).taken = state.taken := by
  rw [wake]
  split
  · split <;> exact ⟨rfl, rfl, rfl⟩
  · exact ⟨rfl, rfl, rfl⟩

theorem kill_pipe (state : State) (p : Nat) :
    (kill state p).pipe = state.pipe ∧ (kill state p).put = state.put ∧
      (kill state p).taken = state.taken := by
  rw [kill]
  split <;> exact ⟨rfl, rfl, rfl⟩

theorem Queued.same (queued : Queued state)
    (same : after.pipe = state.pipe ∧ after.put = state.put ∧ after.taken = state.taken) :
    Queued after := by
  rw [Queued, same.1, same.2.1, same.2.2]
  exact queued

theorem Moves.queued (moves : Moves slots state p pc after) (queued : Queued state) :
    Queued after := by
  rcases queued with ⟨rest, bytes, holds⟩
  cases moves with
  | writePut space =>
    refine ⟨rest ++ [_], ?_, holds.put space _⟩
    exact (congrArg (· ++ [_]) bytes).trans (List.append_assoc ..)
  | copyTake nonempty =>
    rcases holds.take nonempty with ⟨left, equal, taken⟩
    refine ⟨left, ?_, taken⟩
    exact (equal ▸ bytes).trans (List.append_cons ..)
  | wakeupSlot => exact Queued.same ⟨rest, bytes, holds⟩ (wake_pipe ..)
  | _ => exact ⟨rest, bytes, holds⟩

theorem step_queued (queued : Queued state) (stepEq : step slots state (p, action) = .next after) :
    Queued after := by
  rcases (step_cases stepEq).2 with ⟨moves, _⟩ | ⟨_, rfl⟩
  · exact moves.queued queued
  · exact queued.same (kill_pipe state p)

theorem boot_queued (data : Nat → UInt8) (killed : Nat → Bool) : Queued (boot data killed) :=
  ⟨[], rfl, Fifo.nil (Nat.two_pow_pos 32)⟩

end Steps

/-- In every reachable state the pipe holds at most `PIPESIZE` bytes, and they
are the bytes put in and not yet taken out, in their order, from `nread` on. -/
theorem pipe_is_bounded_fifo {slots : Nat} {data : Nat → UInt8} {killed : Nat → Bool}
    {labels : List (Nat × Action)} {state : State}
    (run : Steps (step slots) (boot data killed) labels state) :
    (state.pipe.nwrite - state.pipe.nread).toNat ≤ pipeSize ∧
    ∃ rest, state.put = state.taken ++ rest ∧
      rest.length = (state.pipe.nwrite - state.pipe.nread).toNat ∧
      ∀ k (inside : k < rest.length),
        state.pipe.data ((state.pipe.nread.toNat + k) % 2 ^ 32 % pipeSize) = rest[k] := by
  have queued : Queued state := by
    apply run.invariant _ (boot_queued data killed)
    exact fun _ _ _ kept stepEq => step_queued kept stepEq
  rcases queued with ⟨rest, bytes, holds⟩
  have length : (state.pipe.nwrite - state.pipe.nread).toNat = rest.length := by
    rw [UInt32.toNat_sub, Nat.add_comm]
    exact Fifo.difference holds (by decide)
  rw [length]
  refine ⟨Fifo.length holds, rest, bytes, rfl, fun k inside => ?_⟩
  exact Fifo.cell holds k _ (List.getElem?_eq_getElem inside)

/-- A process writes two bytes, and another one reads one of them and cannot
copy out the other. -/
def writeAndRead : List (Nat × Action) :=
  [(0, .call (.pipewrite 2)), (0, .proceed), (0, .proceed), (0, .copyin (some 7)), (0, .proceed),
    (0, .copyin (some 8)), (0, .proceed), (0, .proceed), (0, .proceed), (0, .proceed),
    (0, .proceed), (1, .call (.piperead 3)), (1, .proceed), (1, .proceed), (1, .copyout true),
    (1, .copyout false)]

theorem pipe_is_bounded_fifo_writeAndRead : ∃ state,
    Steps (step 2) (boot (fun _ => 0) fun _ => false) writeAndRead state ∧
    (state.pipe.nwrite - state.pipe.nread).toNat ≤ pipeSize ∧
    ∃ rest, state.put = state.taken ++ rest ∧
      rest.length = (state.pipe.nwrite - state.pipe.nread).toNat ∧
      ∀ k (inside : k < rest.length),
        state.pipe.data ((state.pipe.nread.toNat + k) % 2 ^ 32 % pipeSize) = rest[k] := by
  have ran := Outcome.eq_next_of_isNext (boot (fun _ => 0) fun _ => false)
    (show (runSteps (step 2) (boot (fun _ => 0) fun _ => false) writeAndRead).isNext = true by
      decide +kernel)
  have run := steps_iff_runSteps.mpr ran
  exact ⟨_, run, pipe_is_bounded_fifo run⟩

end Xv6.Pipes
