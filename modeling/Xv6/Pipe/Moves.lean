import Xv6.Pipe.Machine

/-! # What a step of a pipe can do -/

namespace Xv6.Pipes

open State

/-- The steps of the process `p` at `pc`, one rule for each step of the code. -/
inductive Moves (slots : Nat) (state : State) (p : Nat) : Pc → State → Prop
  | call {entry} : Moves slots state p .idle (state.setPc p (.acquire entry))
  | acquireWrite {i n} (available : state.lock = none) :
      Moves slots state p (.acquire (.loop (.write i n)))
        ((state.setLock (some p)).setPc p (.write i n i))
  | acquireRead {n} (available : state.lock = none) :
      Moves slots state p (.acquire (.loop (.read n))) ((state.setLock (some p)).setPc p (.read n))
  | closeWrite (available : state.lock = none) :
      Moves slots state p (.acquire (.close true))
        (((state.setLock (some p)).setPipe { state.pipe with writeopen := false }).setPc p
          (.wakeup .nread 0 .close))
  | closeRead (available : state.lock = none) :
      Moves slots state p (.acquire (.close false))
        (((state.setLock (some p)).setPipe { state.pipe with readopen := false }).setPc p
          (.wakeup .nwrite 0 .close))
  | writeFail {i : Nat} {n start} (more : (i : Int) < n)
      (stop : state.pipe.readopen = false ∨ (state.proc p).killed = true) :
      Moves slots state p (.write i n start) (state.setPc p (.release (-1)))
  | writeCheck {i n start} (readopen : state.pipe.readopen = true) :
      Moves slots state p (.write i n start) (state.setPc p (.writeChecked i n start))
  | writeDone {i n start} :
      Moves slots state p (.write i n start) (state.setPc p (.wakeup .nread 0 (.release i)))
  | writeFull {i n start} (full : state.pipe.full = true) :
      Moves slots state p (.writeChecked i n start) (state.setPc p (.wakeup .nread 0 (.sleep i n)))
  | writePut {i n start ch} (space : state.pipe.full = false) :
      Moves slots state p (.writeChecked i n start)
        ((state.putByte ch).setPc p (.write (i + 1) n start))
  | writeFault {i n start} :
      Moves slots state p (.writeChecked i n start) (state.setPc p (.wakeup .nread 0 (.release i)))
  | readFail {n} : Moves slots state p (.read n) (state.setPc p (.release (-1)))
  | readSleep {n} (empty : state.pipe.empty = true) (writeopen : state.pipe.writeopen = true) :
      Moves slots state p (.read n) (state.setPc p (.sleepLocked (.read n)))
  | readReady {n} : Moves slots state p (.read n) (state.setPc p (.copy 0 n))
  | copyDone {i n} : Moves slots state p (.copy i n)
      (state.setPc p (.wakeup .nwrite 0 (.release i)))
  | copyTake {i n pc} (nonempty : state.pipe.empty = false)
      (next : pc = .copy (i + 1) n ∨ pc = .wakeup .nwrite 0 (.release i)) :
      Moves slots state p (.copy i n) (state.takeByte.setPc p pc)
  | wakeupSelf {chan ret} :
      Moves slots state p (.wakeup chan p ret) (state.setPc p (.wakeup chan (p + 1) ret))
  | wakeupSlot {chan slot ret} (different : slot ≠ p)
      (available : (state.proc slot).pc.locked = false) :
      Moves slots state p (.wakeup chan slot ret)
        ((wake state chan slot).setPc p (.wakeup chan (slot + 1) ret))
  | wakeupReturn {chan next ret} (outside : slots ≤ next) :
      Moves slots state p (.wakeup chan next ret) (state.setPc p ret.pc)
  | sleepRelease {loop} :
      Moves slots state p (.sleepLocked loop) ((state.setLock none).setPc p (.sleepReleased loop))
  | sleepState {loop} : Moves slots state p (.sleepReleased loop) (state.setPc p (.sleeping loop))
  | release {result} : Moves slots state p (.release result) (state.returns p result)
  | closeReturn : Moves slots state p .close (state.returns p 0)
  | closeLast : Moves slots state p .close ((state.setLock none).setPc p .kfree)
  | kfree : Moves slots state p .kfree ({ state with freed := true }.setPc p .idle)

variable {slots : Nat} {state after : State} {p : Nat}

theorem proceed_moves (stepEq : proceed slots state p = .next after) :
    Moves slots state p (state.proc p).pc after := by
  rw [proceed] at stepEq
  cases found : (state.proc p).pc with
  | idle | sleeping => simp [found] at stepEq
  | acquire entry =>
    simp only [found] at stepEq
    split at stepEq
    · rename_i available
      cases stepEq
      cases entry with
      | loop loop =>
        cases loop with
        | write i n => exact .acquireWrite available
        | read n => exact .acquireRead available
      | close writable =>
        cases writable with
        | true => exact .closeWrite available
        | false => exact .closeRead available
    · cases stepEq
  | write i n start =>
    simp only [found] at stepEq
    split at stepEq
    · rename_i more
      split at stepEq
      · rename_i stop
        cases stepEq
        exact .writeFail more stop
      · rename_i goes
        cases stepEq
        exact .writeCheck (by simpa using (not_or.mp goes).1)
    · cases stepEq
      exact .writeDone
  | writeChecked i n start =>
    simp only [found] at stepEq
    split at stepEq
    · rename_i full
      cases stepEq
      exact .writeFull full
    · cases stepEq
  | read n =>
    simp only [found] at stepEq
    split at stepEq
    · rename_i wait
      split at stepEq
      · cases stepEq
        exact .readFail
      · cases stepEq
        exact .readSleep wait.1 wait.2
    · cases stepEq
      exact .readReady
  | copy i n =>
    simp only [found] at stepEq
    split at stepEq
    · cases stepEq
    · cases stepEq
      exact .copyDone
  | wakeup chan next ret =>
    simp only [found] at stepEq
    split at stepEq
    · split at stepEq
      · rename_i self
        subst self
        cases stepEq
        exact .wakeupSelf
      · rename_i different
        split at stepEq
        · cases stepEq
        · rename_i available
          cases stepEq
          exact .wakeupSlot different (Bool.eq_false_iff.mpr available)
    · rename_i outside
      cases stepEq
      exact .wakeupReturn (Nat.le_of_not_lt outside)
  | sleepLocked loop =>
    simp only [found] at stepEq
    cases stepEq
    exact .sleepRelease
  | sleepReleased loop =>
    simp only [found] at stepEq
    cases stepEq
    exact .sleepState
  | release result =>
    simp only [found] at stepEq
    cases stepEq
    exact .release
  | close =>
    simp only [found] at stepEq
    split at stepEq
    · cases stepEq
      exact .closeLast
    · cases stepEq
      exact .closeReturn
  | kfree =>
    simp only [found] at stepEq
    cases stepEq
    exact .kfree

theorem copyinStep_moves (stepEq : copyinStep state p ch = .next after) :
    Moves slots state p (state.proc p).pc after ∧
      ∀ i n start, (state.proc p).pc ≠ .write i n start := by
  rw [copyinStep] at stepEq
  split at stepEq
  · rename_i i n start found
    rw [found]
    refine ⟨?_, nofun⟩
    split at stepEq
    · cases stepEq
    · rename_i space
      split at stepEq
      · cases stepEq
        exact .writePut (Bool.eq_false_iff.mpr space)
      · cases stepEq
        exact .writeFault
  · cases stepEq

theorem copyoutStep_moves (stepEq : copyoutStep state p ok = .next after) :
    Moves slots state p (state.proc p).pc after ∧
      ∀ i n start, (state.proc p).pc ≠ .write i n start := by
  rw [copyoutStep] at stepEq
  split at stepEq
  · rename_i i n found
    rw [found]
    refine ⟨?_, nofun⟩
    split at stepEq
    · rename_i more
      cases stepEq
      refine .copyTake more.2 ?_
      cases ok
      · exact .inr rfl
      · exact .inl rfl
    · cases stepEq
  · cases stepEq

/-- Every step is one of the rules, or a `kill`; the head of the loop of
`pipewrite` is left by `proceed` only. -/
theorem step_cases (stepEq : step slots state (p, action) = .next after) :
    p < slots ∧
      ((Moves slots state p (state.proc p).pc after ∧
          ∀ i n start, (state.proc p).pc = .write i n start → action = .proceed) ∨
        ((state.proc p).pc.locked = false ∧ after = kill state p)) := by
  simp only [step] at stepEq
  split at stepEq
  · cases stepEq
  · rename_i active
    refine ⟨Nat.lt_of_not_le (not_or.mp active).1, ?_⟩
    cases action with
    | call call =>
      simp only at stepEq
      split at stepEq
      · rename_i idle
        cases stepEq
        rw [idle]
        exact .inl ⟨.call, nofun⟩
      · cases stepEq
    | proceed => exact .inl ⟨proceed_moves stepEq, fun _ _ _ _ => rfl⟩
    | copyin ch =>
      rcases copyinStep_moves stepEq with ⟨moves, elsewhere⟩
      exact .inl ⟨moves, fun i n start found => absurd found (elsewhere i n start)⟩
    | copyout ok =>
      rcases copyoutStep_moves stepEq with ⟨moves, elsewhere⟩
      exact .inl ⟨moves, fun i n start found => absurd found (elsewhere i n start)⟩
    | kill =>
      simp only at stepEq
      split at stepEq
      · cases stepEq
      · rename_i available
        cases stepEq
        exact .inr ⟨Bool.eq_false_iff.mpr available, rfl⟩

end Xv6.Pipes
