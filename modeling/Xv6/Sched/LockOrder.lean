import Xv6.Sched.ExitWait

/-! # The order of the locks of `proc.c`

A thread that holds a `p->lock` acquires neither `wait_lock` nor another `p->lock`, and one
that holds `wait_lock` only a `p->lock`. The locks that `fork` takes inside `np->lock`, those of
`allocpid`, `kalloc`, `filedup` and `idup`, are not part of the model. -/

namespace Xv6.Sched

variable {slots : Nat} {state : State} {c p : Nat} {lk : Lock} {change : State → State}

theorem acquiring_eq_disabled (waits : acquiring state c lk change = .disabled) :
    ∃ d, d ≠ c ∧ state.spin.owner lk = some d := by
  rw [acquiring, Spinlocks.acquire] at waits
  split at waits
  · cases waits
  · rename_i notMine
    split at waits
    · cases waits
    · rename_i held
      rcases Option.ne_none_iff_exists'.mp held with ⟨d, owner⟩
      exact ⟨d, fun same => notMine (same ▸ owner), owner⟩

@[simp] theorem releasing_ne_disabled : releasing state c lk change ≠ .disabled := by
  rw [releasing, Spinlocks.release]
  split <;> simp [Outcome.map]

@[simp] theorem sched_ne_disabled {proc : Proc} : sched state c p proc ≠ .disabled := by
  rw [sched]
  repeat' split
  all_goals simp

/-- A thread waits at a place where it holds no `p->lock`; where it holds `wait_lock`, it waits
for a `p->lock`. -/
theorem proceed_eq_disabled {pc : Pc} (waits : proceed state c p slots pc = .disabled) :
    (∀ q, .proc q ∉ pc.locks p) ∧
      (.wait ∈ pc.locks p → ∃ q d, d ≠ c ∧ state.spin.owner (.proc q) = some d) := by
  cases pc with
  | free | sleepRelock | kill | fork | forkParent | forkReady => simp [Pc.locks]
  | wakeup chan next ret =>
    refine ⟨by cases ret <;> simp [Pc.locks, WakeupReturn.locks], fun _ => ⟨next, ?_⟩⟩
    simp only [proceed, wakeupStep] at waits
    split at waits
    · split at waits
      · cases waits
      · exact acquiring_eq_disabled waits
    · cases waits
  | exitLock | waitKilled | waitSleep =>
    simp only [proceed, exitStep, waitStep] at waits
    exact ⟨by simp [Pc.locks], fun _ => ⟨p, acquiring_eq_disabled waits⟩⟩
  | wait next havekids =>
    refine ⟨by simp [Pc.locks], fun _ => ⟨next, ?_⟩⟩
    simp only [proceed, waitStep] at waits
    split at waits
    · split at waits
      · exact acquiring_eq_disabled waits
      · cases waits
    · split at waits <;> cases waits
  | _ =>
    simp only [proceed, sleepStep, wakeupStep, killStep, exitStep, forkStep, waitStep] at waits
    repeat' split at waits
    all_goals simp at waits

theorem schedulerStep_eq_disabled {pc : SchedPc}
    (waits : schedulerStep state c slots pc .proceed = .disabled) : pc.locks = [] := by
  cases pc with
  | scan | wake => rfl
  | locked | back | wakeLocked =>
    simp only [schedulerStep] at waits
    repeat' split at waits
    all_goals simp at waits

/-- A CPU that has to wait holds no `p->lock`, and if it holds `wait_lock`, then another CPU
holds a `p->lock`. So no CPUs wait for each other in a circle. -/
theorem waits_in_lock_order {cpus : Nat} {labels : List (Nat × Choice)}
    (run : Steps (step slots cpus) boot labels state) (inside : c < cpus)
    (waits : step slots cpus state (c, .proceed) = .disabled) :
    (∀ q, state.spin.owner (.proc q) ≠ some c) ∧
      (state.spin.owner .wait = some c → ∃ q d, d ≠ c ∧ state.spin.owner (.proc q) = some d) := by
  have owner := (run_consistent run).owner c
  simp only [ne_eq, owner (.proc _) rfl, owner .wait rfl]
  rw [step, if_pos inside] at waits
  cases here : (state.cpu c).ctx with
  | scheduler pc =>
    simp only [here] at waits
    simp [Ctx.locks, schedulerStep_eq_disabled waits]
  | thread p =>
    simp only [here, threadStep] at waits
    cases yielding : (state.proc p).yielding with
    | none =>
      simp only [yielding] at waits
      simpa only [Ctx.locks, Proc.locks, yielding] using proceed_eq_disabled waits
    | some place =>
      simp only [yielding] at waits
      cases place <;> simp [yieldStep] at waits

/-- `init` holds `wait_lock` in `wait` and waits for the lock of its child, which the scheduler
of another CPU holds. -/
def waitForChild : List (Nat × Choice) :=
  failedCopyout.take 15 ++ List.replicate 3 (1, .proceed)

theorem waits_in_lock_order_waitForChild : ∃ state, Steps (step 2 2) boot waitForChild state ∧
    state.spin.owner .wait = some 0 ∧ ∃ q d, d ≠ 0 ∧ state.spin.owner (.proc q) = some d := by
  have run := steps_iff_runSteps.mpr (Outcome.eq_next_of_isNext boot
    (show (runSteps (step 2 2) boot waitForChild).isNext = true by decide +kernel))
  have held : ((runSteps (step 2 2) boot waitForChild).getD boot).spin.owner .wait = some 0 := by
    decide +kernel
  exact ⟨_, run, held, (waits_in_lock_order run (by decide) (by rfl)).2 held⟩

end Xv6.Sched
