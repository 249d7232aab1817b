import Xv6.Sched.ExitWait

/-! # Process identifiers

`allocpid` gives out no pid twice, while the `int` `nextpid` does not overflow. -/

namespace Xv6.Sched

variable {slots cpus : Nat} {state after : State}

/-- The pids given out are below `nextpid`, each for one slot. -/
def Numbered (state : State) : Prop :=
  ∀ slot pid, .allocated slot pid ∈ state.history →
    pid < state.nextpid ∧ ∀ other, .allocated other pid ∈ state.history → slot = other

theorem step_numbered (numbered : Numbered state)
    (stepEq : step slots cpus state label = .next after) : Numbered after := by
  have same : after.nextpid = state.nextpid →
      (∀ slot pid, .allocated slot pid ∈ after.history ↔ .allocated slot pid ∈ state.history) →
      Numbered after := by
    intro nextpid history slot pid
    simp only [history, nextpid]
    exact numbered slot pid
  rcases step_cases stepEq with ⟨_, _, schedules⟩ | ⟨p, _, yields | switches | ⟨_, moves⟩⟩
  · cases schedules <;> exact same rfl (by simp)
  · cases yields <;> exact same rfl fun _ _ => Iff.rfl
  · cases switches <;> exact same rfl fun _ _ => Iff.rfl
  · generalize (state.proc p).pc = pc at moves
    cases moves with
    | forkAlloc =>
      intro slot pid member
      rcases List.mem_cons.mp member with equal | old
      · cases equal
        refine ⟨Nat.lt_succ_self _, fun other again => ?_⟩
        rcases List.mem_cons.mp again with equal | old
        · cases equal
          rfl
        · exact absurd (numbered _ _ old).1 (Nat.lt_irrefl _)
      · rcases numbered slot pid old with ⟨below, unique⟩
        refine ⟨Nat.lt_succ_of_lt below, fun other again => ?_⟩
        rcases List.mem_cons.mp again with equal | again
        · cases equal
          exact absurd below (Nat.lt_irrefl _)
        · exact unique other again
    | _ => exact same rfl (by simp)

theorem Recorded.allocated (recorded : Recorded state) (used : (state.proc p).state ≠ .unused) :
    .allocated p (state.proc p).pid ∈ state.history := by
  have last := recorded.proc p
  rw [Proc.Recorded] at last
  split at last
  · rename_i unused
    exact absurd unused used
  · -- the exit of a ZOMBIE follows the allocation of its slot
    rcases (lastAbout_eq_some_iff.mp last).2 with ⟨between, earlier, split, _⟩
    have member := List.mem_of_find?_eq_some (recorded.ordered.follows_of_split split)
    rw [split]
    exact List.mem_append_right _ (List.mem_cons_of_mem _ member)
  · exact List.mem_of_find?_eq_some last

/-- Two processes that exist at the same time have different pids. -/
theorem pids_differ {labels : List (Nat × Choice)} {p q : Nat}
    (run : Steps (step slots cpus) boot labels state) (different : p ≠ q)
    (used : (state.proc p).state ≠ .unused) (used' : (state.proc q).state ≠ .unused) :
    (state.proc p).pid ≠ (state.proc q).pid := by
  have numbered : Numbered state := by
    refine run.invariant (fun _ _ _ numbered => step_numbered numbered) ?_
    simp [Numbered, boot]
  have recorded := (run_family run).2.2
  intro same
  exact different ((numbered p _ (recorded.allocated used)).2 q (same ▸ recorded.allocated used'))

/-- `init` has forked a child. -/
theorem pids_differ_fork : ∃ state, Steps (step 2 1) boot (failedCopyout.take 13) state ∧
    (state.proc 0).pid ≠ (state.proc 1).pid := by
  have run := steps_iff_runSteps.mpr (Outcome.eq_next_of_isNext boot
    (show (runSteps (step 2 1) boot (failedCopyout.take 13)).isNext = true by decide +kernel))
  exact ⟨_, run, pids_differ run (by decide) (by decide +kernel) (by decide +kernel)⟩

end Xv6.Sched
