import Xv6.Syscall.Machine

/-! # What a step on the process table can do -/

namespace Xv6.Syscalls

open Function (update update_eq_self)

variable {state next : State} {p q : Nat} {action : Action}

/-- A slot holds a process. -/
def State.Live (state : State) (q : Nat) : Prop := (state.proc q).state ≠ .unused

/-- A slot holds a process that runs, sleeps or waits to run. -/
def State.Active (state : State) (q : Nat) : Prop :=
  (state.proc q).state = .running ∨ (state.proc q).state = .sleeping ∨
    (state.proc q).state = .runnable

theorem State.Active.live (active : state.Active q) : state.Live q := by
  rcases active with equal | equal | equal <;> simp [State.Live, equal]

/-- The child that a running `fork` has made and not yet made runnable. -/
def Pc.child : Pc → Option Nat
  | .forkParent np | .forkReady np => some np
  | _ => none

/-- Two records of one slot that differ only in where the process is and whose
child it is. -/
structure Kept (before after : Proc) : Prop where
  live : after.state = .unused ↔ before.state = .unused
  pid : after.pid = before.pid
  killed : after.killed = before.killed
  mask : after.mask = before.mask
  number : after.number = before.number

def Proc.goto (proc : Proc) (pc : Pc) : Proc := { proc with pc := pc }

/-- The table with new records in two slots. -/
def withTwo (table : Nat → Proc) (p : Nat) (proc : Proc) (q : Nat) (proc' : Proc) : Nat → Proc :=
  update (update table p proc) q proc'

/-- The steps of a process, with the table and the event that they lead to. -/
inductive Moves (state : State) (p : Nat) : Action → (Nat → Proc) → Option Event → Prop
  /-- Only the place of the process changes. -/
  | goto {action proc} (kept : Kept (state.proc p) proc)
      (child : proc.pc.child = none ∨ proc.pc = (state.proc p).pc)
      (kill : ∀ pid next, proc.pc = .kill pid next → (∃ slot, (state.proc p).pc = .kill pid slot) ∨
        ∃ num, action = .trap num pid ∧ syscalls num = some .kill) :
      Moves state p action (update state.proc p proc) none
  | exit {num arg} (user : (state.proc p).pc = .user) :
      Moves state p (.trap num arg) (update (reparent p state.proc) p
        { reparent p state.proc p with state := .zombie }) none
  | trace {num arg} (user : (state.proc p).pc = .user) :
      Moves state p (.trap num arg) (update state.proc p
        { state.proc p with mask := arg, pc := .returned num.toNatClampNeg 0 })
        (some (.traced (state.proc p).number arg))
  | create {np} (unused : (state.proc np).state = .unused) :
      Moves state p .proceed (withTwo state.proc p ((state.proc p).goto (.forkParent np)) np
        (forkProc state.nextpid state.created p (state.proc p).mask (state.proc np)))
        (some (.created state.created (some (state.proc p).number)))
  | createFail {np} (unused : (state.proc np).state = .unused) :
      Moves state p .fail (withTwo state.proc p ((state.proc p).goto (.returned 1 (-1))) np
        (freeproc (state.proc np))) none
  | forkParent {np} (here : (state.proc p).pc = .forkParent np) :
      Moves state p .proceed (withTwo state.proc p ((state.proc p).goto (.forkReady np)) np
        { state.proc np with parent := some p }) none
  | forkReady {np} (here : (state.proc p).pc = .forkReady np) :
      Moves state p .proceed
        (withTwo state.proc p ((state.proc p).goto (.returned 1 (state.proc np).pid)) np
          { state.proc np with state := .runnable }) none
  | reap {slot} (zombie : (state.proc slot).state = .zombie) (here : (state.proc p).pc = .wait) :
      Moves state p (.reap slot)
        (withTwo state.proc p ((state.proc p).goto (.returned 3 (state.proc slot).pid)) slot
          (freeproc (state.proc slot))) none
  | kill {pid slot} (here : (state.proc p).pc = .kill pid slot)
      (found : (state.proc slot).pid = pid) :
      Moves state p .proceed (let killed := update state.proc slot (killProc (state.proc slot))
        update killed p ((killed p).goto (.returned 6 0))) (some (.killed pid slot))
  | print {num value} (here : (state.proc p).pc = .returned num value) :
      Moves state p .proceed (update state.proc p ((state.proc p).goto .user))
        (some (.returned (state.proc p).number num (traces num (state.proc p).mask)))

/-- The processes that a step creates. -/
def Event.creates : Option Event → Nat
  | some (.created ..) => 1
  | _ => 0

/-- A step of `p` leads to `next`. -/
structure Stepped (state : State) (p : Nat) (action : Action) (next : State)
    (event : Option Event) : Prop where
  moves : Moves state p action next.proc event
  history : next.history = event.toList ++ state.history
  created : next.created = state.created + Event.creates event

theorem Kept.refl (proc : Proc) : Kept proc proc := ⟨Iff.rfl, rfl, rfl, rfl, rfl⟩

theorem Kept.goto (proc : Proc) (pc : Pc) : Kept proc (proc.goto pc) :=
  ⟨Iff.rfl, rfl, rfl, rfl, rfl⟩

theorem Stepped.of_goto {pc : Pc} (child : pc.child = none)
    (kill : ∀ pid next, pc ≠ .kill pid next) :
    Stepped state p action (state.setPc p pc) none :=
  ⟨.goto (Kept.goto _ pc) (.inl child) fun pid next equal => absurd equal (kill pid next), rfl, rfl⟩

theorem Stepped.of_setState (live : state.Live p) (live' : procState ≠ .unused) :
    Stepped state p action (state.setState p procState) none := by
  refine ⟨.goto ⟨?_, rfl, rfl, rfl, rfl⟩ (.inr rfl) fun _ _ equal => .inl ⟨_, equal⟩, rfl, rfl⟩
  exact ⟨fun equal => absurd equal live', fun equal => absurd equal live⟩

theorem trapStep_stepped (user : (state.proc p).pc = .user)
    (stepEq : trapStep state p num arg = .next next) :
    ∃ event, Stepped state p (.trap num arg) next event := by
  rw [trapStep] at stepEq
  split at stepEq
  · cases stepEq
    have quiet : Moves state p (.trap num arg) (update state.proc p (state.proc p)) none :=
      .goto (Kept.refl _) (.inr rfl) fun _ _ equal => .inl ⟨_, equal⟩
    rw [update_eq_self] at quiet
    exact ⟨none, quiet, rfl, rfl⟩
  · cases stepEq
    exact ⟨none, .of_goto rfl fun _ _ equal => by cases equal⟩
  · split at stepEq
    · cases stepEq
    · cases stepEq
      exact ⟨none, .exit user, rfl, rfl⟩
  · cases stepEq
    exact ⟨none, .of_goto rfl fun _ _ equal => by cases equal⟩
  · rename_i found
    cases stepEq
    refine ⟨none, .goto (Kept.goto _ _) (.inl rfl) fun pid next equal => .inr ⟨num, ?_, found⟩,
      rfl, rfl⟩
    cases equal
    rfl
  · cases stepEq
    exact ⟨_, .trace user, rfl, rfl⟩
  · cases stepEq
    exact ⟨none, .of_goto rfl fun _ _ equal => by cases equal⟩

theorem proceed_stepped (stepEq : proceed state p = .next next) :
    ∃ event, Stepped state p .proceed next event := by
  rw [proceed] at stepEq
  cases here : (state.proc p).pc with
  | user | handler | wait => simp [here] at stepEq
  | fork slot =>
    simp only [here, forkStep] at stepEq
    split at stepEq
    · split at stepEq
      · rename_i unused
        cases stepEq
        exact ⟨_, .create unused, rfl, rfl⟩
      · cases stepEq
        exact ⟨none, .of_goto rfl fun _ _ equal => by cases equal⟩
    · cases stepEq
      exact ⟨none, .of_goto rfl fun _ _ equal => by cases equal⟩
  | forkParent np =>
    simp only [here] at stepEq
    cases stepEq
    exact ⟨none, .forkParent here, rfl, rfl⟩
  | forkReady np =>
    simp only [here] at stepEq
    cases stepEq
    exact ⟨none, .forkReady here, rfl, rfl⟩
  | kill pid slot =>
    simp only [here, killStep] at stepEq
    split at stepEq
    · split at stepEq
      · rename_i found
        cases stepEq
        exact ⟨_, .kill here found, rfl, rfl⟩
      · cases stepEq
        refine ⟨none, .goto (Kept.goto _ _) (.inl rfl) fun pid' next equal => ?_, rfl, rfl⟩
        cases equal
        exact .inl ⟨slot, here⟩
    · cases stepEq
      exact ⟨none, .of_goto rfl fun _ _ equal => by cases equal⟩
  | returned num value =>
    simp only [here] at stepEq
    cases stepEq
    exact ⟨_, .print here, rfl, rfl⟩

theorem failStep_stepped (stepEq : failStep state p = .next next) :
    ∃ event, Stepped state p .fail next event := by
  rw [failStep] at stepEq
  split at stepEq
  · split at stepEq
    · rename_i slot unused
      simp only [forkStep, unused.1, unused.2, if_true] at stepEq
      cases stepEq
      exact ⟨none, .createFail unused.2, rfl, rfl⟩
    · cases stepEq
  · cases stepEq
    exact ⟨none, .of_goto rfl fun _ _ equal => by cases equal⟩
  · cases stepEq

theorem runningStep_stepped (running : (state.proc p).state = .running)
    (stepEq : runningStep state p action = .next next) :
    ∃ event, Stepped state p action next event := by
  have live : state.Live p := State.Active.live (.inl running)
  cases action with
  | trap num arg =>
    rw [runningStep] at stepEq
    split at stepEq
    · exact trapStep_stepped ‹_› stepEq
    · cases stepEq
  | proceed => exact proceed_stepped stepEq
  | fail => exact failStep_stepped stepEq
  | reap q =>
    rw [runningStep, reapStep] at stepEq
    split at stepEq
    · rename_i found
      cases stepEq
      exact ⟨none, .reap found.2.2.2 found.1, rfl, rfl⟩
    · cases stepEq
  | finish value =>
    rw [runningStep, finishStep] at stepEq
    split at stepEq
    · cases stepEq
      exact ⟨none, .of_goto rfl fun _ _ equal => by cases equal⟩
    · cases stepEq
  | sleep =>
    rw [runningStep] at stepEq
    split at stepEq
    · cases stepEq
      exact ⟨none, .of_setState live (by simp)⟩
    · cases stepEq
  | yield =>
    cases stepEq
    exact ⟨none, .of_setState live (by simp)⟩
  | wakeup | schedule => cases stepEq

theorem step_stepped (stepEq : step state (p, action) = .next next) :
    state.Active p ∧ ∃ event, Stepped state p action next event := by
  rw [step] at stepEq
  split at stepEq
  · split at stepEq
    all_goals rename_i here
    · exact ⟨.inl here, runningStep_stepped here stepEq⟩
    · have active : state.Active p := .inr (.inl here)
      split at stepEq
      · cases stepEq
        exact ⟨active, none, .of_setState active.live (by simp)⟩
      · cases stepEq
    · have active : state.Active p := .inr (.inr here)
      split at stepEq
      · cases stepEq
        exact ⟨active, none, .of_setState active.live (by simp)⟩
      · cases stepEq
    · cases stepEq
  · cases stepEq

end Xv6.Syscalls
