import Xv6.Sched.Machine

/-! # What a step can do

The step function turned into one rule for each step of the code, from which the
invariants are derived. -/

namespace Xv6.Sched

open Function (update update_self update_of_ne)

namespace State

section Fields

variable (state : State) (p c : Nat) (proc : Proc) (pc : Pc) (ctx : Ctx)

@[simp] theorem setProc_proc_self : (state.setProc p proc).proc p = proc :=
  update_self ..

variable {q : Nat}

theorem setProc_proc_of_ne {p : Nat} (different : q ≠ p) :
    (state.setProc p proc).proc q = state.proc q :=
  update_of_ne different ..

@[simp] theorem setPc_proc_self :
    (state.setPc p pc).proc p = { state.proc p with pc := pc } :=
  update_self ..

theorem setPc_proc_of_ne {p : Nat} (different : q ≠ p) : (state.setPc p pc).proc q = state.proc q :=
  update_of_ne different ..

@[simp] theorem setCtx_cpu_self :
    (state.setCtx c ctx).cpu c = { state.cpu c with ctx := ctx } :=
  update_self ..

theorem setCtx_cpu_of_ne {c d : Nat} (different : d ≠ c) :
    (state.setCtx c ctx).cpu d = state.cpu d :=
  update_of_ne different ..

end Fields

/-- The state after CPU `c` has taken a lock. -/
@[simps! -fullyApplied proc cpu spin history]
def take (state : State) (c : Nat) (lk : Lock) : State :=
  state.setSpin (state.spin.taken c lk)

/-- The state after CPU `c` has released a lock. -/
@[simps! -fullyApplied proc cpu spin history]
def drop (state : State) (c : Nat) (lk : Lock) : State :=
  state.setSpin (state.spin.dropped c lk)

end State

open State

variable {slots : Nat} {state after : State} {c p : Nat}

variable {change : State → State}

theorem acquiring_eq_next :
    acquiring state c lk change = .next after ↔
      state.spin.owner lk = none ∧ change (state.take c lk) = after := by
  rw [acquiring, Outcome.map_eq_next_iff]
  constructor
  · intro ⟨spin, acquired, equal⟩
    rcases Spinlocks.acquire_eq_next.mp acquired with ⟨free, taken⟩
    subst taken
    exact ⟨free, equal⟩
  · intro ⟨free, equal⟩
    exact ⟨_, Spinlocks.acquire_eq_next.mpr ⟨free, rfl⟩, equal⟩

theorem releasing_eq_next :
    releasing state c lk change = .next after ↔
      state.spin.owner lk = some c ∧ change (state.drop c lk) = after := by
  rw [releasing, Outcome.map_eq_next_iff]
  constructor
  · intro ⟨spin, released, equal⟩
    rcases Spinlocks.release_eq_next.mp released with ⟨holds, dropped⟩
    subst dropped
    exact ⟨holds, equal⟩
  · intro ⟨holds, equal⟩
    exact ⟨_, Spinlocks.release_eq_next.mpr ⟨holds, rfl⟩, equal⟩

theorem of_acquiring {Holds : State → Prop} (stepEq : acquiring state c lk change = .next after)
    (holds : state.spin.owner lk = none → Holds (change (state.take c lk))) : Holds after := by
  rcases acquiring_eq_next.mp stepEq with ⟨available, rfl⟩
  exact holds available

theorem of_releasing {Holds : State → Prop} (stepEq : releasing state c lk change = .next after)
    (holds : state.spin.owner lk = some c → Holds (change (state.drop c lk))) : Holds after := by
  rcases releasing_eq_next.mp stepEq with ⟨mine, rfl⟩
  exact holds mine

theorem sched_eq_next {proc : Proc} (stepEq : sched state c p proc = .next after) :
    state.spin.owner (.proc p) = some c ∧ state.spin.noff c = 1 ∧
      (state.setProc p proc).setCtx c (.scheduler (.back (state.cpu c).context)) = after := by
  rw [sched] at stepEq
  split at stepEq
  · cases stepEq
  · rename_i holds
    split at stepEq
    · cases stepEq
    · rename_i only
      split at stepEq
      · cases stepEq
      · cases stepEq
        exact ⟨not_not.mp holds, not_not.mp only, rfl⟩

/-- What the thread of `p` can do at `pc` when it is not in `yield`. -/
inductive Moves (slots : Nat) (state : State) (c p : Nat) : Pc → State → Prop
  | acquire {lk} (available : state.spin.owner (.other lk) = none) :
      Moves slots state c p .free (state.take c (.other lk))
  | release {lk} (holds : state.spin.owner (.other lk) = some c) :
      Moves slots state c p .free (state.drop c (.other lk))
  | callSleep {chan lk} (available : state.spin.owner (.proc p) = none) :
      Moves slots state c p .free ((state.take c (.proc p)).setPc p (.sleepLocked (.other chan lk)))
  | callWakeup {chan} : Moves slots state c p .free
      (state.setPc p (.wakeup (some (.other chan)) 0 .caller))
  | callKill {pid} : Moves slots state c p .free (state.setPc p (.kill pid 0))
  | callExit {status} (notInit : p ≠ initproc) (available : state.spin.owner .wait = none) :
      Moves slots state c p .free ((state.take c .wait).setPc p (.reparent status 0))
  | callFork : Moves slots state c p .free (state.setPc p (.fork 0))
  | callWait (available : state.spin.owner .wait = none) :
      Moves slots state c p .free ((state.take c .wait).setPc p (.wait 0 false))
  | forkret (holds : state.spin.owner (.proc p) = some c) :
      Moves slots state c p .forkret ((state.drop c (.proc p)).setPc p .free)
  | sleepRelease {call} (holds : state.spin.owner call.lock = some c) :
      Moves slots state c p (.sleepLocked call)
        (((state.drop c call.lock).setPc p (.sleepReleased call)).record (.released p call))
  | sleepState {call} : Moves slots state c p (.sleepReleased call)
      (state.setProc p
        { state.proc p with
          chan := some (call.chan p), state := .sleeping, pc := .sleepSched call })
  | sleepResume {call} (holds : state.spin.owner (.proc p) = some c) :
      Moves slots state c p (.sleepResumed call)
        ((state.drop c (.proc p)).setProc p
          { state.proc p with chan := none, pc := .sleepRelock call })
  | sleepReturn {call} (available : state.spin.owner call.lock = none) :
      Moves slots state c p (.sleepRelock call) ((state.take c call.lock).setPc p call.pc)
  | wakeupSelf {chan ret} (inside : p < slots) : Moves slots state c p (.wakeup chan p ret)
      (state.setPc p (.wakeup chan (p + 1) ret))
  | wakeupLock {chan next ret} (inside : next < slots) (different : next ≠ p)
      (available : state.spin.owner (.proc next) = none) :
      Moves slots state c p (.wakeup chan next ret)
        ((state.take c (.proc next)).setPc p (.wakeupLocked chan next ret))
  | wakeupReturn {chan next ret} (outside : slots ≤ next) :
      Moves slots state c p (.wakeup chan next ret)
        ((state.setPc p ret.pc).record (.woke chan fun lk => state.spin.owner lk = some c))
  | wakeupSlot {chan slot ret} (holds : state.spin.owner (.proc slot) = some c) :
      Moves slots state c p (.wakeupLocked chan slot ret)
        (((state.drop c (.proc slot)).setProc slot (wakeProc chan (state.proc slot))).setPc p
          (.wakeup chan (slot + 1) ret))
  | killLock {pid next} (inside : next < slots)
      (available : state.spin.owner (.proc next) = none) :
      Moves slots state c p (.kill pid next)
        ((state.take c (.proc next)).setPc p (.killLocked pid next))
  | killNone {pid next} (outside : slots ≤ next) :
      Moves slots state c p (.kill pid next) (state.setPc p .free)
  | killFound {slot} (holds : state.spin.owner (.proc slot) = some c) :
      Moves slots state c p (.killLocked (state.proc slot).pid slot)
        (((state.drop c (.proc slot)).setProc slot (killProc (state.proc slot))).setPc p .free)
  | killNext {pid slot} (holds : state.spin.owner (.proc slot) = some c) :
      Moves slots state c p (.killLocked pid slot)
        ((state.drop c (.proc slot)).setPc p (.kill pid (slot + 1)))
  | reparentChild {status next} (inside : next < slots)
      (child : (state.proc next).parent = some p) :
      Moves slots state c p (.reparent status next)
        ((state.setProc next { state.proc next with parent := some initproc }).setPc p
          (.wakeup (some (.proc initproc)) 0 (.reparent status next)))
  | reparentOther {status next} (inside : next < slots)
      (notChild : (state.proc next).parent ≠ some p) :
      Moves slots state c p (.reparent status next) (state.setPc p (.reparent status (next + 1)))
  | reparented {status next} (outside : slots ≤ next) :
      Moves slots state c p (.reparent status next)
        (state.setPc p (.wakeup ((state.proc p).parent.map .proc) 0 (.exit status)))
  | exitLock {status} (available : state.spin.owner (.proc p) = none) :
      Moves slots state c p (.exitLock status)
        ((state.take c (.proc p)).setPc p (.exitLocked status))
  | exitState {status} (holds : state.spin.owner .wait = some c) :
      Moves slots state c p (.exitLocked status)
        (((state.drop c .wait).setProc p
          { state.proc p with xstate := status, state := .zombie, pc := .exitSched }).record
          (.exited p (state.proc p).pid status))
  | forkLock {next} (inside : next < slots)
      (available : state.spin.owner (.proc next) = none) :
      Moves slots state c p (.fork next) ((state.take c (.proc next)).setPc p (.forkLocked next))
  | forkNone {next} (outside : slots ≤ next) :
      Moves slots state c p (.fork next) (state.setPc p .free)
  | forkAlloc {slot} (unused : (state.proc slot).state = .unused) :
      Moves slots state c p (.forkLocked slot)
        ((({ state with nextpid := state.nextpid + 1 }.setProc slot
          (allocproc state.nextpid (state.proc slot))).setPc p (.forkFound slot)).record
          (.allocated slot state.nextpid))
  | forkNext {slot} (holds : state.spin.owner (.proc slot) = some c) :
      Moves slots state c p (.forkLocked slot)
        ((state.drop c (.proc slot)).setPc p (.fork (slot + 1)))
  | forkRelease {slot} (holds : state.spin.owner (.proc slot) = some c) :
      Moves slots state c p (.forkFound slot)
        (((state.drop c (.proc slot)).setProc slot
          { state.proc slot with parent := some p }).setPc p (.forkParent slot))
  | forkFail {slot} (holds : state.spin.owner (.proc slot) = some c) :
      Moves slots state c p (.forkFound slot)
        (((state.drop c (.proc slot)).setProc slot (freeproc (state.proc slot))).setPc p .free)
  | forkParent {slot} (available : state.spin.owner .wait = none) :
      Moves slots state c p (.forkParent slot)
        (((state.take c .wait).setProc slot { state.proc slot with parent := some p }).setPc p
          (.forkParented slot))
  | forkParented {slot} (holds : state.spin.owner .wait = some c) :
      Moves slots state c p (.forkParented slot) ((state.drop c .wait).setPc p (.forkReady slot))
  | forkReady {slot} (available : state.spin.owner (.proc slot) = none) :
      Moves slots state c p (.forkReady slot)
        ((state.take c (.proc slot)).setPc p (.forkReadyLocked slot))
  | forkRunnable {slot} (holds : state.spin.owner (.proc slot) = some c) :
      Moves slots state c p (.forkReadyLocked slot)
        (((state.drop c (.proc slot)).setProc slot
          { state.proc slot with state := .runnable }).setPc p .free)
  | waitLock {next havekids} (inside : next < slots)
      (child : (state.proc next).parent = some p)
      (available : state.spin.owner (.proc next) = none) :
      Moves slots state c p (.wait next havekids)
        ((state.take c (.proc next)).setPc p (.waitLocked next))
  | waitOther {next havekids} (inside : next < slots)
      (notChild : (state.proc next).parent ≠ some p) :
      Moves slots state c p (.wait next havekids) (state.setPc p (.wait (next + 1) havekids))
  | waitKids {next} (outside : slots ≤ next) :
      Moves slots state c p (.wait next true) (state.setPc p .waitKilled)
  | waitNoKids {next} (outside : slots ≤ next) :
      Moves slots state c p (.wait next false) (state.setPc p .waitReturn)
  | waitReport {slot} (zombie : (state.proc slot).state = .zombie)
      (holds : state.spin.owner (.proc slot) = some c) :
      Moves slots state c p (.waitLocked slot)
        ((((state.drop c (.proc slot)).setProc slot (freeproc (state.proc slot))).setPc p
          .waitReturn).record
          (.reported p slot (state.proc slot).pid (state.proc slot).xstate
            (state.proc slot).parent))
  | waitFail {slot} (zombie : (state.proc slot).state = .zombie)
      (holds : state.spin.owner (.proc slot) = some c) :
      Moves slots state c p (.waitLocked slot) ((state.drop c (.proc slot)).setPc p .waitReturn)
  | waitNext {slot} (notZombie : (state.proc slot).state ≠ .zombie)
      (holds : state.spin.owner (.proc slot) = some c) :
      Moves slots state c p (.waitLocked slot)
        ((state.drop c (.proc slot)).setPc p (.wait (slot + 1) true))
  | waitKilled (available : state.spin.owner (.proc p) = none) :
      Moves slots state c p .waitKilled ((state.take c (.proc p)).setPc p .waitKilledLocked)
  | waitTested {pc} (next : pc = .waitReturn ∨ pc = .waitSleep)
      (holds : state.spin.owner (.proc p) = some c) :
      Moves slots state c p .waitKilledLocked ((state.drop c (.proc p)).setPc p pc)
  | waitSleep (available : state.spin.owner (.proc p) = none) :
      Moves slots state c p .waitSleep ((state.take c (.proc p)).setPc p (.sleepLocked .wait))
  | waitReturn (holds : state.spin.owner .wait = some c) :
      Moves slots state c p .waitReturn ((state.drop c .wait).setPc p .free)

/-- What the thread of `p` can do in `yield`, apart from its `sched`. -/
inductive Yields (state : State) (c p : Nat) : State → Prop
  | timer (awake : (state.proc p).yielding = none) (enabled : state.spin.noff c = 0)
      (available : state.spin.owner (.proc p) = none) :
      Yields state c p ((state.take c (.proc p)).setProc p
        { state.proc p with yielding := some .locked })
  | yield (inside : (state.proc p).yielding = some .locked) :
      Yields state c p (state.setProc p
        { state.proc p with state := .runnable, yielding := some .sched })
  | resume (inside : (state.proc p).yielding = some .resumed)
      (holds : state.spin.owner (.proc p) = some c) :
      Yields state c p ((state.drop c (.proc p)).setProc p { state.proc p with yielding := none })

/-- A call of `sched` by the thread of `p`. -/
inductive Switches (state : State) (c p : Nat) : State → Prop
  | schedYield (inside : (state.proc p).yielding = some .sched)
      (holds : state.spin.owner (.proc p) = some c) (only : state.spin.noff c = 1) :
      Switches state c p ((state.setProc p
        { state.proc p with yielding := some .resumed }).setCtx c
          (.scheduler (.back (state.cpu c).context)))
  | schedSleep {call} (awake : (state.proc p).yielding = none)
      (inside : (state.proc p).pc = .sleepSched call)
      (holds : state.spin.owner (.proc p) = some c) (only : state.spin.noff c = 1) :
      Switches state c p ((state.setProc p
        { state.proc p with pc := .sleepResumed call }).setCtx c
          (.scheduler (.back (state.cpu c).context)))
  | schedExit (awake : (state.proc p).yielding = none)
      (inside : (state.proc p).pc = .exitSched)
      (holds : state.spin.owner (.proc p) = some c) (only : state.spin.noff c = 1) :
      Switches state c p ((state.setProc p { state.proc p with pc := .exited }).setCtx c
          (.scheduler (.back (state.cpu c).context)))

/-- What the scheduler of CPU `c` can do at `pc`. -/
inductive Schedules (slots : Nat) (state : State) (c : Nat) : SchedPc → State → Prop
  | lock {next} (inside : next < slots) (available : state.spin.owner (.proc next) = none) :
      Schedules slots state c (.scan next)
        ((state.take c (.proc next)).setCtx c (.scheduler (.locked next)))
  | again {next} (outside : slots ≤ next) :
      Schedules slots state c (.scan next) (state.setCtx c (.scheduler (.scan 0)))
  | interrupt {next chan lk} (available : state.spin.owner (.other lk) = none) :
      Schedules slots state c (.scan next)
        ((state.take c (.other lk)).setCtx c (.scheduler (.wake chan lk 0 next)))
  | dispatch {slot} (runnable : (state.proc slot).state = .runnable) :
      Schedules slots state c (.locked slot)
        { state.setProc slot { state.proc slot with state := .running } with
          cpu := update state.cpu c { proc := some slot, context := slot, ctx := .thread slot } }
  | skip {slot} (holds : state.spin.owner (.proc slot) = some c) :
      Schedules slots state c (.locked slot)
        ((state.drop c (.proc slot)).setCtx c (.scheduler (.scan (slot + 1))))
  | finish {slot} (holds : state.spin.owner (.proc slot) = some c) :
      Schedules slots state c (.back slot)
        { state.drop c (.proc slot) with
          cpu := update state.cpu c
            { state.cpu c with proc := none, ctx := .scheduler (.scan (slot + 1)) } }
  | wakeLock {chan lk next resume} (inside : next < slots)
      (available : state.spin.owner (.proc next) = none) :
      Schedules slots state c (.wake chan lk next resume)
        ((state.take c (.proc next)).setCtx c (.scheduler (.wakeLocked chan lk next resume)))
  | wakeReturn {chan lk next resume} (outside : slots ≤ next)
      (holds : state.spin.owner (.other lk) = some c) :
      Schedules slots state c (.wake chan lk next resume)
        (((state.drop c (.other lk)).setCtx c (.scheduler (.scan resume))).record
          (.woke (some (.other chan)) fun lk => state.spin.owner lk = some c))
  | wakeSlot {chan lk slot resume} (holds : state.spin.owner (.proc slot) = some c) :
      Schedules slots state c (.wakeLocked chan lk slot resume)
        (((state.drop c (.proc slot)).setProc slot
          (wakeProc (some (.other chan)) (state.proc slot))).setCtx c
          (.scheduler (.wake chan lk (slot + 1) resume)))

theorem callStep_moves (stepEq : callStep state c p call = .next after) :
    Moves slots state c p .free after := by
  cases call with
  | acquire lk => exact of_acquiring stepEq .acquire
  | release lk => exact of_releasing stepEq .release
  | sleep chan lk =>
    simp only [callStep] at stepEq
    exact of_acquiring stepEq .callSleep
  | wakeup chan =>
    cases stepEq
    exact .callWakeup
  | kill pid =>
    cases stepEq
    exact .callKill
  | exit status =>
    simp only [callStep] at stepEq
    split at stepEq
    · cases stepEq
    · rename_i notInit
      exact of_acquiring stepEq (.callExit notInit)
  | fork =>
    cases stepEq
    exact .callFork
  | wait =>
    simp only [callStep] at stepEq
    exact of_acquiring stepEq .callWait

variable {pc : Pc}

theorem failStep_moves (stepEq : failStep state c p pc = .next after) :
    Moves slots state c p pc after := by
  cases pc with
  | forkFound slot =>
    simp only [failStep] at stepEq
    exact of_releasing stepEq .forkFail
  | waitLocked slot =>
    simp only [failStep] at stepEq
    split at stepEq
    · rename_i zombie
      exact of_releasing stepEq (.waitFail zombie)
    · cases stepEq
  | _ => cases stepEq

theorem wakeupStep_moves (stepEq : wakeupStep state c p slots pc = .next after) :
    Moves slots state c p pc after := by
  cases pc with
  | wakeup chan next ret =>
    simp only [wakeupStep] at stepEq
    split at stepEq
    · rename_i inside
      split at stepEq
      · rename_i self
        subst self
        cases stepEq
        exact .wakeupSelf inside
      · rename_i different
        exact of_acquiring stepEq (.wakeupLock inside different)
    · rename_i outside
      cases stepEq
      exact .wakeupReturn (Nat.le_of_not_lt outside)
  | wakeupLocked chan slot ret =>
    simp only [wakeupStep] at stepEq
    exact of_releasing stepEq .wakeupSlot
  | _ => cases stepEq

theorem killStep_moves (stepEq : killStep state c p slots pc = .next after) :
    Moves slots state c p pc after := by
  cases pc with
  | kill pid next =>
    simp only [killStep] at stepEq
    split at stepEq
    · rename_i inside
      exact of_acquiring stepEq (.killLock inside)
    · rename_i outside
      cases stepEq
      exact .killNone (Nat.le_of_not_lt outside)
  | killLocked pid slot =>
    simp only [killStep] at stepEq
    split at stepEq
    · rename_i found
      subst found
      exact of_releasing stepEq .killFound
    · exact of_releasing stepEq .killNext
  | _ => cases stepEq

theorem forkStep_moves (stepEq : forkStep state c p slots pc = .next after) :
    Moves slots state c p pc after := by
  cases pc with
  | fork next =>
    simp only [forkStep] at stepEq
    split at stepEq
    · rename_i inside
      exact of_acquiring stepEq (.forkLock inside)
    · rename_i outside
      cases stepEq
      exact .forkNone (Nat.le_of_not_lt outside)
  | forkLocked slot =>
    simp only [forkStep] at stepEq
    split at stepEq
    · rename_i unused
      cases stepEq
      exact .forkAlloc unused
    · exact of_releasing stepEq .forkNext
  | forkFound slot =>
    simp only [forkStep] at stepEq
    exact of_releasing stepEq .forkRelease
  | forkParent slot =>
    simp only [forkStep] at stepEq
    exact of_acquiring stepEq .forkParent
  | forkParented slot =>
    simp only [forkStep] at stepEq
    exact of_releasing stepEq .forkParented
  | forkReady slot =>
    simp only [forkStep] at stepEq
    exact of_acquiring stepEq .forkReady
  | forkReadyLocked slot =>
    simp only [forkStep] at stepEq
    exact of_releasing stepEq .forkRunnable
  | _ => cases stepEq

theorem waitStep_moves (stepEq : waitStep state c p slots pc = .next after) :
    Moves slots state c p pc after := by
  cases pc with
  | wait next havekids =>
    simp only [waitStep] at stepEq
    split at stepEq
    · rename_i inside
      split at stepEq
      · rename_i child
        exact of_acquiring stepEq (.waitLock inside child)
      · rename_i notChild
        cases stepEq
        exact .waitOther inside notChild
    · rename_i outside
      cases havekids with
      | true =>
        cases stepEq
        exact .waitKids (Nat.le_of_not_lt outside)
      | false =>
        cases stepEq
        exact .waitNoKids (Nat.le_of_not_lt outside)
  | waitLocked slot =>
    simp only [waitStep] at stepEq
    split at stepEq
    · rename_i zombie
      exact of_releasing stepEq (.waitReport zombie)
    · rename_i notZombie
      exact of_releasing stepEq (.waitNext notZombie)
  | waitKilled =>
    simp only [waitStep] at stepEq
    exact of_acquiring stepEq .waitKilled
  | waitKilledLocked =>
    simp only [waitStep] at stepEq
    rcases releasing_eq_next.mp stepEq with ⟨holds, rfl⟩
    apply Moves.waitTested _ holds
    split
    · exact .inl rfl
    · exact .inr rfl
  | waitSleep =>
    simp only [waitStep] at stepEq
    exact of_acquiring stepEq .waitSleep
  | waitReturn =>
    simp only [waitStep] at stepEq
    exact of_releasing stepEq .waitReturn
  | _ => cases stepEq

section

variable (awake : (state.proc p).yielding = none) (inside : (state.proc p).pc = pc)

include awake inside

theorem sleepStep_moves (stepEq : sleepStep state c p pc = .next after) :
    Switches state c p after ∨ Moves slots state c p pc after := by
  cases pc with
  | sleepLocked call =>
    simp only [sleepStep] at stepEq
    exact .inr (of_releasing stepEq .sleepRelease)
  | sleepReleased call =>
    cases stepEq
    exact .inr .sleepState
  | sleepSched call =>
    rcases sched_eq_next stepEq with ⟨holds, only, rfl⟩
    exact .inl (.schedSleep awake inside holds only)
  | sleepResumed call =>
    simp only [sleepStep] at stepEq
    exact .inr (of_releasing stepEq .sleepResume)
  | sleepRelock call =>
    simp only [sleepStep] at stepEq
    exact .inr (of_acquiring stepEq .sleepReturn)
  | _ => cases stepEq

theorem exitStep_moves (stepEq : exitStep state c p slots pc = .next after) :
    Switches state c p after ∨ Moves slots state c p pc after := by
  cases pc with
  | reparent status next =>
    simp only [exitStep] at stepEq
    split at stepEq
    · rename_i bound
      split at stepEq
      · rename_i child
        cases stepEq
        exact .inr (.reparentChild bound child)
      · rename_i notChild
        cases stepEq
        exact .inr (.reparentOther bound notChild)
    · rename_i outside
      cases stepEq
      exact .inr (.reparented (Nat.le_of_not_lt outside))
  | exitLock status =>
    simp only [exitStep] at stepEq
    exact .inr (of_acquiring stepEq .exitLock)
  | exitLocked status =>
    simp only [exitStep] at stepEq
    exact .inr (of_releasing stepEq .exitState)
  | exitSched =>
    rcases sched_eq_next stepEq with ⟨holds, only, rfl⟩
    exact .inl (.schedExit awake inside holds only)
  | _ => cases stepEq

theorem proceed_moves (stepEq : proceed state c p slots pc = .next after) :
    Switches state c p after ∨ Moves slots state c p pc after := by
  cases pc with
  | free => cases stepEq
  | forkret =>
    simp only [proceed] at stepEq
    exact .inr (of_releasing stepEq .forkret)
  | sleepLocked | sleepReleased | sleepSched | sleepResumed | sleepRelock =>
    exact sleepStep_moves awake inside stepEq
  | wakeup | wakeupLocked => exact .inr (wakeupStep_moves stepEq)
  | kill | killLocked => exact .inr (killStep_moves stepEq)
  | reparent | exitLock | exitLocked | exitSched | exited =>
    exact exitStep_moves awake inside stepEq
  | fork | forkLocked | forkFound | forkParent | forkParented | forkReady | forkReadyLocked =>
    exact .inr (forkStep_moves stepEq)
  | wait | waitLocked | waitKilled | waitKilledLocked | waitSleep | waitReturn =>
    exact .inr (waitStep_moves stepEq)

end

variable {choice : Choice}

theorem threadStep_moves (stepEq : threadStep state c p slots choice = .next after) :
    Yields state c p after ∨ Switches state c p after ∨
      ((state.proc p).yielding = none ∧ Moves slots state c p (state.proc p).pc after) := by
  simp only [threadStep] at stepEq
  cases found : (state.proc p).yielding with
  | some pc =>
    simp only [found] at stepEq
    cases choice with
    | proceed =>
      cases pc with
      | locked =>
        cases stepEq
        exact .inl (.yield found)
      | sched =>
        rcases sched_eq_next stepEq with ⟨holds, only, rfl⟩
        exact .inr (.inl (.schedYield found holds only))
      | resumed =>
        simp only [yieldStep] at stepEq
        exact .inl (of_releasing stepEq (.resume found))
    | _ => cases stepEq
  | none =>
    simp only [found] at stepEq
    cases choice with
    | proceed =>
      exact .inr ((proceed_moves found rfl stepEq).imp_right fun moves => ⟨rfl, moves⟩)
    | timer =>
      simp only at stepEq
      split at stepEq
      · rename_i enabled
        exact .inl (of_acquiring stepEq (.timer found enabled))
      · cases stepEq
    | fail => exact .inr (.inr ⟨rfl, failStep_moves stepEq⟩)
    | call call =>
      simp only at stepEq
      split at stepEq
      · rename_i atFree
        rw [atFree]
        exact .inr (.inr ⟨rfl, callStep_moves stepEq⟩)
      · cases stepEq
    | interrupt => cases stepEq

theorem schedulerStep_schedules {pc : SchedPc}
    (stepEq : schedulerStep state c slots pc choice = .next after) :
    Schedules slots state c pc after := by
  cases pc with
  | scan next =>
    cases choice with
    | proceed =>
      simp only [schedulerStep] at stepEq
      split at stepEq
      · rename_i inside
        exact of_acquiring stepEq (.lock inside)
      · rename_i outside
        cases stepEq
        exact .again (Nat.le_of_not_lt outside)
    | interrupt chan lk =>
      simp only [schedulerStep] at stepEq
      exact of_acquiring stepEq .interrupt
    | _ => cases stepEq
  | locked slot =>
    cases choice with
    | proceed =>
      simp only [schedulerStep] at stepEq
      split at stepEq
      · rename_i runnable
        cases stepEq
        exact .dispatch runnable
      · exact of_releasing stepEq .skip
    | _ => cases stepEq
  | back slot =>
    cases choice with
    | proceed =>
      simp only [schedulerStep] at stepEq
      exact of_releasing stepEq .finish
    | _ => cases stepEq
  | wake chan lk next resume =>
    cases choice with
    | proceed =>
      simp only [schedulerStep] at stepEq
      split at stepEq
      · rename_i inside
        exact of_acquiring stepEq (.wakeLock inside)
      · rename_i outside
        exact of_releasing stepEq (.wakeReturn (Nat.le_of_not_lt outside))
    | _ => cases stepEq
  | wakeLocked chan lk slot resume =>
    cases choice with
    | proceed =>
      simp only [schedulerStep] at stepEq
      exact of_releasing stepEq .wakeSlot
    | _ => cases stepEq

theorem step_cases (stepEq : step slots cpus state (c, choice) = .next after) :
    (∃ pc, (state.cpu c).ctx = .scheduler pc ∧ Schedules slots state c pc after) ∨
      ∃ p, (state.cpu c).ctx = .thread p ∧
        (Yields state c p after ∨ Switches state c p after ∨
          ((state.proc p).yielding = none ∧ Moves slots state c p (state.proc p).pc after)) := by
  rw [step] at stepEq
  split at stepEq
  · cases found : (state.cpu c).ctx with
    | scheduler pc =>
      simp only [found] at stepEq
      exact .inl ⟨pc, rfl, schedulerStep_schedules stepEq⟩
    | thread p =>
      simp only [found] at stepEq
      exact .inr ⟨p, rfl, threadStep_moves stepEq⟩
  · cases stepEq

end Xv6.Sched
