import Xv6.Foundation.History
import Xv6.Sched.Family

/-! # The exit/wait protocol

The events about a slot of the process table come in turns: the slot is
allocated, its process exits, and the parent's `wait` reports the exit before
the slot is used again. -/

namespace Xv6.Sched

open State

/-- The slot that an event is about. -/
def Event.slot : Event → Option Nat
  | .allocated slot _ | .exited slot _ _ | .reported _ slot _ _ _ => some slot
  | .released .. | .woke .. => none

/-- The last event about a slot. -/
def lastEvent (slot : Nat) (history : List Event) : Option Event :=
  lastAbout Event.slot slot history

/-- The event may come next. -/
def Event.Follows (history : List Event) : Event → Prop
  | .allocated slot _ => ∀ pid status, lastEvent slot history ≠ some (.exited slot pid status)
  | .exited slot pid _ => lastEvent slot history = some (.allocated slot pid)
  | .reported caller slot pid status parent =>
    parent = some caller ∧ lastEvent slot history = some (.exited slot pid status)
  | .released .. | .woke .. => True

/-- The record of a process agrees with the last event about its slot. -/
def Proc.Recorded (p : Nat) (history : List Event) (proc : Proc) : Prop :=
  match proc.state with
  | .unused => ∀ pid status, lastEvent p history ≠ some (.exited p pid status)
  | .zombie => lastEvent p history = some (.exited p proc.pid proc.xstate)
  | _ => lastEvent p history = some (.allocated p proc.pid)

structure Recorded (state : State) : Prop where
  ordered : Ordered Event.Follows state.history
  proc : ∀ p, (state.proc p).Recorded p state.history

/-! ## Histories -/

section Histories

variable {slot : Nat} {event : Event} {history : List Event}

theorem reported_of_reused (ordered : Ordered Event.Follows history)
    (split : history = between ++ .exited slot pid status :: earlier)
    (reused : lastEvent slot history ≠ some (.exited slot pid status)) :
    ∃ caller, .reported caller slot pid status (some caller) ∈ between := by
  subst split
  induction between with
  | nil => exact absurd (lastAbout_cons_self Event.slot rfl) reused
  | cons event between induction =>
    rw [List.cons_append] at reused ordered
    by_cases unreported : lastEvent slot (between ++ .exited slot pid status :: earlier) =
        some (.exited slot pid status)
    · -- the event is the first one about the slot after the exit
      have about : event.slot = some slot := by
        by_contra other
        rw [lastEvent, lastAbout_cons_of_ne other] at reused
        exact reused unreported
      have follows := ordered.1
      cases event with
      | reported caller found foundPid foundStatus parent =>
        cases about
        rcases follows with ⟨isParent, last⟩
        rw [unreported] at last
        cases last
        exact ⟨caller, isParent ▸ List.mem_cons_self⟩
      | allocated found =>
        cases about
        exact absurd unreported (follows pid status)
      | exited found =>
        cases about
        cases unreported.symm.trans follows
      | released | woke => cases about
    · rcases induction ordered.2 unreported with ⟨caller, member⟩
      exact ⟨caller, List.mem_cons_of_mem _ member⟩

end Histories

/-! ## Every step keeps the record -/

variable {cpus : Nat}

section Steps

variable {slots : Nat} {state after : State} {c p : Nat} {pc : Pc}

/-- The life of a process goes on. -/
structure Proc.Persists (before after : Proc) : Prop where
  pid : after.pid = before.pid
  xstate : after.xstate = before.xstate
  unused : after.state = .unused ↔ before.state = .unused
  zombie : after.state = .zombie ↔ before.state = .zombie

variable {before : Proc}

theorem Proc.Persists.of_state {after : Proc} (pid : after.pid = before.pid)
    (xstate : after.xstate = before.xstate) (state : after.state = before.state) :
    before.Persists after := by
  constructor
  · exact pid
  · exact xstate
  · rw [state]
  · rw [state]

theorem Proc.Persists.refl (proc : Proc) : proc.Persists proc := .of_state rfl rfl rfl

theorem Proc.Persists.trans {first second third : Proc} (persists : first.Persists second)
    (further : second.Persists third) : first.Persists third :=
  ⟨further.pid.trans persists.pid, further.xstate.trans persists.xstate,
    further.unused.trans persists.unused, further.zombie.trans persists.zombie⟩

variable {history : List Event}

theorem Proc.Persists.recorded {after : Proc} (persists : before.Persists after)
    (recorded : before.Recorded p history) : after.Recorded p history := by
  rcases persists with ⟨pid, xstate, unused, zombie⟩
  rw [Proc.Recorded] at *
  cases afterEq : after.state <;> cases beforeEq : before.state <;> simp_all

theorem wakeProc_persists (chan : Option Chan) (proc : Proc) :
    proc.Persists (wakeProc chan proc) := by
  rw [wakeProc]
  split
  · rename_i asleep
    constructor <;> simp [asleep.1]
  · exact Proc.Persists.refl proc

theorem killProc_persists (proc : Proc) : proc.Persists (killProc proc) := by
  by_cases asleep : proc.state = .sleeping
  · constructor <;> simp [killProc, asleep]
  · exact .of_state rfl rfl (if_neg asleep)

theorem setProc_persists {proc : Proc} (persists : (state.proc p).Persists proc) (r : Nat) :
    (state.proc r).Persists ((state.setProc p proc).proc r) := by
  by_cases same : r = p
  · rw [same, setProc_proc_self]
    exact persists
  · rw [setProc_proc_of_ne _ _ same]
    exact Proc.Persists.refl _

theorem setPc_persists (r : Nat) : (state.proc r).Persists ((state.setPc p pc).proc r) := by
  apply setProc_persists
  exact .of_state rfl rfl rfl

variable {other : Proc}

theorem setSlot_persists {slot : Nat} (persists : (state.proc slot).Persists other) (r : Nat) :
    (state.proc r).Persists (((state.setProc slot other).setPc p pc).proc r) :=
  (setProc_persists persists r).trans (setPc_persists r)

theorem Recorded.same (recorded : Recorded state) (history : after.history = state.history)
    (persists : ∀ r, (state.proc r).Persists (after.proc r)) : Recorded after where
  ordered := history ▸ recorded.ordered
  proc r := history ▸ (persists r).recorded (recorded.proc r)

theorem Proc.Recorded.cons {proc : Proc} {history : List Event} {event : Event}
    (about : event.slot ≠ some p) (recorded : proc.Recorded p history) :
    proc.Recorded p (event :: history) := by
  simp only [Proc.Recorded, lastEvent, lastAbout_cons_of_ne about]
  exact recorded

theorem Recorded.silent (recorded : Recorded state)
    (history : after.history = event :: state.history) (about : event.slot = none)
    (persists : ∀ r, (state.proc r).Persists (after.proc r)) : Recorded after where
  ordered := by
    rw [history]
    refine ⟨?_, recorded.ordered⟩
    cases event <;> first | exact trivial | cases about
  proc r := by
    rw [history]
    apply Proc.Recorded.cons _ ((persists r).recorded (recorded.proc r))
    rw [about]
    exact nofun

theorem Recorded.event (recorded : Recorded state) {slot : Nat} {event : Event}
    (history : after.history = event :: state.history) (about : event.slot = some slot)
    (follows : event.Follows state.history)
    (own : (after.proc slot).Recorded slot (event :: state.history))
    (persists : ∀ r, r ≠ slot → (state.proc r).Persists (after.proc r)) : Recorded after where
  ordered := by
    rw [history]
    exact ⟨follows, recorded.ordered⟩
  proc r := by
    rw [history]
    by_cases same : r = slot
    · rw [same]
      exact own
    · apply Proc.Recorded.cons _ ((persists r same).recorded (recorded.proc r))
      rw [about]
      exact fun equal => same (Option.some.inj equal).symm

theorem setSlot_persists_of_ne (different : r ≠ slot) :
    (state.proc r).Persists (((state.setProc slot other).setPc p pc).proc r) := by
  have changed : (state.proc r).Persists ((state.setProc slot other).proc r) := by
    rw [setProc_proc_of_ne _ _ different]
    exact Proc.Persists.refl _
  exact changed.trans (setPc_persists r)

theorem setSlot_recorded (recorded : other.Recorded slot history) :
    (((state.setProc slot other).setPc p pc).proc slot).Recorded slot history := by
  have moved : ((state.setProc slot other).proc slot).Persists
      (((state.setProc slot other).setPc p pc).proc slot) := setPc_persists slot
  apply moved.recorded
  rw [setProc_proc_self]
  exact recorded

theorem Moves.recorded (moves : Moves slots state c p pc after)
    (consistent : Consistent slots state) (family : Family slots state)
    (recorded : Recorded state) (here : (state.cpu c).ctx = .thread p)
    (awake : (state.proc p).yielding = none) (atPc : (state.proc p).pc = pc) :
    Recorded after := by
  have self : (state.proc p).state = pc.state := by
    rw [consistent.thread c p here, Proc.threadState, awake, atPc]
  cases moves with
  | acquire | release => exact recorded.same rfl fun _ => Proc.Persists.refl _
  | sleepRelease | wakeupReturn => exact recorded.silent rfl rfl setPc_persists
  | sleepState =>
    refine recorded.same rfl (setProc_persists ?_)
    constructor <;> simp [self, Pc.state]
  | sleepResume => exact recorded.same rfl (setProc_persists (.of_state rfl rfl rfl))
  | wakeupSlot => exact recorded.same rfl (setSlot_persists (wakeProc_persists ..))
  | killFound => exact recorded.same rfl (setSlot_persists (killProc_persists _))
  | reparentChild | forkRelease | forkParent =>
    exact recorded.same rfl (setSlot_persists (.of_state rfl rfl rfl))
  | @exitState status holds =>
    have last := recorded.proc p
    rw [Proc.Recorded, self] at last
    refine recorded.event rfl rfl last ?_ fun r different => ?_
    · rw [record_proc, setProc_proc_self]
      exact lastAbout_cons_self Event.slot rfl
    · rw [record_proc, setProc_proc_of_ne _ _ different]
      exact Proc.Persists.refl _
  | @forkAlloc slot unused =>
    have last := recorded.proc slot
    rw [Proc.Recorded, unused] at last
    exact recorded.event rfl rfl last (setSlot_recorded (lastAbout_cons_self Event.slot rfl))
      fun r different => setSlot_persists_of_ne different
  | @forkFail slot holds =>
    have isChild : (state.proc p).pc.child = some slot := by rw [atPc]; rfl
    have last := recorded.proc slot
    rw [Proc.Recorded, (consistent.child p slot isChild).2] at last
    refine ⟨recorded.ordered, fun r => ?_⟩
    by_cases same : r = slot
    · subst same
      apply setSlot_recorded
      intro pid status exited
      cases exited.symm.trans last
    · exact (setSlot_persists_of_ne same).recorded (recorded.proc r)
  | @forkRunnable slot holds =>
    have isChild : (state.proc p).pc.child = some slot := by rw [atPc]; rfl
    refine recorded.same rfl (setSlot_persists ?_)
    constructor <;> simp [(consistent.child p slot isChild).2]
  | @waitReport slot zombie holds =>
    have last := recorded.proc slot
    rw [Proc.Recorded, zombie] at last
    have known := family.known p
    rw [atPc] at known
    refine recorded.event rfl rfl ⟨known.1, last⟩ (setSlot_recorded ?_)
      fun r different => setSlot_persists_of_ne different
    intro pid status exited
    simp [lastEvent, lastAbout, Event.slot] at exited
  | _ => exact recorded.same rfl setPc_persists

theorem Yields.recorded (yields : Yields state c p after) (consistent : Consistent slots state)
    (recorded : Recorded state) (here : (state.cpu c).ctx = .thread p) : Recorded after := by
  cases yields with
  | timer | resume => exact recorded.same rfl (setProc_persists (.of_state rfl rfl rfl))
  | yield inside =>
    have running : (state.proc p).state = .running := by
      rw [consistent.thread c p here, Proc.threadState, inside]
    refine recorded.same rfl (setProc_persists ?_)
    constructor <;> simp [running]

theorem Switches.recorded (switches : Switches state c p after) (recorded : Recorded state) :
    Recorded after := by
  cases switches with
  | schedYield | schedSleep | schedExit =>
    exact recorded.same rfl (setProc_persists (.of_state rfl rfl rfl))

theorem Schedules.recorded {schedPc : SchedPc}
    (schedules : Schedules slots state c schedPc after) (recorded : Recorded state) :
    Recorded after := by
  cases schedules with
  | dispatch runnable =>
    refine recorded.same rfl (setProc_persists ?_)
    constructor <;> simp [runnable]
  | wakeSlot => exact recorded.same rfl (setProc_persists (wakeProc_persists ..))
  | wakeReturn => exact recorded.silent rfl rfl fun _ => Proc.Persists.refl _
  | _ => exact recorded.same rfl fun _ => Proc.Persists.refl _

theorem step_recorded (consistent : Consistent slots state) (family : Family slots state)
    (recorded : Recorded state) (stepEq : step slots cpus state label = .next after) :
    Recorded after := by
  rcases step_cases stepEq with
    ⟨pc, here, schedules⟩ | ⟨p, here, yields | switches | ⟨awake, moves⟩⟩
  · exact schedules.recorded recorded
  · exact yields.recorded consistent recorded here
  · exact switches.recorded recorded
  · exact moves.recorded consistent family recorded here awake rfl

theorem boot_recorded : Recorded boot where
  ordered := ⟨nofun, trivial⟩
  proc p := by
    by_cases first : p = initproc
    · subst first
      simp [boot, Proc.Recorded, lastEvent, lastAbout, Event.slot]
    · have other : initproc ≠ p := fun equal => first equal.symm
      simp [boot, first, Proc.Recorded, lastEvent, lastAbout, Event.slot, other]

theorem run_family (run : Steps (step slots cpus) boot labels state) :
    Consistent slots state ∧ Family slots state ∧ Recorded state := by
  have all : Consistent slots state ∧ NoLoss state ∧ Family slots state ∧ Recorded state := by
    apply run.invariant _ ⟨boot_consistent slots, boot_noLoss, boot_family slots, boot_recorded⟩
    intro _ _ _ kept stepEq
    rcases kept with ⟨consistent, noLoss, family, recorded⟩
    exact ⟨step_consistent consistent stepEq, step_noLoss consistent noLoss stepEq,
      step_family consistent noLoss family stepEq, step_recorded consistent family recorded stepEq⟩
  exact ⟨all.1, all.2.2⟩

end Steps

theorem waitFail_eq_next {state after : State} (here : (state.cpu c).ctx = .thread p)
    (atPc : (state.proc p).pc = .waitLocked slot)
    (stepEq : step slots cpus state (c, .fail) = .next after) :
    (state.proc slot).state = .zombie ∧
      (state.drop c (.proc slot)).setPc p .waitReturn = after := by
  rw [step] at stepEq
  split at stepEq
  · simp only [here, threadStep] at stepEq
    split at stepEq
    · cases stepEq
    · simp only [atPc, failStep] at stepEq
      split at stepEq
      · rename_i zombie
        rcases releasing_eq_next.mp stepEq with ⟨_, equal⟩
        exact ⟨zombie, equal⟩
      · cases stepEq
  · cases stepEq

/-- The exit/wait protocol in every reachable state. A report is by the parent
and directly follows the exit that it reports, among the events about the slot;
an exit is that of the process last allocated in the slot; and a slot whose
process has exited is allocated again only after the report. A `wait` whose
`copyout` fails leaves its child as it was, and no later scan of `wait` passes
over it. Every process that has been started
and not reported, apart from `init`, has a parent that is alive. While
`wait_lock` is free no process that sleeps in `wait` has a ZOMBIE child. -/
theorem exit_wait_protocol {slots cpus : Nat} {labels : List (Nat × Choice)} {state : State}
    (run : Steps (step slots cpus) boot labels state) :
    (∀ after before caller slot pid status parent,
      state.history = after ++ .reported caller slot pid status parent :: before →
      parent = some caller ∧
        ∃ between earlier, before = between ++ .exited slot pid status :: earlier ∧
          ∀ event ∈ between, event.slot ≠ some slot) ∧
    (∀ after before slot pid status,
      state.history = after ++ .exited slot pid status :: before →
      ∃ between earlier, before = between ++ .allocated slot pid :: earlier ∧
        ∀ event ∈ between, event.slot ≠ some slot) ∧
    (∀ after before between earlier slot pid old status,
      state.history = after ++ .allocated slot pid :: before →
      before = between ++ .exited slot old status :: earlier →
      ∃ caller, .reported caller slot old status (some caller) ∈ between) ∧
    (∀ c p slot after, (state.cpu c).ctx = .thread p → (state.proc p).pc = .waitLocked slot →
      step slots cpus state (c, .fail) = .next after →
      (state.proc slot).state = .zombie ∧ (state.proc slot).parent = some p ∧
        after.proc slot = state.proc slot ∧ after.history = state.history) ∧
    (∀ p q next havekids, (state.proc p).pc = .wait next havekids → slots ≤ next →
      (state.proc q).parent = some p → (state.proc q).state ≠ .zombie) ∧
    (∀ q, q ≠ initproc →
      (state.proc q).state ≠ .unused → (state.proc q).state ≠ .used →
      ∃ r, (state.proc q).parent = some r ∧ (state.proc r).state ≠ .unused ∧
        (state.proc r).state ≠ .zombie) ∧
    (state.spin.owner .wait = none → ∀ r q, (state.proc r).Asleep .wait →
      (state.proc q).parent = some r → (state.proc q).state ≠ .zombie) := by
  rcases run_family run with ⟨consistent, family, recorded⟩
  refine ⟨?_, ?_, ?_, ?_, ?_, ?_, ?_⟩
  · intro after before caller slot pid status parent split
    have follows := recorded.ordered.follows_of_split split
    exact ⟨follows.1, (lastAbout_eq_some_iff.mp follows.2).2⟩
  · intro after before slot pid status split
    exact (lastAbout_eq_some_iff.mp (recorded.ordered.follows_of_split split)).2
  · intro after before between earlier slot pid old status split exited
    have follows := recorded.ordered.follows_of_split split
    exact reported_of_reused (recorded.ordered.before_of_split split) exited (follows old status)
  · intro c p slot after here atPc stepEq
    have known := family.known p
    rw [atPc] at known
    rcases waitFail_eq_next here atPc stepEq with ⟨zombie, rfl⟩
    have different : slot ≠ p := by
      intro same
      have alive := family.alive slot p known.1
      rw [← same, Proc.Alive, zombie] at alive
      simp at alive
    exact ⟨zombie, known.1, setPc_proc_of_ne _ _ different, rfl⟩
  · intro p q next havekids atPc scanned isParent
    have known := family.known p
    rw [atPc] at known
    have bound := family.inside q p isParent
    exact known q (by omega) isParent
  · intro q notInit notUnused notUsed
    have present : (state.proc q).Alive ∨ (state.proc q).state = .zombie := by
      cases found : (state.proc q).state <;> simp_all [Proc.Alive]
    rcases Option.ne_none_iff_exists'.mp (family.parent q notInit present) with ⟨r, isParent⟩
    refine ⟨r, isParent, ?_, ?_⟩ <;>
      rcases family.alive q r isParent with state | state | state <;> simp [state]
  · intro unlocked r q asleep isParent dead
    rcases family.woken r q asleep isParent dead with ⟨c, _, holds, _⟩
    rw [unlocked] at holds
    cases holds

/-- `init` forks a child and waits; the child exits; the first `wait` cannot copy
the status out and a second one reports the child. -/
def failedCopyout : List (Nat × Choice) :=
  List.replicate 3 (0, .proceed) ++ (0, .call .fork) ::
  (List.replicate 9 (0, .proceed) ++ (0, .call .wait) ::
  (List.replicate 14 (0, .proceed) ++ (0, .call (.exit 7)) ::
  (List.replicate 18 (0, .proceed) ++ (0, .fail) ::
  ((0, .proceed) :: (0, .call .wait) :: List.replicate 4 (0, .proceed)))))

theorem exit_wait_protocol_failedCopyout : ∃ state,
    Steps (step 2 1) boot failedCopyout state ∧
    (∃ earlier, state.history = .reported 0 1 2 7 (some 0) :: earlier ∧
      ∃ between older, earlier = between ++ .exited 1 2 7 :: older ∧
        ∀ event ∈ between, event.slot ≠ some 1) ∧
    (state.spin.owner .wait = none → ∀ r q, (state.proc r).Asleep .wait →
      (state.proc q).parent = some r → (state.proc q).state ≠ .zombie) := by
  have ran := Outcome.eq_next_of_isNext boot
    (show (runSteps (step 2 1) boot failedCopyout).isNext = true by decide +kernel)
  have run := steps_iff_runSteps.mpr ran
  have protocol := exit_wait_protocol run
  have reported : ∃ earlier, ((runSteps (step 2 1) boot failedCopyout).getD boot).history =
      .reported 0 1 2 7 (some 0) :: earlier := ⟨_, rfl⟩
  rcases reported with ⟨earlier, equal⟩
  exact ⟨_, run, ⟨earlier, equal, (protocol.1 [] earlier 0 1 2 7 (some 0) equal).2⟩,
    protocol.2.2.2.2.2.2⟩

end Xv6.Sched
