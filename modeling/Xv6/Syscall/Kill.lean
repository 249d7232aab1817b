import Xv6.Syscall.Slots

/-! # `kill` affects live processes only

The pid of a slot that is not in use is 0, so that `kill(0)` finds it. In runs
without `kill(0)` the flag `killed` belongs to the process in the slot. -/

namespace Xv6.Syscalls

open Function (update update_self update_of_ne update_apply update_eq_self update_idem)

/-- A step that is not a call of `kill(0)`. -/
def NotKillZero (_ : State) (label : Nat × Action) : Prop :=
  ∀ num, label.2 = .trap num 0 → syscalls num ≠ some .kill

/-- `kill` has found the pid of a process after `fork` gave the process its slot. -/
def KilledSince (state : State) (q : Nat) : Prop :=
  ∃ later parent earlier,
    state.history = later ++ .created (state.proc q).number parent :: earlier ∧
      .killed (state.proc q).pid q ∈ later

structure KillOk (state : State) : Prop where
  unused : ∀ q, ¬ state.Live q → (state.proc q).pid = 0 ∧ (state.proc q).killed = false
  pcs : ∀ q pid slot, (state.proc q).pc = .kill pid slot → pid ≠ 0
  live : ∀ q, state.Live q → ∃ later parent earlier,
    state.history = later ++ .created (state.proc q).number parent :: earlier ∧
      ((state.proc q).killed = true → .killed (state.proc q).pid q ∈ later)

variable {state next : State} {p q : Nat} {action : Action} {event : Option Event}

variable {pid : Int32} {slot : Nat}

/-- A process that is in `kill` after a step was in it before, or has called it. -/
theorem Moves.kill_before {table : Nat → Proc} (moves : Moves state p action table event)
    (here : (table q).pc = .kill pid slot) :
    (∃ slot, (state.proc q).pc = .kill pid slot) ∨
      ∃ num, action = .trap num pid ∧ syscalls num = some .kill := by
  have two : ∀ {np : Nat} {pc : Pc} {proc : Proc},
      table = withTwo state.proc p ((state.proc p).goto pc) np proc → pc ≠ .kill pid slot →
      (proc.pc = (state.proc np).pc ∨ proc.pc = .user) →
      ∃ slot, (state.proc q).pc = .kill pid slot := by
    intro np pc proc equal first second
    rw [equal] at here
    by_cases other : q = np
    · rw [other, withTwo_second] at here
      rcases second with same | user
      · exact ⟨slot, other ▸ same ▸ here⟩
      · rw [user] at here
        cases here
    · by_cases self : q = p
      · rw [self, withTwo_first (self ▸ other)] at here
        exact absurd here first
      · rw [withTwo_of_ne self other] at here
        exact ⟨slot, here⟩
  have one : ∀ {base : Nat → Proc} {proc : Proc}, table = update base p proc →
      proc.pc ≠ .kill pid slot → (∀ r, (base r).pc = (state.proc r).pc) →
      ∃ slot, (state.proc q).pc = .kill pid slot := by
    intro base proc equal first rest
    rw [equal] at here
    by_cases self : q = p
    · rw [self, update_self] at here
      exact absurd here first
    · rw [update_of_ne self, rest] at here
      exact ⟨slot, here⟩
  cases moves with
  | goto kept child kill =>
    by_cases self : q = p
    · subst self
      rw [update_self] at here
      exact kill pid slot here
    · rw [update_of_ne self] at here
      exact .inl ⟨slot, here⟩
  | exit user =>
    left
    apply one rfl _ (reparent_pc p state.proc)
    intro equal
    rw [show (reparent p state.proc p).pc = _ from reparent_pc p state.proc p, user] at equal
    cases equal
  | trace | print =>
    exact .inl (one rfl (fun equal => by cases equal) fun _ => rfl)
  | create => exact .inl (two rfl (fun equal => by cases equal) (.inr rfl))
  | createFail | forkParent | forkReady | reap =>
    exact .inl (two rfl (fun equal => by cases equal) (.inl rfl))
  | @kill pid slot here found =>
    refine .inl (one rfl (fun equal => by cases equal) fun r => ?_)
    rw [update_apply]
    split
    · rename_i equal
      rw [equal]
      rfl
    · rfl

theorem Stepped.killOk (ok : Ok state) (active : state.Active p)
    (stepped : Stepped state p action next event) (allowed : NotKillZero state (p, action))
    (killOk : KillOk state) : KillOk next where
  unused := by
    intro q unused
    have slot := stepped.moves.slotStep ok active q
    have gone : (next.proc q).state = .unused := not_not.mp unused
    cases slot with
    | kept kept _ =>
      rw [kept.pid, kept.killed]
      exact killOk.unused q fun live => live (kept.live.mp gone)
    | created _ live => exact absurd gone live
    | freed _ pid killed => exact ⟨pid, killed⟩
    | killed live _ _ _ here =>
      -- the pid is not 0, so that the slot is in use
      have free := killOk.unused q fun used => used (live.mp gone)
      exact absurd free.1 (killOk.pcs p _ _ here)
    | traced self live =>
      rw [self] at live gone
      exact absurd (live.mp gone) active.live
  pcs := by
    intro q pid slot here
    rcases stepped.moves.kill_before here with ⟨slot, before⟩ | ⟨num, called, found⟩
    · exact killOk.pcs q pid slot before
    · intro zero
      exact allowed num (zero ▸ called) found
  live := by
    intro q live
    have slot := stepped.moves.slotStep ok active q
    have extend : state.Live q → (next.proc q).number = (state.proc q).number →
        (next.proc q).pid = (state.proc q).pid →
        ((next.proc q).killed = true → (state.proc q).killed = true ∨
          event = some (.killed (state.proc q).pid q)) →
        ∃ later parent earlier,
          next.history = later ++ .created (next.proc q).number parent :: earlier ∧
            ((next.proc q).killed = true → .killed (next.proc q).pid q ∈ later) := by
      intro before number pid killed
      rcases killOk.live q before with ⟨later, parent, earlier, split, known⟩
      refine ⟨event.toList ++ later, parent, earlier, ?_, ?_⟩
      · rw [stepped.history, split, number, List.append_assoc]
      · intro set
        rw [pid, List.mem_append]
        rcases killed set with already | now
        · exact .inr (known already)
        · rw [now]
          exact .inl (List.mem_singleton_self _)
    cases slot with
    | kept kept _ =>
      exact extend (fun unused => live (kept.live.mpr unused)) kept.number kept.pid
        fun set => .inl (kept.killed ▸ set)
    | created unused _ number mask killed =>
      refine ⟨[], some (state.proc p).number, state.history, ?_, ?_⟩
      · rw [number]
        exact stepped.history
      · intro set
        have free := killOk.unused q fun used => used unused
        rw [killed, free.2] at set
        cases set
    | freed unused => exact absurd unused live
    | killed same pid mask number here =>
      exact extend (fun unused => live (same.mpr unused)) number pid fun _ => .inr rfl
    | traced self same pid killed number =>
      exact extend (fun unused => live (same.mpr unused)) number pid fun set => .inl (killed ▸ set)

theorem killOk_boot : KillOk boot := by
  have user : ∀ q, (boot.proc q).pc = .user := by
    intro q
    simp only [boot]
    split <;> rfl
  have notKilled : ∀ q, (boot.proc q).killed = false := by
    intro q
    simp only [boot]
    split <;> rfl
  constructor
  case unused =>
    intro q unused
    refine ⟨?_, notKilled q⟩
    have other : q ≠ initproc := by
      intro equal
      rw [equal] at unused
      exact unused (by simp [State.Live, boot])
    simp [boot, other]
  case pcs =>
    intro q pid slot here
    rw [user] at here
    cases here
  case live =>
    intro q live
    have first : q = initproc := by
      by_contra other
      exact live (by simp [boot, other])
    rw [first]
    exact ⟨[], none, [], rfl, fun set => (by cases set)⟩

/-! ## What `kill` returns -/

theorem State.setPc_setPc (state : State) (p : Nat) (first second : Pc) :
    (state.setPc p first).setPc p second = state.setPc p second := by
  simp only [State.setPc, State.setProc, update_self, update_idem]

theorem State.setPc_pid (state : State) (p : Nat) (pc : Pc) (q : Nat) :
    ((state.setPc p pc).proc q).pid = (state.proc q).pid := by
  simp only [State.setPc, State.setProc, update_apply]
  split
  · rename_i equal
    rw [equal]
  · rfl

theorem step_kill {next : Nat} (inside : p < nproc) (running : (state.proc p).state = .running) :
    step (state.setPc p (.kill pid next)) (p, .proceed) =
      killStep (state.setPc p (.kill pid next)) p pid next := by
  have record : (state.setPc p (.kill pid next)).proc p =
      { state.proc p with pc := .kill pid next } := update_self _ _ _
  simp only [step, inside, if_true, record, running, runningStep, proceed]

/-- A `kill` that finds no slot with its pid looks at all of them and returns -1. -/
theorem kill_scan (inside : p < nproc) (running : (state.proc p).state = .running)
    (absent : ∀ q, (state.proc q).pid ≠ pid) (remaining : Nat) : ∀ next, next + remaining = nproc →
      Steps step (state.setPc p (.kill pid next)) (List.replicate (remaining + 1) (p, .proceed))
        (state.setPc p (.returned 6 (-1))) := by
  induction remaining with
  | zero =>
    intro next total
    apply Steps.cons _ (Steps.nil _)
    rw [step_kill inside running, killStep, if_neg (by omega), State.setPc_setPc]
  | succ remaining induction =>
    intro next total
    apply Steps.cons _ (induction (next + 1) (by omega))
    rw [step_kill inside running, killStep, if_pos (by omega), State.setPc_pid,
      if_neg (absent next), State.setPc_setPc]

/-- A step of `kill` that returns 0 has found its pid in the slot it looks at, and has
set the flag there. -/
theorem kill_returns_zero (here : (state.proc p).pc = .kill pid slot)
    (stepEq : step state (p, .proceed) = .next next) (returned : (next.proc p).pc = .returned 6 0) :
    (state.proc slot).pid = pid ∧ (next.proc slot).killed = true := by
  have running : (state.proc p).state = .running := by
    by_contra other
    rw [step] at stepEq
    split at stepEq
    · cases notRunning : (state.proc p).state <;> simp_all
    · cases stepEq
  have self : ∀ (base : State) (pc : Pc), ((base.setPc p pc).proc p).pc = pc := by
    intro base pc
    simp only [State.setPc, State.setProc, update_self]
  simp only [step, running, runningStep, proceed, here, killStep] at stepEq
  split at stepEq
  · split at stepEq
    · split at stepEq
      · rename_i found
        cases stepEq
        refine ⟨found, ?_⟩
        simp only [State.record, State.setPc, State.setProc, update_apply]
        by_cases self : slot = p <;> simp [self, killProc]
      · cases stepEq
        rw [self] at returned
        cases returned
    · cases stepEq
      rw [self] at returned
      exact absurd returned (by decide)
  · cases stepEq

/-- In every run without `kill(0)`: the flag is set only in slots that are in use, by a
`kill` with the pid of the process in the slot, after `fork` made the process; a `kill`
that returns 0 has set the flag of a process with its pid; and a `kill` with the pid of
no process returns -1. -/
theorem kill_affects_only_live {actions : List (Nat × Action)}
    (run : StepsWhere step NotKillZero boot actions state) :
    (∀ q, (state.proc q).killed = true → state.Live q ∧ KilledSince state q) ∧
    (∀ p pid slot next, (state.proc p).pc = .kill pid slot →
      step state (p, .proceed) = .next next → (next.proc p).pc = .returned 6 0 →
      state.Live slot ∧ (state.proc slot).pid = pid ∧ (next.proc slot).killed = true) ∧
    ∀ p pid, p < nproc → (state.proc p).state = .running → (state.proc p).pc = .kill pid 0 →
      (∀ q, state.Live q → (state.proc q).pid ≠ pid) →
      Steps step state (List.replicate (nproc + 1) (p, .proceed))
        (state.setPc p (.returned 6 (-1))) := by
  have holds : Ok state ∧ KillOk state := by
    apply @StepsWhere.invariant _ _ _ _ (fun state => Ok state ∧ KillOk state) _ _ _ _ run
    · exact ⟨ok_boot, killOk_boot⟩
    · intro state label next holds allowed stepEq
      rcases step_stepped stepEq with ⟨active, event, stepped⟩
      exact ⟨stepped.ok holds.1 active, stepped.killOk holds.1 active allowed holds.2⟩
  rcases holds with ⟨ok, killOk⟩
  have used : ∀ q, (state.proc q).pid ≠ 0 → state.Live q := by
    intro q positive unused
    exact positive (killOk.unused q fun live => live unused).1
  refine ⟨?_, ?_, ?_⟩
  · intro q set
    have live : state.Live q := by
      intro unused
      rw [(killOk.unused q fun live => live unused).2] at set
      cases set
    rcases killOk.live q live with ⟨later, parent, earlier, split, known⟩
    exact ⟨live, later, parent, earlier, split, known set⟩
  · intro p pid slot next here stepEq returned
    rcases kill_returns_zero here stepEq returned with ⟨found, set⟩
    exact ⟨used slot (found ▸ killOk.pcs p pid slot here), found, set⟩
  · intro p pid inside running here absent
    have nobody : ∀ q, (state.proc q).pid ≠ pid := by
      intro q equal
      have positive := killOk.pcs p pid 0 here
      exact absent q (used q (equal ▸ positive)) equal
    have scan := kill_scan inside running nobody nproc 0 (Nat.zero_add _)
    have same : state.setPc p (.kill pid 0) = state := by
      rw [← here, State.setPc, State.setProc]
      exact congrArg (fun table => { state with proc := table }) (update_eq_self _ _)
    rwa [same] at scan

/-- `NotKillZero` as a test. -/
def notKillZero (_ : State) (label : Nat × Action) : Bool :=
  match label.2 with
  | .trap num arg => !(arg == 0 && syscalls num == some .kill)
  | _ => true

theorem notKillZero_sound (state : State) (label : Nat × Action)
    (allowed : notKillZero state label = true) : NotKillZero state label := by
  intro num equal found
  rw [notKillZero, equal] at allowed
  simp [found] at allowed

/-- The first process forks and kills its child. -/
def forkAndKill : List (Nat × Action) :=
  [(0, .schedule), (0, .trap 1 0), (0, .proceed), (0, .proceed), (0, .proceed), (0, .proceed),
    (0, .proceed), (0, .trap 6 2), (0, .proceed), (0, .proceed)]

theorem kill_affects_only_live_forkAndKill : ∃ state,
    StepsWhere step NotKillZero boot forkAndKill state ∧ (state.proc 1).killed = true ∧
      state.Live 1 ∧ KilledSince state 1 := by
  have ran := Outcome.eq_next_of_isNext boot
    (show (runStepsWhere step notKillZero boot forkAndKill).isNext = true by decide +kernel)
  have run := StepsWhere.of_runStepsWhere notKillZero_sound ran
  have killed : (((runStepsWhere step notKillZero boot forkAndKill).getD boot).proc 1).killed =
      true := by decide +kernel
  exact ⟨_, run, killed, (kill_affects_only_live run).1 1 killed⟩

/-- `kill(0)`, and then a `fork`. -/
def killZeroAndFork : List (Nat × Action) :=
  [(0, .schedule), (0, .trap 6 0), (0, .proceed), (0, .proceed), (0, .proceed), (0, .trap 1 0),
    (0, .proceed), (0, .proceed), (0, .proceed), (0, .proceed)]

/-- `kill(0)` returns 0 and sets the flag of a slot that is not in use, and `fork` returns
a child there that is killed though nobody has called `kill` with its pid. -/
theorem kill_zero_leaks :
    (∃ state, Steps step boot (killZeroAndFork.take 4) state ∧
      (state.proc 0).pc = .returned 6 0 ∧ (state.proc 1).state = .unused ∧
      (state.proc 1).killed = true) ∧
    ∃ state, Steps step boot killZeroAndFork state ∧ (state.proc 0).pc = .returned 1 2 ∧
      (state.proc 1).pid = 2 ∧ (state.proc 1).killed = true ∧
      state.history = [.created 1 (some 0), .returned 0 6 false, .killed 0 1, .created 0 none] := by
  constructor
  · have ran := Outcome.eq_next_of_isNext boot
      (show (runSteps step boot (killZeroAndFork.take 4)).isNext = true by decide +kernel)
    exact ⟨_, steps_iff_runSteps.mpr ran, by decide +kernel, by decide +kernel, by decide +kernel⟩
  · have ran := Outcome.eq_next_of_isNext boot
      (show (runSteps step boot killZeroAndFork).isNext = true by decide +kernel)
    exact ⟨_, steps_iff_runSteps.mpr ran, by decide +kernel, by decide +kernel, by decide +kernel,
      by decide +kernel⟩

end Xv6.Syscalls
