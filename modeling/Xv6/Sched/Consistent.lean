import Xv6.Sched.Moves

/-! # Threads, locks and process states

The place of a thread in the code determines which locks of `proc.c` its CPU
holds and which state its process has. `Consistent` says that they agree in a
state of the machine, and the lemmas below say what keeps it. -/

namespace Xv6.Sched

open State
open Function (update update_self update_of_ne update_eq_self)

/-! ## What the place of a thread says -/

/-- The locks that only `proc.c` uses. -/
def Lock.internal : Lock → Bool
  | .other _ => false
  | _ => true

def WakeupReturn.locks : WakeupReturn → List Lock
  | .caller => []
  | .reparent .. | .exit .. => [.wait]

/-- The locks of `proc.c` held at a place in the code of the thread of `p`. -/
def Pc.locks (p : Nat) : Pc → List Lock
  | .free | .sleepRelock .. | .kill .. | .fork .. | .forkParent .. | .forkReady .. => []
  | .forkret | .sleepReleased .. | .sleepSched .. | .sleepResumed .. | .exitSched | .exited =>
    [.proc p]
  | .sleepLocked call => [.proc p, call.lock]
  | .wakeup _ _ ret => ret.locks
  | .wakeupLocked _ slot ret => .proc slot :: ret.locks
  | .killLocked _ slot | .forkLocked slot | .forkFound slot | .forkReadyLocked slot =>
    [.proc slot]
  | .reparent .. | .exitLock .. | .forkParented .. | .wait .. | .waitKilled | .waitSleep
  | .waitReturn => [.wait]
  | .exitLocked .. | .waitKilledLocked => [.proc p, .wait]
  | .waitLocked slot => [.proc slot, .wait]

theorem Pc.wait_mem_locks {pc : Pc} (p q : Nat) :
    Lock.wait ∈ pc.locks p ↔ Lock.wait ∈ pc.locks q := by
  cases pc <;> simp [Pc.locks]

/-- The state of a process whose thread a CPU runs, without `yield`. -/
def Pc.state : Pc → ProcState
  | .sleepSched .. => .sleeping
  | .exitSched | .exited => .zombie
  | _ => .running

/-- The child that a thread in `fork` has allocated and not yet started. -/
def Pc.child : Pc → Option Nat
  | .forkFound slot | .forkParent slot | .forkParented slot | .forkReady slot
  | .forkReadyLocked slot => some slot
  | _ => none

def Proc.locks (p : Nat) (proc : Proc) : List Lock :=
  match proc.yielding with
  | some _ => [.proc p]
  | none => proc.pc.locks p

def Proc.threadState (proc : Proc) : ProcState :=
  match proc.yielding with
  | some .sched => .runnable
  | some _ => .running
  | none => proc.pc.state

def SchedPc.locks : SchedPc → List Lock
  | .scan .. | .wake .. => []
  | .locked slot | .back slot | .wakeLocked _ _ slot _ => [.proc slot]

def Ctx.locks (proc : Nat → Proc) : Ctx → List Lock
  | .scheduler pc => pc.locks
  | .thread p => (proc p).locks p

/-- What `c->proc` is. -/
def Ctx.proc : Ctx → Option Nat
  | .scheduler (.back p) => some p
  | .scheduler _ => none
  | .thread p => some p

theorem Ctx.proc_eq_some {ctx : Ctx} :
    ctx.proc = some p ↔ ctx = .thread p ∨ ctx = .scheduler (.back p) := by
  cases ctx with
  | thread q => simp [Ctx.proc]
  | scheduler pc => cases pc <;> simp [Ctx.proc]

/-- The thread waits in `swtch`, or has never run. -/
def Proc.Resumable (proc : Proc) : Prop :=
  proc.yielding = some .resumed ∨
    (proc.yielding = none ∧ (proc.pc = .forkret ∨ ∃ call, proc.pc = .sleepResumed call))

/-- What holds of a process that no CPU runs. -/
structure Proc.Parked (proc : Proc) : Prop where
  notRunning : proc.state ≠ .running
  resumable : proc.state = .used ∨ proc.state = .runnable ∨ proc.state = .sleeping → proc.Resumable
  notWait : ∀ p, .wait ∉ proc.pc.locks p

theorem Proc.Resumable.locks {proc : Proc} (resumable : proc.Resumable) (p : Nat) :
    proc.locks p = [.proc p] := by
  rcases resumable with yielding | ⟨yielding, pc | ⟨call, pc⟩⟩
  · simp [Proc.locks, yielding]
  · simp [Proc.locks, yielding, pc, Pc.locks]
  · simp [Proc.locks, yielding, pc, Pc.locks]

theorem Proc.Resumable.threadState {proc : Proc} (resumable : proc.Resumable) :
    proc.threadState = .running := by
  rcases resumable with yielding | ⟨yielding, pc | ⟨call, pc⟩⟩
  · simp [Proc.threadState, yielding]
  · simp [Proc.threadState, yielding, pc, Pc.state]
  · simp [Proc.threadState, yielding, pc, Pc.state]

theorem Proc.mem_locks_of_not_running {proc : Proc} (p : Nat)
    (notRunning : proc.threadState ≠ .running) : Lock.proc p ∈ proc.locks p := by
  cases yielding : proc.yielding with
  | some stage => simp [Proc.locks, yielding]
  | none =>
    simp only [Proc.threadState, yielding] at notRunning
    cases found : proc.pc <;> simp_all [Proc.locks, Pc.state, Pc.locks]

theorem Proc.threadState_ne_used (proc : Proc) : proc.threadState ≠ .used := by
  rcases found : proc.yielding with _ | stage
  · cases pc : proc.pc <;> simp [Proc.threadState, found, pc, Pc.state]
  · cases stage <;> simp [Proc.threadState, found]

/-! ## The invariant -/

/-- The agreement between CPUs, threads, locks and process states. -/
structure Consistent (slots : Nat) (state : State) : Prop where
  counted : state.spin.Counted
  owner : ∀ c lk, lk.internal = true →
    (state.spin.owner lk = some c ↔ lk ∈ (state.cpu c).ctx.locks state.proc)
  current : ∀ c, (state.cpu c).proc = (state.cpu c).ctx.proc
  context : ∀ c p, (state.cpu c).ctx = .thread p → (state.cpu c).context = p ∧ p < slots
  thread : ∀ c p, (state.cpu c).ctx = .thread p → (state.proc p).state = (state.proc p).threadState
  unique : ∀ c d p, (state.cpu c).ctx = .thread p → (state.cpu d).ctx = .thread p → c = d
  back : ∀ c d p, (state.cpu c).ctx = .scheduler (.back p) → (state.cpu d).ctx ≠ .thread p
  parked : ∀ p, (∀ c, (state.cpu c).ctx ≠ .thread p) → (state.proc p).Parked
  interrupted : ∀ p, (state.proc p).yielding ≠ none →
    ∀ lk ∈ (state.proc p).pc.locks p, lk.internal = false
  outside : ∀ p, slots ≤ p → (state.proc p).state ≠ .sleeping
  bounded : ∀ p, state.spin.owner (.proc p) ≠ none → p < slots
  child : ∀ p slot, (state.proc p).pc.child = some slot →
    slot < slots ∧ (state.proc slot).state = .used
  onlyChild : ∀ p q slot, (state.proc p).pc.child = some slot →
    (state.proc q).pc.child = some slot → p = q

/-- The record of a process looks the same to the scheduler. -/
structure Proc.Same (before after : Proc) : Prop where
  pc : after.pc = before.pc
  yielding : after.yielding = before.yielding
  state : after.state = before.state
  chan : after.chan = before.chan

theorem Proc.Same.refl (proc : Proc) : proc.Same proc := ⟨rfl, rfl, rfl, rfl⟩

variable {before : Proc}

theorem Proc.Same.locks {after : Proc} (same : before.Same after) (p : Nat) :
    after.locks p = before.locks p := by
  rw [Proc.locks, Proc.locks, same.pc, same.yielding]

theorem Proc.Same.threadState {after : Proc} (same : before.Same after) :
    after.threadState = before.threadState := by
  rw [Proc.threadState, Proc.threadState, same.pc, same.yielding]

theorem Proc.Same.parked {after : Proc} (same : before.Same after) (parked : before.Parked) :
    after.Parked := by
  constructor
  · rw [same.state]
    exact parked.notRunning
  · rw [same.state, Proc.Resumable, same.pc, same.yielding]
    exact parked.resumable
  · rw [same.pc]
    exact parked.notWait

/-- What CPU `c` may do to a process that it does not run: nothing the scheduler
sees, or, under the lock of a process that does not run, give it a new state. -/
def Touched (state : State) (c r : Nat) (after : Proc) : Prop :=
  (state.proc r).Same after ∨
    (state.spin.owner (.proc r) = some c ∧ (state.proc r).state ≠ .running ∧
      after.state ≠ .sleeping ∧ after.Parked ∧
      ((after.pc = (state.proc r).pc ∧ after.yielding = (state.proc r).yielding) ∨
        (after.pc = .forkret ∧ after.yielding = none)))

/-- What a step of CPU `c` does to the locks: `held` are the locks of `proc.c`
that it holds afterwards. -/
structure Locking (slots : Nat) (state after : State) (c : Nat) (held : List Lock) : Prop where
  counted : after.spin.Counted
  others : ∀ lk d, d ≠ c → (after.spin.owner lk = some d ↔ state.spin.owner lk = some d)
  own : ∀ lk, lk.internal = true → (after.spin.owner lk = some c ↔ lk ∈ held)
  bounded : ∀ r, after.spin.owner (.proc r) = some c → r < slots

/-- What a step of the thread of `p` on CPU `c` does when it does not switch
stacks. -/
structure Effect (slots : Nat) (state : State) (c p : Nat) (after : State) : Prop where
  cpu : after.cpu = state.cpu
  locking : Locking slots state after c ((after.proc p).locks p)
  self : (after.proc p).state = (after.proc p).threadState
  interrupted : (after.proc p).yielding ≠ none →
    ∀ lk ∈ (after.proc p).pc.locks p, lk.internal = false
  rest : ∀ r, r ≠ p → Touched state c r (after.proc r)
  child : ∀ slot, (after.proc p).pc.child = some slot →
    slot < slots ∧ (after.proc slot).state = .used ∧
      ((state.proc p).pc.child = some slot ∨ (state.proc slot).state = .unused)
  kept : ∀ r, r ≠ p → (state.proc r).state = .used →
    (after.proc r).state = .used ∨ (state.proc p).pc.child = some r

/-- What is left to check of a process that a step of CPU `c` touches at will,
when the CPU ends in `ctx`. -/
structure Turn (slots : Nat) (state after : State) (c : Nat) (ctx : Ctx) (p : Nat) : Prop where
  alone : ∀ d, d ≠ c → (state.cpu d).ctx.proc ≠ some p
  bound : p < slots
  notUsed : (state.proc p).state ≠ .used
  thread : ctx = .thread p → (after.proc p).state = (after.proc p).threadState
  parked : ctx ≠ .thread p → (after.proc p).Parked
  interrupted : (after.proc p).yielding ≠ none →
    ∀ lk ∈ (after.proc p).pc.locks p, lk.internal = false
  child : ∀ slot, (after.proc p).pc.child = some slot →
    slot < slots ∧ (after.proc slot).state = .used ∧
      ((state.proc p).pc.child = some slot ∨ (state.proc slot).state = .unused)

variable {r : Nat}

section Locking

variable {slots : Nat} {state after : State} {c : Nat} {before held : List Lock}

theorem Locking.bound (locking : Locking slots state after c held)
    (consistent : Consistent slots state) (r : Nat)
    (taken : after.spin.owner (.proc r) ≠ none) : r < slots := by
  cases found : after.spin.owner (.proc r) with
  | none => exact absurd found taken
  | some d =>
    by_cases same : d = c
    · exact locking.bounded r (same ▸ found)
    · apply consistent.bounded
      rw [(locking.others _ d same).mp found]
      exact nofun

theorem Consistent.bounded_owner (consistent : Consistent slots state)
    (holds : state.spin.owner (.proc r) = some c) : r < slots :=
  consistent.bounded r (by rw [holds]; exact nofun)

theorem Locking.same (consistent : Consistent slots state)
    (now : (state.cpu c).ctx.locks state.proc = before) (spin : after.spin = state.spin)
    (same : ∀ lk, lk.internal = true → (lk ∈ held ↔ lk ∈ before)) :
    Locking slots state after c held where
  counted := spin ▸ consistent.counted
  others lk d _ := by rw [spin]
  own lk internal := by rw [spin, consistent.owner c lk internal, now, same lk internal]
  bounded r holds := consistent.bounded_owner (spin ▸ holds)

theorem Locking.take (consistent : Consistent slots state)
    (now : (state.cpu c).ctx.locks state.proc = before) {lk : Lock}
    (spin : after.spin = state.spin.taken c lk) (free : state.spin.owner lk = none)
    (inside : ∀ r, lk = .proc r → r < slots)
    (gains : ∀ other, other.internal = true → (other ∈ held ↔ other ∈ before ∨ other = lk)) :
    Locking slots state after c held where
  counted := spin ▸ consistent.counted.taken free
  others other d different := by
    rw [spin, Spinlocks.taken_owner_iff free]
    simp [different]
  own other internal := by
    rw [spin, Spinlocks.taken_owner_iff free, consistent.owner c other internal, now,
      gains other internal]
    simp
  bounded r holds := by
    rw [spin, Spinlocks.taken_owner_iff free] at holds
    rcases holds with held | ⟨equal, _⟩
    · exact consistent.bounded_owner held
    · exact inside r equal.symm

theorem Locking.drop (consistent : Consistent slots state)
    (now : (state.cpu c).ctx.locks state.proc = before)
    (spin : after.spin = state.spin.dropped c lk) (holds : state.spin.owner lk = some c)
    (loses : ∀ other, other.internal = true → (other ∈ held ↔ other ∈ before ∧ other ≠ lk)) :
    Locking slots state after c held where
  counted := spin ▸ consistent.counted.dropped holds
  others other d different := by
    rw [spin, Spinlocks.dropped_owner_iff, and_iff_left_iff_imp]
    intro held equal
    rw [equal, holds] at held
    exact different (Option.some.inj held).symm
  own other internal := by
    rw [spin, Spinlocks.dropped_owner_iff, consistent.owner c other internal, now,
      loses other internal]
  bounded r held := by
    rw [spin, Spinlocks.dropped_owner_iff] at held
    exact consistent.bounded_owner held.1

end Locking

variable {d slot : Nat}

namespace Consistent

variable {slots : Nat} {state after : State} {c p : Nat}

section

variable (consistent : Consistent slots state)

include consistent

theorem lock_of_thread (here : (state.cpu d).ctx = .thread r)
    (notRunning : (state.proc r).state ≠ .running) : state.spin.owner (.proc r) = some d := by
  rw [consistent.owner d _ rfl, here]
  apply Proc.mem_locks_of_not_running
  rw [← consistent.thread d r here]
  exact notRunning

theorem lock_of_back (returning : (state.cpu c).ctx = .scheduler (.back r)) :
    state.spin.owner (.proc r) = some c := by
  rw [consistent.owner c _ rfl, returning]
  exact List.mem_singleton_self _

/-- A process whose lock the CPU holds and that is not running is run by no
other CPU. -/
theorem not_thread (holds : state.spin.owner (.proc r) = some c)
    (notRunning : (state.proc r).state ≠ .running) (different : (state.cpu c).ctx ≠ .thread r) :
    (state.cpu d).ctx ≠ .thread r := by
  intro here
  have same := holds.symm.trans (consistent.lock_of_thread here notRunning)
  rw [Option.some.inj same] at different
  exact different here

theorem touched_thread {proc : Proc} (touched : Touched state c r proc)
    (different : (state.cpu c).ctx ≠ .thread r) (here : (state.cpu d).ctx = .thread r) :
    (state.proc r).Same proc := by
  rcases touched with same | ⟨holds, notRunning, _⟩
  · exact same
  · exact absurd here (consistent.not_thread holds notRunning different)

omit consistent in
theorem touched_child {proc : Proc} (touched : Touched state c r proc)
    (found : proc.pc.child = some slot) : (state.proc r).pc.child = some slot := by
  rcases touched with same | ⟨_, _, _, _, ⟨pc, _⟩ | ⟨pc, _⟩⟩
  · rw [← same.pc]
    exact found
  · rw [← pc]
    exact found
  · rw [pc] at found
    cases found

theorem notUsed_of_thread (here : (state.cpu c).ctx = .thread p) :
    (state.proc p).state ≠ .used := by
  rw [consistent.thread c p here]
  exact Proc.threadState_ne_used _

theorem alone_of_thread (here : (state.cpu c).ctx = .thread p) (d : Nat) (different : d ≠ c) :
    (state.cpu d).ctx.proc ≠ some p := by
  intro found
  rcases Ctx.proc_eq_some.mp found with running | returning
  · exact different (consistent.unique d c p running here)
  · exact consistent.back d c p returning here

/-- The children of the threads after a step that touches the process `mine` at
will and the others as `Touched` says. -/
theorem children_step {ctx : Ctx} {mine : Option Nat}
    (turn : ∀ p, mine = some p → Turn slots state after c ctx p)
    (rest : ∀ r, mine ≠ some r → Touched state c r (after.proc r))
    (kept : ∀ r, mine ≠ some r → (state.proc r).state = .used →
      (after.proc r).state = .used ∨ ∃ p, mine = some p ∧ (state.proc p).pc.child = some r) :
    (∀ q slot, (after.proc q).pc.child = some slot →
      slot < slots ∧ (after.proc slot).state = .used) ∧
    ∀ q r slot, (after.proc q).pc.child = some slot → (after.proc r).pc.child = some slot →
      q = r := by
  have before : ∀ q slot, mine ≠ some q → (after.proc q).pc.child = some slot →
      (state.proc q).pc.child = some slot :=
    fun q slot different found => touched_child (rest q different) found
  have apart : ∀ q r slot, mine ≠ some q → mine = some r →
      (after.proc q).pc.child = some slot → (after.proc r).pc.child ≠ some slot := by
    intro q r slot different isMine found own
    have old := before q slot different found
    rcases ((turn r isMine).child slot own).2.2 with child | unused
    · exact different (consistent.onlyChild q r slot old child ▸ isMine)
    · have used := (consistent.child q slot old).2
      rw [unused] at used
      cases used
  constructor
  · intro q slot found
    by_cases same : mine = some q
    · exact ⟨((turn q same).child slot found).1, ((turn q same).child slot found).2.1⟩
    · have old := before q slot same found
      rcases consistent.child q slot old with ⟨bound, used⟩
      have slotNe : mine ≠ some slot := fun equal => (turn slot equal).notUsed used
      rcases kept slot slotNe used with still | ⟨p, isMine, child⟩
      · exact ⟨bound, still⟩
      · exact absurd (consistent.onlyChild q p slot old child ▸ isMine) same
  · intro q r slot first second
    by_cases sameFirst : mine = some q <;> by_cases sameSecond : mine = some r
    · exact Option.some.inj (sameFirst.symm.trans sameSecond)
    · exact absurd first (apart r q slot sameSecond sameFirst second)
    · exact absurd second (apart q r slot sameFirst sameSecond first)
    · exact consistent.onlyChild q r slot (before q slot sameFirst first)
        (before r slot sameSecond second)

omit consistent in
/-- A step of CPU `c` keeps the agreement if it leaves the other CPUs alone and
touches the processes other than `mine` only as `Touched` says. -/
theorem turn (consistent : Consistent slots state) (mine : Option Nat) {cpu : Cpu}
    (cpus : after.cpu = update state.cpu c cpu)
    (locking : Locking slots state after c (cpu.ctx.locks after.proc))
    (current : cpu.proc = cpu.ctx.proc)
    (context : ∀ p, cpu.ctx = .thread p → cpu.context = p)
    (here : ∀ p, (state.cpu c).ctx = .thread p → mine = some p)
    (there : ∀ p, cpu.ctx.proc = some p → mine = some p)
    (turn : ∀ p, mine = some p → Turn slots state after c cpu.ctx p)
    (rest : ∀ r, mine ≠ some r → Touched state c r (after.proc r))
    (kept : ∀ r, mine ≠ some r → (state.proc r).state = .used →
      (after.proc r).state = .used ∨ ∃ p, mine = some p ∧ (state.proc p).pc.child = some r) :
    Consistent slots after := by
  have own : after.cpu c = cpu := by rw [cpus, update_self]
  have other : ∀ {d}, d ≠ c → after.cpu d = state.cpu d := fun different => by
    rw [cpus, update_of_ne different]
  have thread : ∀ {r}, cpu.ctx = .thread r → mine = some r := fun {r} found =>
    there r (by rw [found]; rfl)
  have notMine : ∀ {d r}, d ≠ c → (state.cpu d).ctx = .thread r → mine ≠ some r :=
    fun different found isMine => (turn _ isMine).alone _ different (by rw [found]; rfl)
  have same : ∀ {d r}, d ≠ c → (state.cpu d).ctx = .thread r →
      (state.proc r).Same (after.proc r) := fun different found =>
    consistent.touched_thread (rest _ (notMine different found))
      (fun running => notMine different found (here _ running)) found
  have children := consistent.children_step turn rest kept
  refine ⟨locking.counted, ?_, ?_, ?_, ?_, ?_, ?_, ?_, ?_, ?_, locking.bound consistent,
    children.1, children.2⟩
  · intro d lk internal
    by_cases thisCpu : d = c
    · rw [thisCpu, own]
      exact locking.own lk internal
    · rw [locking.others lk d thisCpu, consistent.owner d lk internal, other thisCpu]
      cases found : (state.cpu d).ctx with
      | scheduler pc => exact Iff.rfl
      | thread r => rw [Ctx.locks, Ctx.locks, (same thisCpu found).locks r]
  · intro d
    by_cases thisCpu : d = c
    · rw [thisCpu, own]
      exact current
    · rw [other thisCpu]
      exact consistent.current d
  · intro d r found
    by_cases thisCpu : d = c
    · rw [thisCpu, own] at found ⊢
      exact ⟨context r found, (turn r (thread found)).bound⟩
    · rw [other thisCpu] at found ⊢
      exact consistent.context d r found
  · intro d r found
    by_cases thisCpu : d = c
    · rw [thisCpu, own] at found
      exact (turn r (thread found)).thread found
    · rw [other thisCpu] at found
      rw [(same thisCpu found).threadState, (same thisCpu found).state]
      exact consistent.thread d r found
  · intro d e r first second
    by_cases thisFirst : d = c <;> by_cases thisSecond : e = c
    · exact thisFirst.trans thisSecond.symm
    · rw [thisFirst, own] at first
      rw [other thisSecond] at second
      exact absurd (thread first) (notMine thisSecond second)
    · rw [thisSecond, own] at second
      rw [other thisFirst] at first
      exact absurd (thread second) (notMine thisFirst first)
    · rw [other thisFirst] at first
      rw [other thisSecond] at second
      exact consistent.unique d e r first second
  · intro d e r returning running
    by_cases thisFirst : d = c <;> by_cases thisSecond : e = c
    · rw [thisFirst, ← thisSecond, running] at returning
      cases returning
    · rw [thisFirst, own] at returning
      rw [other thisSecond] at running
      exact notMine thisSecond running (there r (by rw [returning]; rfl))
    · rw [thisSecond, own] at running
      rw [other thisFirst] at returning
      exact (turn r (thread running)).alone d thisFirst (by rw [returning]; rfl)
    · rw [other thisFirst] at returning
      rw [other thisSecond] at running
      exact consistent.back d e r returning running
  · intro r absent
    by_cases isMine : mine = some r
    · exact (turn r isMine).parked (own ▸ absent c)
    · have before := consistent.parked r fun d found => by
        by_cases thisCpu : d = c
        · exact isMine (here r (thisCpu ▸ found))
        · exact absent d (other thisCpu ▸ found)
      rcases rest r isMine with same | ⟨_, _, _, parked, _⟩
      · exact same.parked before
      · exact parked
  · intro r yields
    by_cases isMine : mine = some r
    · exact (turn r isMine).interrupted yields
    · rcases rest r isMine with same | ⟨_, _, _, _, ⟨pc, yielding⟩ | ⟨pc, yielding⟩⟩
      · rw [same.pc]
        rw [same.yielding] at yields
        exact consistent.interrupted r yields
      · rw [pc]
        rw [yielding] at yields
        exact consistent.interrupted r yields
      · exact absurd yielding yields
  · intro r beyond
    by_cases isMine : mine = some r
    · exact absurd (turn r isMine).bound (Nat.not_lt.mpr beyond)
    · rcases rest r isMine with same | ⟨holds, _⟩
      · rw [same.state]
        exact consistent.outside r beyond
      · exact absurd (consistent.bounded_owner holds) (Nat.not_lt.mpr beyond)

/-- A step of the thread of `p` that does not switch stacks keeps the
agreement. -/
theorem move (here : (state.cpu c).ctx = .thread p) (effect : Effect slots state c p after) :
    Consistent slots after := by
  rcases effect with ⟨cpu, locking, self, interrupted, rest, child, kept⟩
  refine consistent.turn (some p) (cpu.trans (update_eq_self c state.cpu).symm) ?_
    (consistent.current c) (fun r found => (consistent.context c r found).1)
    (fun r found => ?_) (fun r found => ?_) ?_ (fun r different => rest r ?_) ?_
  · rw [here]
    exact locking
  · rw [Ctx.thread.inj (here.symm.trans found)]
  · rw [here] at found
    exact found
  · intro r isMine
    cases isMine
    exact ⟨consistent.alone_of_thread here, (consistent.context c p here).2,
      consistent.notUsed_of_thread here, fun _ => self, fun impossible => absurd here impossible,
      interrupted, child⟩
  · exact fun equal => different (congrArg some equal.symm)
  · intro r different used
    rcases kept r (fun equal => different (congrArg some equal.symm)) used with still | mine
    · exact .inl still
    · exact .inr ⟨p, rfl, mine⟩

theorem effectThread (here : (state.cpu c).ctx = .thread p) (cpu : after.cpu = state.cpu)
    {proc : Proc} (procs : after.proc = update state.proc p proc)
    (locking : Locking slots state after c (proc.locks p)) (self : proc.state = proc.threadState)
    (interrupted : proc.yielding ≠ none → ∀ lk ∈ proc.pc.locks p, lk.internal = false)
    (child : proc.pc.child = none ∨ proc.pc.child = (state.proc p).pc.child) :
    Effect slots state c p after := by
  have own : after.proc p = proc := by rw [procs, update_self]
  have rest : ∀ r, r ≠ p → after.proc r = state.proc r := fun r different => by
    rw [procs, update_of_ne different]
  refine ⟨cpu, ?_, ?_, ?_, ?_, ?_, ?_⟩
  · rw [own]
    exact locking
  · rw [own]
    exact self
  · rw [own]
    exact interrupted
  · intro r different
    rw [rest r different]
    exact .inl (Proc.Same.refl _)
  · intro slot found
    rw [own] at found
    rcases child with none | same
    · rw [none] at found
      cases found
    · rw [same] at found
      rcases consistent.child p slot found with ⟨bound, used⟩
      have different : slot ≠ p := fun equal =>
        consistent.notUsed_of_thread here (equal ▸ used)
      exact ⟨bound, by rw [rest slot different]; exact used, .inl found⟩
  · intro r different used
    rw [rest r different]
    exact .inl used

theorem effectOwn (here : (state.cpu c).ctx = .thread p) (cpu : after.cpu = state.cpu) {proc : Proc}
    (procs : after.proc = update state.proc p proc) (awake : proc.yielding = none)
    (locking : Locking slots state after c (proc.pc.locks p)) (self : proc.state = proc.pc.state)
    (child : proc.pc.child = none ∨ proc.pc.child = (state.proc p).pc.child) :
    Effect slots state c p after := by
  apply consistent.effectThread here cpu procs _ _ _ child
  · rw [Proc.locks, awake]
    exact locking
  · rw [Proc.threadState, awake]
    exact self
  · rw [awake]
    exact fun impossible => absurd rfl impossible

end

end Consistent

section Effect

variable {slots : Nat} {state after : State} {c p : Nat}

theorem Effect.ofSlot (cpu : after.cpu = state.cpu) {other proc : Proc} (different : slot ≠ p)
    (procs : after.proc = update (update state.proc slot other) p proc)
    (awake : proc.yielding = none) (locking : Locking slots state after c (proc.pc.locks p))
    (self : proc.state = proc.pc.state) (touched : Touched state c slot other)
    (child : proc.pc.child = none ∨
      (proc.pc.child = some slot ∧ slot < slots ∧ other.state = .used ∧
        ((state.proc p).pc.child = some slot ∨ (state.proc slot).state = .unused)))
    (kept : (state.proc slot).state = .used →
      other.state = .used ∨ (state.proc p).pc.child = some slot) :
    Effect slots state c p after := by
  have own : after.proc p = proc := by rw [procs, update_self]
  have there : after.proc slot = other := by
    rw [procs, update_of_ne different, update_self]
  have rest : ∀ r, r ≠ p → r ≠ slot → after.proc r = state.proc r := by
    intro r notSelf notSlot
    rw [procs, update_of_ne notSelf, update_of_ne notSlot]
  refine ⟨cpu, ?_, ?_, ?_, ?_, ?_, ?_⟩
  · rw [own, Proc.locks, awake]
    exact locking
  · rw [own, Proc.threadState, awake]
    exact self
  · rw [own, awake]
    exact fun impossible => absurd rfl impossible
  · intro r notSelf
    by_cases same : r = slot
    · rw [same, there]
      exact touched
    · rw [rest r notSelf same]
      exact .inl (Proc.Same.refl _)
  · intro found isChild
    rw [own] at isChild
    rcases child with none | ⟨equal, bound, used, before⟩
    · rw [none] at isChild
      cases isChild
    · rw [equal] at isChild
      cases isChild
      rw [there]
      exact ⟨bound, used, before⟩
  · intro r notSelf used
    by_cases same : r = slot
    · subst same
      rw [there]
      exact kept used
    · rw [rest r notSelf same]
      exact .inl used

theorem Effect.same (effect : Effect slots state c p after) (consistent : Consistent slots state)
    (here : (state.cpu c).ctx = .thread p) (different : d ≠ c)
    (there : (state.cpu d).ctx = .thread r) : (state.proc r).Same (after.proc r) := by
  have ne : r ≠ p := by
    intro equal
    subst equal
    exact different (consistent.unique d c r there here)
  apply consistent.touched_thread (effect.rest r ne) _ there
  intro equal
  rw [here] at equal
  exact ne (Ctx.thread.inj equal).symm

end Effect

end Xv6.Sched
